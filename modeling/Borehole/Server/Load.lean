/-
  Borehole.Server.Load

  The load of the edge nodes.

  A session that is served through a node counts itself in once its tunnel is
  recorded and out before the tunnel is removed, in critical sections of their
  own that do nothing if the node has left.  Node ids are never used again, so
  the counter of a registered node is the number of the sessions that have
  counted themselves in and not out.
-/

import Mathlib.Data.Finset.Card
import Borehole.Server.Lifecycle
import Borehole.Server.Handshake

namespace Borehole

open Conc Tasks

/-! ## Counting in and out -/

/-- A session counts itself in at a node, or out. -/
inductive Load where
  | up (nodeId : String)
  | down (nodeId : String)
  deriving DecidableEq, Repr

/-- What an operation does to the counter of a node. -/
def Op.load? : Op → Option Load
  | .incrementTunnels id => some (.up id)
  | .decrementTunnels id => some (.down id)
  | _ => none

/-- What session `t` has counted in a run, in order. -/
def loads (t : Tid) (ls : List (Tid × Op)) : List Load :=
  (opsOf t ls).filterMap Op.load?

/-- The sessions that have executed `increment_tunnels` for node `id` and not yet
    `decrement_tunnels`. -/
def loaded (id : String) (ls : List (Tid × Op)) : Finset Tid :=
  (ls.map Prod.fst).toFinset.filter fun t => .up id ∈ loads t ls ∧ .down id ∉ loads t ls

section Loads

variable {t u : Tid} {op : Op} {ls : List (Tid × Op)} {id : String}

@[simp] theorem loads_snoc_self :
    loads t (ls ++ [(t, op)]) = loads t ls ++ op.load?.toList := by
  rw [loads, opsOf_append, opsOf_singleton_self, List.filterMap_append, loads]
  cases h : op.load? <;> simp [h]

theorem loads_snoc_ne (h : t ≠ u) : loads u (ls ++ [(t, op)]) = loads u ls := by
  rw [loads, opsOf_append, opsOf_singleton_ne op h, List.append_nil, loads]

theorem mem_fst_of_loads {x : Load} (h : x ∈ loads t ls) : t ∈ ls.map Prod.fst := by
  obtain ⟨op, hop, _⟩ := List.mem_filterMap.mp h
  exact List.mem_map.mpr ⟨(t, op), mem_opsOf.mp hop, rfl⟩

theorem mem_loaded : t ∈ loaded id ls ↔ .up id ∈ loads t ls ∧ .down id ∉ loads t ls := by
  rw [loaded, Finset.mem_filter, List.mem_toFinset]
  exact ⟨And.right, fun h => ⟨mem_fst_of_loads h.1, h⟩⟩

end Loads

/-! ## Where a session is with its count -/

/-- The session has counted itself in and not out. -/
def ServeCliViaNode.Pc.counted : ServeCliViaNode.Pc → Bool
  | .publish _ | .lockCli | .registered | .select | .lockClose | .closeTunnel | .decrement => true
  | _ => false

/-- The node at which a session has counted itself in and not out. -/
def ServerTask.counts? : ServerTask → Option String
  | .cli _ (.viaNode _ info pc) => if pc.counted then some info.nodeId else none
  | _ => none

/-- What a session has counted when it is where it is. -/
def ServerTask.LoadsOk (xs : List Load) : ServerTask → Prop
  | .cli _ (.viaNode _ info pc) => xs = if pc.counted then [.up info.nodeId] else []
  | .cli _ (.remove _) | .cli _ (.endedAt _ _) | .cli _ (.archive _ _ _) | .cli _ (.closed _)
  | .cli _ (.release _) | .cli _ (.done _) => xs = [] ∨ ∃ id, xs = [.up id, .down id]
  | _ => xs = []

section Steps

variable {tokens : List String} {s : SessionCtx} {ctx : TunnelCtx} {node : NodeInfo} {t : Tid}
  {op : Op} {k k' : ServerTask} {xs : List Load} {id : String}

theorem ServerTask.LoadsOk.mem_iff (h : k.LoadsOk xs) :
    .up id ∈ xs ∧ .down id ∉ xs ↔ k.counts? = some id := by
  have hnil : xs = [] → k.counts? = none → (.up id ∈ xs ∧ .down id ∉ xs ↔ k.counts? = some id) := by
    intro hx hk
    rw [hx, hk]
    exact ⟨fun h => absurd h.1 List.not_mem_nil, nofun⟩
  have hout : (xs = [] ∨ ∃ id, xs = [.up id, .down id]) → k.counts? = none →
      (.up id ∈ xs ∧ .down id ∉ xs ↔ k.counts? = some id) := by
    rintro (hx | ⟨id', rfl⟩) hk
    · exact hnil hx hk
    · rw [hk]
      simp
  cases k with
  | cli register pc =>
      cases pc with
      | viaNode ctx info pc =>
          have hx : xs = if pc.counted then [.up info.nodeId] else [] := h
          rw [hx, counts?]
          cases pc.counted <;> simp [eq_comm]
      | remove | endedAt | archive | closed | release | done => exact hout h rfl
      | _ => exact hnil h rfl
  | _ => exact hnil h rfl

theorem ServeCliDirect.Step.no_load {pc : Pc} {f : Flow Pc} (h : Step s ctx pc op f) :
    op.load? = none := by
  cases h with
  | serve h | served h => cases h <;> rfl
  | _ => rfl

theorem ServerTask.Step.loads (h : Step tokens t k op k') (hk : k.LoadsOk xs) :
    k'.LoadsOk (xs ++ op.load?.toList) := by
  cases h with
  | @connect peer first =>
      cases hk
      have hd := handleClient_dispatched peer first
      generalize handleClient peer first = k' at hd ⊢
      cases hd <;> rfl
  | cli h =>
      cases h with
      | direct h =>
          rw [h.no_load, Option.toList_none, List.append_nil]
          exact hk
      | directRet h =>
          rw [h.no_load, Option.toList_none, List.append_nil]
          exact Or.inl (show xs = [] from hk)
      | viaNode h =>
          cases h with
          | fallback h | fellBack h =>
              rw [h.no_load, Option.toList_none, List.append_nil]
              exact hk
          | _ => cases hk; rfl
      | viaNodeRet h =>
          cases h with
          | unlockFallback => cases hk; exact Or.inl rfl
          | decrement => cases hk; exact Or.inr ⟨_, rfl⟩
      | removed | notRecorded | endedAt | archive | closed | release =>
          rw [show Op.load? _ = none from rfl, Option.toList_none, List.append_nil]
          exact hk
      | rejected => cases hk; exact Or.inl rfl
      | _ => cases hk; rfl
  | node h =>
      cases h with
      | forward h | forwarded h => cases h <;> cases hk <;> rfl
      | _ => cases hk; rfl
  | visitor h => cases h <;> cases hk <;> rfl
  | dataConn h => cases h <;> cases hk <;> rfl
  | close h => cases h <;> cases hk <;> rfl
  | _ => cases hk; rfl

/-- What a step does to a session's count. -/
inductive CountStep : Option String → Op → Option String → Prop where
  | up {id : String} : CountStep none (.incrementTunnels id) (some id)
  | down {id : String} : CountStep (some id) (.decrementTunnels id) none
  | quiet {x op} : op.load? = none → CountStep x op x

theorem ServerTask.Step.count (h : Step tokens t k op k') : CountStep k.counts? op k'.counts? := by
  cases h with
  | @connect peer first =>
      have hd := handleClient_dispatched peer first
      generalize handleClient peer first = k' at hd ⊢
      cases hd <;> exact .quiet rfl
  | cli h =>
      cases h with
      | direct h | directRet h => exact .quiet h.no_load
      | viaNode h =>
          cases h with
          | fallback h | fellBack h => exact .quiet h.no_load
          | increment => exact .up
          | _ => exact .quiet rfl
      | viaNodeRet h =>
          cases h with
          | unlockFallback => exact .quiet rfl
          | decrement => exact .down
      | _ => exact .quiet rfl
  | node h =>
      cases h with
      | forward h | forwarded h => cases h <;> exact .quiet rfl
      | _ => exact .quiet rfl
  | visitor h => cases h <;> exact .quiet rfl
  | dataConn h => cases h <;> exact .quiet rfl
  | close h => cases h <;> exact .quiet rfl
  | _ => exact .quiet rfl

end Steps

/-! ## Registered ids -/

/-- The node that an operation registers. -/
def Op.registers? : Op → Option String
  | .registerNode info => some info.nodeId
  | _ => none

/-- The ids that nodes have been registered under. -/
def registered (ls : List (Tid × Op)) : List String :=
  ls.filterMap fun a => a.2.registers?

@[simp] theorem registered_snoc (ls : List (Tid × Op)) (t : Tid) (op : Op) :
    registered (ls ++ [(t, op)]) = registered ls ++ op.registers?.toList := by
  rw [registered, List.filterMap_append, registered]
  cases h : op.registers? <;> simp [h]

/-- The id that a node session has registered under. -/
def HandleNode.Pc.enrolled? : HandleNode.Pc → Option String
  | .validate | .reject _ | .nodeId | .register _ => none
  | .lockAck id | .ack id | .ackFailed id | .unlockFailed id | .connected id | .read id
  | .forward id _ _ | .remove id | .left id => some id
  | .done id => id

/-- The node that a task has registered. -/
def ServerTask.enrolled? : ServerTask → Option String
  | .node _ _ pc => pc.enrolled?
  | _ => none

section Registered

variable {tokens : List String} {t : Tid} {op : Op} {k k' : ServerTask} {id : String}

theorem ServerTask.ident_of_enrolled (h : k.enrolled? = some id) : k.ident? = some id := by
  cases k with
  | node host reg pc => cases pc <;> first | exact h | cases h
  | _ => cases h

/-- A session registers once, under its own id. -/
theorem ServerTask.Step.enrolled (h : Step tokens t k op k') :
    k'.enrolled? = k.enrolled? ∧ op.registers? = none ∨
      k.enrolled? = none ∧ ∃ info, op = .registerNode info ∧ info.tunnelCount = 0 ∧
        k.ident? = some info.nodeId ∧ k'.enrolled? = some info.nodeId := by
  cases h with
  | @connect peer first =>
      have hd := handleClient_dispatched peer first
      generalize handleClient peer first = k' at hd ⊢
      cases hd <;> exact Or.inl ⟨rfl, rfl⟩
  | node h =>
      cases h with
      | register => exact Or.inr ⟨rfl, _, rfl, rfl, rfl, rfl⟩
      | forward h | forwarded h => cases h <;> exact Or.inl ⟨rfl, rfl⟩
      | _ => exact Or.inl ⟨rfl, rfl⟩
  | cli h =>
      refine Or.inl ⟨rfl, ?_⟩
      cases op with
      | registerNode info => exact absurd rfl h.not_registers
      | _ => rfl
  | visitor h => cases h <;> exact Or.inl ⟨rfl, rfl⟩
  | dataConn h => cases h <;> exact Or.inl ⟨rfl, rfl⟩
  | close h => cases h <;> exact Or.inl ⟨rfl, rfl⟩
  | _ => exact Or.inl ⟨rfl, rfl⟩

/-- A session counts itself in at the node that it is served through. -/
theorem ServerTask.Step.counts_routed (h : Step tokens t k op k') (hop : op.load? = some (.up id)) :
    ∃ info, k.routed? = some info ∧ info.nodeId = id := by
  cases h with
  | cli h =>
      cases h with
      | direct h | directRet h => rw [h.no_load] at hop; cases hop
      | viaNode h =>
          cases h with
          | fallback h | fellBack h => rw [h.no_load] at hop; cases hop
          | increment => cases hop; exact ⟨_, rfl, rfl⟩
          | _ => cases hop
      | viaNodeRet h => cases h <;> cases hop
      | _ => cases hop
  | node h =>
      cases h with
      | forward h | forwarded h => cases h <;> cases hop
      | _ => cases hop
  | visitor h => cases h <;> cases hop
  | dataConn h => cases h <;> cases hop
  | close h => cases h <;> cases hop
  | _ => cases hop

end Registered

/-! ## The invariant -/

/-- What sessions have counted, and where the ids they count under come from. -/
structure CountedInv (ls : List (Tid × Op)) (c : Server) : Prop where
  sessions : ∀ t, (c.task t).LoadsOk (loads t ls)
  key : ∀ id info, c.shared.nodeManager.nodes.lookup id = some info → info.nodeId = id
  registry : ∀ id info, c.shared.nodeManager.nodes.lookup id = some info → id ∈ registered ls
  routed : ∀ t info, (c.task t).routed? = some info → info.nodeId ∈ registered ls
  ups : ∀ t id, .up id ∈ loads t ls → id ∈ registered ls
  owner : ∀ id ∈ registered ls, ∃ n, (c.task n).enrolled? = some id

/-- The counter of a registered node. -/
def LoadInv (ls : List (Tid × Op)) (c : Server) : Prop :=
  ∀ id info, c.shared.nodeManager.nodes.lookup id = some info →
    info.tunnelCount = (loaded id ls).card

section Runs

variable {cfg : ServerConfig} {ls : List (Tid × Op)} {c c' : Server} {t u : Tid} {op : Op}
  {id : String}

/-- A session keeps the id that it has registered under. -/
theorem server_step_enrolled (h : (server cfg).step c (t, op) = some c')
    (hu : (c.task u).enrolled? = some id) : (c'.task u).enrolled? = some id := by
  by_cases hut : u = t
  · subst hut
    obtain ⟨he, _⟩ | ⟨hnone, _⟩ := (server_step_self h).enrolled
    · rw [he, hu]
    · rw [hnone] at hu
      cases hu
  · rw [server_step_attr (f := ServerTask.enrolled?) (fun _ _ => rfl) h hut, hu]

theorem CountedInv.step (hi : CountedInv ls c) (h : (server cfg).step c (t, op) = some c') :
    CountedInv (ls ++ [(t, op)]) c' := by
  have hx := server_step_exec h
  have hself := server_step_self h
  have hreg : ∀ id ∈ registered ls, id ∈ registered (ls ++ [(t, op)]) := by
    intro id hid
    rw [registered_snoc]
    exact List.mem_append_left _ hid
  constructor
  case sessions =>
    intro u
    by_cases hut : u = t
    · subst hut
      rw [loads_snoc_self]
      exact hself.loads (hi.sessions u)
    · rw [loads_snoc_ne (Ne.symm hut)]
      have hk := server_step_attr (f := fun k => k.LoadsOk (loads u ls))
        (fun _ _ => rfl) h hut
      rw [hk]
      exact hi.sessions u
  case key =>
    intro id info hl
    -- The entry is new, or was there with another count.
    obtain rfl | ⟨n, hl⟩ := ServerState.exec_registry hx hl
    · rw [ServerState.exec_registerNode hx] at hl
      split at hl
      · exact Eq.symm ‹_›
      · exact hi.key id info hl
    · have hkey := hi.key id _ hl
      exact hkey
  case registry =>
    intro id info hl
    obtain rfl | ⟨n, hl⟩ := ServerState.exec_registry hx hl
    · rw [ServerState.exec_registerNode hx] at hl
      split at hl
      · rename_i hid
        rw [registered_snoc, hid]
        exact List.mem_append_right _ (Option.mem_toList.mpr rfl)
      · exact hreg id (hi.registry id info hl)
    · exact hreg id (hi.registry id _ hl)
  case routed =>
    intro u info hu
    -- A session gets its node from the registry.
    have hcase : (c.task u).routed? = some info ∨ ∃ name, op = .pick name (some info) := by
      by_cases hut : u = t
      · subst hut
        exact (hself.routed hu).imp_right And.right
      · rw [server_step_attr (f := ServerTask.routed?) (fun _ _ => rfl) h hut] at hu
        exact Or.inl hu
    obtain hu | ⟨name, rfl⟩ := hcase
    · exact hreg _ (hi.routed u info hu)
    · exact hreg _ (hi.registry _ _ (ServerState.exec_pick hx))
  case ups =>
    intro u id hup
    by_cases hut : u = t
    · subst hut
      rw [loads_snoc_self, List.mem_append, Option.mem_toList] at hup
      obtain hup | hop := hup
      · exact hreg id (hi.ups u id hup)
      · obtain ⟨info, hinfo, rfl⟩ := hself.counts_routed hop
        exact hreg _ (hi.routed u info hinfo)
    · rw [loads_snoc_ne (Ne.symm hut)] at hup
      exact hreg id (hi.ups u id hup)
  case owner =>
    intro id hid
    rw [registered_snoc, List.mem_append, Option.mem_toList] at hid
    obtain hid | hid := hid
    · obtain ⟨n, hn⟩ := hi.owner id hid
      exact ⟨n, server_step_enrolled h hn⟩
    -- A node is registered by its own session.
    · obtain ⟨_, hop⟩ | ⟨_, info, rfl, _, _, hnow⟩ := hself.enrolled
      · rw [hop] at hid
        cases hid
      · cases hid
        exact ⟨t, hnow⟩

theorem countedInv (h : (server cfg).Run ls c) : CountedInv ls c := by
  refine Conc.Lts.Run.induct (P := fun ls c => CountedInv ls c) ?_
    (fun _ _ _ _ _ hi hs => hi.step hs) h
  refine ⟨fun _ => rfl, ?_, ?_, nofun, fun _ _ hup => ?_, fun id hid => ?_⟩
  · intro id info hl
    cases hl
  · intro id info hl
    cases hl
  · cases hup
  · cases hid

theorem CountedInv.mem_loaded (hi : CountedInv ls c) :
    t ∈ loaded id ls ↔ (c.task t).counts? = some id := by
  rw [Borehole.mem_loaded]
  exact (hi.sessions t).mem_iff

/-- What a step does to the sessions that are counted at a node. -/
theorem loaded_step (id : String) (hi : CountedInv ls c)
    (h : (server cfg).step c (t, op) = some c') :
    (op = .incrementTunnels id ∧ t ∉ loaded id ls ∧
        loaded id (ls ++ [(t, op)]) = insert t (loaded id ls)) ∨
    (op = .decrementTunnels id ∧ t ∈ loaded id ls ∧
        loaded id (ls ++ [(t, op)]) = (loaded id ls).erase t) ∨
    (op.load? ≠ some (.up id) ∧ op.load? ≠ some (.down id) ∧
        loaded id (ls ++ [(t, op)]) = loaded id ls) := by
  have hi' := hi.step h
  have hcount := (server_step_self h).count
  -- the other sessions are counted where they were
  have hother : ∀ u, u ≠ t → (u ∈ loaded id (ls ++ [(t, op)]) ↔ u ∈ loaded id ls) := by
    intro u hu
    rw [hi'.mem_loaded, hi.mem_loaded,
      server_step_attr (f := ServerTask.counts?) (fun _ _ => rfl) h hu]
  have hself : t ∈ loaded id ls ↔ (c.task t).counts? = some id := hi.mem_loaded
  have hself' : t ∈ loaded id (ls ++ [(t, op)]) ↔ (c'.task t).counts? = some id := hi'.mem_loaded
  have hsame : (t ∈ loaded id (ls ++ [(t, op)]) ↔ t ∈ loaded id ls) →
      loaded id (ls ++ [(t, op)]) = loaded id ls := by
    intro ht
    ext u
    by_cases hut : u = t
    · rw [hut]
      exact ht
    · exact hother u hut
  generalize (c.task t).counts? = x at hcount hself
  generalize (c'.task t).counts? = x' at hcount hself'
  cases hcount with
  | @up id' =>
      by_cases hid : id' = id
      · subst hid
        refine Or.inl ⟨rfl, fun ht => absurd (hself.mp ht) nofun, ?_⟩
        ext u
        rw [Finset.mem_insert]
        by_cases hut : u = t
        · rw [hut]
          exact ⟨fun _ => Or.inl rfl, fun _ => hself'.mpr rfl⟩
        · rw [hother u hut]
          exact ⟨Or.inr, fun hm => hm.resolve_left hut⟩
      · refine Or.inr (Or.inr ⟨?_, nofun, hsame ?_⟩)
        · intro he
          cases he
          exact hid rfl
        · rw [hself, hself']
          exact ⟨fun he => absurd (Option.some.inj he) hid, nofun⟩
  | @down id' =>
      by_cases hid : id' = id
      · subst hid
        refine Or.inr (Or.inl ⟨rfl, hself.mpr rfl, ?_⟩)
        ext u
        rw [Finset.mem_erase]
        by_cases hut : u = t
        · rw [hut]
          exact ⟨fun hm => absurd (hself'.mp hm) nofun, fun hm => absurd rfl hm.1⟩
        · rw [hother u hut]
          exact ⟨fun hm => ⟨hut, hm⟩, And.right⟩
      · refine Or.inr (Or.inr ⟨nofun, ?_, hsame ?_⟩)
        · intro he
          cases he
          exact hid rfl
        · rw [hself, hself']
          exact ⟨nofun, fun he => absurd (Option.some.inj he) hid⟩
  | quiet hop =>
      rw [hop]
      exact Or.inr (Or.inr ⟨nofun, nofun, hsame (hself'.trans hself.symm)⟩)

theorem ServerState.exec_increment {s s' : ServerState} {info : NodeInfo}
    (h : s.exec t (.incrementTunnels id) = some s')
    (hl : s'.nodeManager.nodes.lookup id = some info) :
    ∃ old, s.nodeManager.nodes.lookup id = some old ∧ info.tunnelCount = old.tunnelCount + 1 := by
  cases h
  rw [NodeManager.incrementTunnels, NodeManager.lookup_modify, if_pos rfl] at hl
  obtain ⟨old, ho, rfl⟩ := Option.map_eq_some_iff.mp hl
  exact ⟨old, ho, rfl⟩

theorem ServerState.exec_decrement {s s' : ServerState} {info : NodeInfo}
    (h : s.exec t (.decrementTunnels id) = some s')
    (hl : s'.nodeManager.nodes.lookup id = some info) :
    ∃ old, s.nodeManager.nodes.lookup id = some old ∧ info.tunnelCount = old.tunnelCount - 1 := by
  cases h
  rw [NodeManager.decrementTunnels, NodeManager.lookup_modify, if_pos rfl] at hl
  obtain ⟨old, ho, rfl⟩ := Option.map_eq_some_iff.mp hl
  exact ⟨old, ho, rfl⟩

/-- Nothing else changes a counter, but a registration starts one. -/
theorem ServerState.exec_uncounted {s s' : ServerState} {info : NodeInfo}
    (h : s.exec t op = some s')
    (hup : op.load? ≠ some (.up id)) (hdown : op.load? ≠ some (.down id))
    (hl : s'.nodeManager.nodes.lookup id = some info) :
    s.nodeManager.nodes.lookup id = some info ∨ op = .registerNode info ∧ id = info.nodeId := by
  cases op with
  | registerNode i =>
      rw [exec_registerNode h] at hl
      split at hl
      · cases hl
        exact Or.inr ⟨rfl, ‹_›⟩
      · exact Or.inl hl
  | removeNode i =>
      cases h
      rw [NodeManager.lookup_remove] at hl
      split at hl
      · cases hl
      · exact Or.inl hl
  | incrementTunnels i =>
      have hne : id ≠ i := fun he => hup (by rw [he]; rfl)
      cases h
      rw [NodeManager.incrementTunnels, NodeManager.lookup_modify, if_neg hne] at hl
      exact Or.inl hl
  | decrementTunnels i =>
      have hne : id ≠ i := fun he => hdown (by rw [he]; rfl)
      cases h
      rw [NodeManager.decrementTunnels, NodeManager.lookup_modify, if_neg hne] at hl
      exact Or.inl hl
  | _ =>
      rw [exec_nodeManager h rfl] at hl
      exact Or.inl hl

/-- Nobody is counted at a node that is just being registered. -/
theorem loaded_new (hr : (server cfg).Run ls c) (hnd : (uuids ls).Nodup) {info : NodeInfo}
    (h : (server cfg).step c (t, .registerNode info) = some c') :
    info.tunnelCount = 0 ∧ loaded info.nodeId ls = ∅ := by
  have hc := countedInv hr
  obtain ⟨_, hop⟩ | ⟨hnone, _, hop, hzero, hident, _⟩ := (server_step_self h).enrolled
  · cases hop
  · cases hop
    refine ⟨hzero, Finset.eq_empty_iff_forall_notMem.mpr fun u hu => ?_⟩
    obtain ⟨n, hn⟩ := hc.owner _ (hc.ups u _ (Borehole.mem_loaded.mp hu).1)
    have hnt : n = t := ident_unique hr hnd (ServerTask.ident_of_enrolled hn) hident
    rw [hnt, hnone] at hn
    cases hn

theorem LoadInv.step (hr : (server cfg).Run ls c) (hi : LoadInv ls c) (hnd : (uuids ls).Nodup)
    (h : (server cfg).step c (t, op) = some c') : LoadInv (ls ++ [(t, op)]) c' := by
  have hx := server_step_exec h
  intro id info hl
  obtain ⟨rfl, hnew, hloaded⟩ | ⟨rfl, hold, hloaded⟩ | ⟨hup, hdown, hloaded⟩ :=
    loaded_step id (countedInv hr) h
  · obtain ⟨old, ho, hcount⟩ := ServerState.exec_increment hx hl
    rw [hloaded, Finset.card_insert_of_notMem hnew, hcount, hi id old ho]
  · obtain ⟨old, ho, hcount⟩ := ServerState.exec_decrement hx hl
    rw [hloaded, Finset.card_erase_of_mem hold, hcount, hi id old ho]
  · rw [hloaded]
    obtain ho | ⟨rfl, rfl⟩ := ServerState.exec_uncounted hx hup hdown hl
    · exact hi id info ho
    · obtain ⟨hzero, hempty⟩ := loaded_new hr hnd h
      rw [hzero, hempty, Finset.card_empty]

theorem loadInv (h : (server cfg).Run ls c) (hnd : (uuids ls).Nodup) : LoadInv ls c := by
  refine Conc.Lts.Run.induct (P := fun ls c => (uuids ls).Nodup → LoadInv ls c) ?_ ?_ h hnd
  · intro _ id info hl
    cases hl
  · intro ls c a c' hr hi hs hnd
    have hnd := (nodup_of_snoc hnd).1
    exact (hi hnd).step hr hnd hs

end Runs

/-! ## The direct path -/

/-- There was no node for session `t`, or its `OpenTunnel` could not be sent. -/
def TookDirect (t : Tid) (ls : List (Tid × Op)) : Prop :=
  (∃ name, (t, .pick name none) ∈ ls) ∨ ∃ w m, (t, .sendUnlock w (.openTunnel m) false) ∈ ls

/-- The session could not reach its node. -/
def ServeCliViaNode.Pc.fellBack : ServeCliViaNode.Pc → Bool
  | .lockFallback | .fallback _ | .unlockFallback => true
  | _ => false

/-- The session will not count itself in. -/
def ServerTask.uncounting : ServerTask → Bool
  | .cli _ (.direct _ _) => true
  | .cli _ (.viaNode _ _ pc) => pc.fellBack
  | .cli _ (.remove _) | .cli _ (.endedAt _ _) | .cli _ (.archive _ _ _) | .cli _ (.closed _)
  | .cli _ (.release _) | .cli _ (.done _) => true
  | _ => false

section Direct

variable {cfg : ServerConfig} {ls : List (Tid × Op)} {c c' : Server} {tokens : List String}
  {t : Tid} {op : Op} {k k' : ServerTask} {xs : List Load}

theorem ServerTask.Step.uncounting (h : Step tokens t k op k') (hk : k.uncounting = true) :
    k'.uncounting = true ∧ op.load? = none := by
  cases h with
  | cli h =>
      cases h with
      | direct h | directRet h => exact ⟨rfl, h.no_load⟩
      | viaNode h =>
          cases h with
          | fallback h | fellBack h => exact ⟨rfl, h.no_load⟩
          | lockFallback => exact ⟨rfl, rfl⟩
          | _ => cases hk
      | viaNodeRet h =>
          cases h with
          | unlockFallback => exact ⟨rfl, rfl⟩
          | decrement => cases hk
      | removed | notRecorded | endedAt | archive | closed | release => exact ⟨rfl, rfl⟩
      | _ => cases hk
  | _ => cases hk

/-- The operation settles that its session takes the direct path. -/
def Op.Direct (op : Op) : Prop :=
  (∃ name, op = .pick name none) ∨ ∃ w m, op = .sendUnlock w (.openTunnel m) false

theorem ServeCliDirect.Step.not_direct {s : SessionCtx} {ctx : TunnelCtx} {pc : Pc} {f : Flow Pc}
    (h : Step s ctx pc op f) : ¬op.Direct := by
  cases h with
  | serve h | served h => cases h <;> simp [Op.Direct]
  | _ => simp [Op.Direct]

/-- A session that takes the direct path has not counted anything. -/
theorem ServerTask.Step.direct (h : Step tokens t k op k') (hk : k.LoadsOk xs)
    (hop : op.Direct) : k'.uncounting = true ∧ xs = [] := by
  cases h with
  | cli h =>
      cases h with
      | noNode => exact ⟨rfl, hk⟩
      | viaNode h =>
          cases h with
          | unreachable => exact ⟨rfl, hk⟩
          | fallback h | fellBack h => exact absurd hop h.not_direct
          | _ => simp [Op.Direct, ServeCliViaNode.registeredMsg, ServeCliViaNode.closeMsg] at hop
      | viaNodeRet h => cases h <;> simp [Op.Direct] at hop
      | direct h | directRet h => exact absurd hop h.not_direct
      | _ => simp [Op.Direct] at hop
  | node h =>
      cases h with
      | forward h | forwarded h => cases h <;> simp [Op.Direct, ForwardVisitor.notice] at hop
      | _ => simp [Op.Direct] at hop
  | visitor h => cases h <;> simp [Op.Direct] at hop
  | dataConn h => cases h <;> simp [Op.Direct] at hop
  | close h => cases h <;> simp [Op.Direct] at hop
  | _ => simp [Op.Direct] at hop

theorem TookDirect.snoc (h : TookDirect t (ls ++ [(t, op)])) : TookDirect t ls ∨
    op.Direct := by
  obtain ⟨name, hm⟩ | ⟨w, m, hm⟩ := h
  · obtain hm | hm := List.mem_append.mp hm
    · exact Or.inl (Or.inl ⟨name, hm⟩)
    · cases List.mem_singleton.mp hm
      exact Or.inr (Or.inl ⟨name, rfl⟩)
  · obtain hm | hm := List.mem_append.mp hm
    · exact Or.inl (Or.inr ⟨w, m, hm⟩)
    · cases List.mem_singleton.mp hm
      exact Or.inr (Or.inr ⟨w, m, rfl⟩)

theorem TookDirect.of_snoc_ne {u : Tid} (h : TookDirect u (ls ++ [(t, op)])) (hu : u ≠ t) :
    TookDirect u ls := by
  have hold : ∀ {op' : Op}, (u, op') ∈ ls ++ [(t, op)] → (u, op') ∈ ls := by
    intro op' hm
    obtain hm | hm := List.mem_append.mp hm
    · exact hm
    · cases List.mem_singleton.mp hm
      exact absurd rfl hu
  obtain ⟨name, hm⟩ | ⟨w, m, hm⟩ := h
  · exact Or.inl ⟨name, hold hm⟩
  · exact Or.inr ⟨w, m, hold hm⟩

theorem direct_uncounted (h : (server cfg).Run ls c) (ht : TookDirect t ls) :
    (c.task t).uncounting = true ∧ loads t ls = [] := by
  refine Conc.Lts.Run.induct (P := fun ls c => ∀ t, TookDirect t ls →
    (c.task t).uncounting = true ∧ loads t ls = []) ?_ ?_ h t ht
  · rintro t (⟨_, hm⟩ | ⟨_, _, hm⟩) <;> cases hm
  · rintro ls c ⟨t, op⟩ c' hr hi hs u hu
    by_cases hut : u = t
    · subst hut
      rw [loads_snoc_self]
      obtain hold | hop := hu.snoc
      · obtain ⟨hk, hnil⟩ := hi u hold
        obtain ⟨hk', hop⟩ := (server_step_self hs).uncounting hk
        exact ⟨hk', by rw [hnil, hop]; rfl⟩
      · obtain ⟨hk, hnil⟩ := (server_step_self hs).direct ((countedInv hr).sessions u) hop
        refine ⟨hk, ?_⟩
        rw [hnil]
        obtain ⟨_, rfl⟩ | ⟨_, _, rfl⟩ := hop <;> rfl
    · rw [loads_snoc_ne (Ne.symm hut),
        server_step_attr (f := ServerTask.uncounting) (fun _ _ => rfl) hs hut]
      exact hi u (hu.of_snoc_ne hut)

end Direct

/-! ## Tunnels routed through a node -/

/-- The node that an operation picks. -/
def Op.picks? : Op → Option String
  | .pick _ (some info) => some info.nodeId
  | _ => none

/-- The nodes that session `t` has picked. -/
def picks (t : Tid) (ls : List (Tid × Op)) : List String :=
  (opsOf t ls).filterMap Op.picks?

/-- The entries of `active_tunnels` that are routed through node `id`: those with
    a route whose session picked that node. -/
def tunnelsVia (id : String) (ls : List (Tid × Op)) (c : Server) : Finset String :=
  c.shared.activeTunnels.keys.filter fun tunnelId =>
    ∃ e ∈ c.shared.activeTunnels.lookup tunnelId, e.route.isSome = true ∧ picks e.close ls = [id]

/-- The session is between recording its tunnel and counting itself in, or
    between counting itself out and the removal of its tunnel. -/
def ServerTask.inTransit (xs : List Load) : ServerTask → Bool
  | .cli _ (.viaNode _ _ (.increment _)) => true
  | .cli _ (.remove _) => !xs.isEmpty
  | _ => false

/-- What a session has picked when it is where it is. -/
def ServerTask.PicksOk (xs : List String) : ServerTask → Prop
  | .cli _ (.viaNode _ info _) => xs = [info.nodeId]
  | .cli _ (.remove _) | .cli _ (.endedAt _ _) | .cli _ (.archive _ _ _) | .cli _ (.closed _)
  | .cli _ (.release _) | .cli _ (.done _) => True
  | _ => xs = []

/-- Whether the entry of a session has a route. -/
def ServerTask.RouteOk (xs : List Load) (routed : Bool) : ServerTask → Prop
  | .cli _ (.direct _ _) => routed = false
  | .cli _ (.viaNode _ _ pc) => routed = !pc.fellBack
  | .cli _ (.remove _) => routed = !xs.isEmpty
  | _ => True

section Routed

variable {cfg : ServerConfig} {ls : List (Tid × Op)} {c c' : Server} {tokens : List String}
  {s : SessionCtx} {ctx : TunnelCtx} {t u : Tid} {op : Op} {k k' : ServerTask} {xs : List String}
  {id node : String}

@[simp] theorem picks_snoc_self :
    picks t (ls ++ [(t, op)]) = picks t ls ++ op.picks?.toList := by
  rw [picks, opsOf_append, opsOf_singleton_self, List.filterMap_append, picks]
  cases h : op.picks? <;> simp [h]

theorem picks_snoc_ne (h : t ≠ u) : picks u (ls ++ [(t, op)]) = picks u ls := by
  rw [picks, opsOf_append, opsOf_singleton_ne op h, List.append_nil, picks]

theorem ServeCliDirect.Step.no_pick {pc : Pc} {f : Flow Pc} (h : Step s ctx pc op f) :
    op.picks? = none := by
  cases h with
  | serve h | served h => cases h <;> rfl
  | _ => rfl

theorem ServerTask.Step.picks (h : Step tokens t k op k') (hk : k.PicksOk xs) :
    k'.PicksOk (xs ++ op.picks?.toList) := by
  cases h with
  | @connect peer first =>
      cases hk
      have hd := handleClient_dispatched peer first
      generalize handleClient peer first = k' at hd ⊢
      cases hd <;> rfl
  | cli h =>
      cases h with
      | direct h =>
          rw [h.no_pick, Option.toList_none, List.append_nil]
          exact hk
      | viaNode h =>
          cases h with
          | fallback h | fellBack h =>
              rw [h.no_pick, Option.toList_none, List.append_nil]
              exact hk
          | _ => cases hk; rfl
      | directRet | viaNodeRet | removed | notRecorded | endedAt | archive | closed | release
      | rejected => trivial
      | _ => cases hk; rfl
  | node h =>
      cases h with
      | forward h | forwarded h => cases h <;> cases hk <;> rfl
      | _ => cases hk; rfl
  | visitor h => cases h <;> cases hk <;> rfl
  | dataConn h => cases h <;> cases hk <;> rfl
  | close h => cases h <;> cases hk <;> rfl
  | _ => cases hk; rfl

theorem picksOk (h : (server cfg).Run ls c) : ∀ t, (c.task t).PicksOk (picks t ls) := by
  refine Conc.Lts.Run.induct (P := fun ls c => ∀ t, (c.task t).PicksOk (picks t ls))
    (fun _ => rfl) ?_ h
  rintro ls c ⟨t, op⟩ c' hr hi hs u
  by_cases hut : u = t
  · subst hut
    rw [picks_snoc_self]
    exact (server_step_self hs).picks (hi u)
  · rw [picks_snoc_ne (Ne.symm hut)]
    have hk := server_step_attr (f := fun k => k.PicksOk (picks u ls)) (fun _ _ => rfl) hs hut
    rw [hk]
    exact hi u

/-- An entry that is inserted has a route if its session is served through its node. -/
theorem ServerTask.Step.inserts_route {xs : List Load} {e : TunnelEntry}
    (h : Step tokens t k (.insertTunnel id e) k') : k'.RouteOk xs e.route.isSome := by
  cases h with
  | cli h =>
      cases h with
      | direct h => rw [h.inserts rfl]; rfl
      | directRet h =>
          cases h with
          | served h => cases h
      | viaNode h =>
          cases h with
          | record => rfl
          | fallback h | fellBack h => rw [h.inserts rfl]; rfl
      | viaNodeRet h => cases h
  | node h =>
      cases h with
      | forward h | forwarded h => cases h
  | visitor h => cases h
  | dataConn h => cases h
  | close h => cases h

/-- While its tunnel is recorded, a session does not turn away from its node. -/
theorem ServerTask.Step.route_ok {xs : List Load} {routed : Bool} {events : List Life}
    (h : Step tokens t k op k') (hloads : k.LoadsOk xs) (hlife : k.stage.Holds true events)
    (hk : k.RouteOk xs routed) : k'.RouteOk (xs ++ op.load?.toList) routed := by
  cases h with
  | cli h =>
      cases h with
      | direct => exact hk
      | directRet h =>
          have hxs : xs = [] := hloads
          rw [hxs, h.no_load]
          exact hk
      | viaNode h =>
          cases h with
          | unreachable => exact absurd hlife.1 nofun
          | _ => exact hk
      | viaNodeRet h =>
          cases h with
          | unlockFallback =>
              have hxs : xs = [] := hloads
              rw [hxs]
              exact hk
          | decrement =>
              have hxs : xs = [.up _] := hloads
              rw [hxs]
              exact hk
      | removed | notRecorded | endedAt | archive | closed | release | rejected => trivial
      | picked | noNode => exact absurd hlife.1 nofun
      | _ => trivial
  | connect => exact absurd hlife.1 nofun
  | _ => trivial

/-- Whether each entry has a route. -/
def RoutedInv (ls : List (Tid × Op)) (c : Server) : Prop :=
  ∀ id e, c.shared.activeTunnels.lookup id = some e →
    (c.task e.close).RouteOk (loads e.close ls) e.route.isSome

theorem RoutedInv.step (hr : (server cfg).Run ls c) (hi : RoutedInv ls c) (hnd : (uuids ls).Nodup)
    (h : (server cfg).step c (t, op) = some c') : RoutedInv (ls ++ [(t, op)]) c' := by
  have hself := server_step_self h
  intro id e hl
  obtain rfl | hold := ServerState.exec_entry (server_step_exec h) hl
  · obtain ⟨_, _, _, _, hclose, _⟩ := hself.tunnel
    rw [hclose]
    exact hself.inserts_route
  · by_cases hut : e.close = t
    · subst hut
      have hident := ServerTask.ident_of_ctx (ServerTask.ctx_of_tunnel (tunnelInv hr id e hold))
      have hlife := lifeInv hr hnd e.close id hident
      rw [hold] at hlife
      rw [loads_snoc_self]
      exact hself.route_ok ((countedInv hr).sessions e.close) hlife (hi id e hold)
    · rw [loads_snoc_ne (Ne.symm hut)]
      have hk := server_step_attr (f := fun k => k.RouteOk (loads e.close ls) e.route.isSome)
        (fun _ _ => rfl) h hut
      rw [hk]
      exact hi id e hold

theorem routedInv (h : (server cfg).Run ls c) (hnd : (uuids ls).Nodup) : RoutedInv ls c := by
  refine Conc.Lts.Run.induct (P := fun ls c => (uuids ls).Nodup → RoutedInv ls c) ?_ ?_ h hnd
  · intro _ id e hl
    cases hl
  · intro ls c a c' hr hi hs hnd
    have hnd := (nodup_of_snoc hnd).1
    exact (hi hnd).step hr hnd hs

theorem mem_tunnelsVia :
    id ∈ tunnelsVia node ls c ↔ ∃ e, c.shared.activeTunnels.lookup id = some e ∧
    e.route.isSome = true ∧ picks e.close ls = [node] := by
  rw [tunnelsVia, Finset.mem_filter, Finmap.mem_keys]
  constructor
  · rintro ⟨_, e, he, hroute⟩
    exact ⟨e, he, hroute⟩
  · rintro ⟨e, he, hroute⟩
    exact ⟨Finmap.mem_of_lookup_eq_some he, e, he, hroute⟩

theorem ServerTask.of_counts (h : k.counts? = some node) : ∃ register ctx info pc,
    k = .cli register (.viaNode ctx info pc) ∧ pc.counted = true ∧ info.nodeId = node := by
  cases k with
  | cli register pc =>
      cases pc with
      | viaNode ctx info pc =>
          obtain ⟨hpc, hid⟩ := Option.ite_none_right_eq_some.mp h
          exact ⟨register, ctx, info, pc, rfl, hpc, Option.some.inj hid⟩
      | _ => cases h
  | _ => cases h

/-- A session that is counted at a node has an entry routed through it. -/
theorem via_of_counts (h : (server cfg).Run ls c) (hnd : (uuids ls).Nodup)
    (ht : (c.task t).counts? = some node) :
    ∃ id, (c.task t).ident? = some id ∧ id ∈ tunnelsVia node ls c := by
  obtain ⟨register, ctx, info, pc, hk, hpc, rfl⟩ := ServerTask.of_counts ht
  have hident : (c.task t).ident? = some ctx.tunnelId := by
    rw [hk]
    rfl
  have hentry : (c.shared.activeTunnels.lookup ctx.tunnelId).isSome = true := by
    have hlife := lifeInv h hnd t ctx.tunnelId hident
    rw [hk] at hlife
    cases pc <;> first | exact hlife.1 | cases hpc
  obtain ⟨e, he⟩ := Option.isSome_iff_exists.mp hentry
  have hclose : e.close = t := ident_unique h hnd
    (ServerTask.ident_of_ctx (ServerTask.ctx_of_tunnel (tunnelInv h _ e he))) hident
  have hroute := routedInv h hnd _ e he
  have hpicks := picksOk h t
  rw [hclose, hk] at hroute
  rw [hk] at hpicks
  refine ⟨ctx.tunnelId, hident, mem_tunnelsVia.mpr ⟨e, he, ?_, by rw [hclose]; exact hpicks⟩⟩
  have hrouted : e.route.isSome = !pc.fellBack := hroute
  rw [hrouted]
  cases pc <;> first | rfl | cases hpc

/-- An entry that is routed through a node is that of a session which is counted
    there, unless the session is in transit. -/
theorem counts_of_via (h : (server cfg).Run ls c) (hnd : (uuids ls).Nodup)
    (hid : id ∈ tunnelsVia node ls c) (htransit : ∀ t, (c.task t).inTransit (loads t ls) = false) :
    ∃ t, (c.task t).counts? = some node ∧ (c.task t).ident? = some id := by
  obtain ⟨e, he, hroute, hpicks⟩ := mem_tunnelsVia.mp hid
  have htunnel := tunnelInv h id e he
  have hident := ServerTask.ident_of_ctx (ServerTask.ctx_of_tunnel htunnel)
  have hlife := lifeInv h hnd e.close id hident
  have hok := routedInv h hnd id e he
  have hmoving := htransit e.close
  have hpicksOk := picksOk h e.close
  rw [he] at hlife
  rw [hroute] at hok
  rw [hpicks] at hpicksOk
  refine ⟨e.close, ?_, hident⟩
  -- The entry of a tunnel that is not in transit is there exactly while it is counted.
  generalize c.task e.close = k at htunnel hlife hok hmoving hpicksOk ⊢
  cases k with
  | cli register pc =>
      cases pc with
      | direct => cases hok
      | viaNode ctx info pc =>
          have hnode : [node] = [info.nodeId] := hpicksOk
          rw [List.cons.inj hnode |>.1]
          cases pc with
          | lockNode | openTunnel | startedAt | record => exact absurd hlife.1 nofun
          | lockFallback | fallback | unlockFallback => cases hok
          | increment => cases hmoving
          | publish | lockCli | registered | select | lockClose | closeTunnel | decrement => rfl
      | remove =>
          have hsome : true = !(loads e.close ls).isEmpty := hok
          rw [show ServerTask.inTransit _ _ = !(loads e.close ls).isEmpty from rfl, ← hsome]
            at hmoving
          cases hmoving
      | _ => cases htunnel
  | _ => cases htunnel

/-- The counter of each registered node is the number of the sessions that have
    counted themselves in there and not out, and no decrement finds it at zero; a
    session on the direct path counts nowhere; and while no session is in transit
    the counter is the number of the tunnels that are routed through the node. -/
theorem load_exact (h : (server cfg).Run ls c) (hnd : (uuids ls).Nodup) :
    (∀ id info, c.shared.nodeManager.nodes.lookup id = some info →
      info.tunnelCount = (loaded id ls).card) ∧
    (∀ t c' id info, (server cfg).step c (t, .decrementTunnels id) = some c' →
      c.shared.nodeManager.nodes.lookup id = some info → 0 < info.tunnelCount) ∧
    (∀ t, TookDirect t ls → loads t ls = []) ∧
    ((∀ t, (c.task t).inTransit (loads t ls) = false) →
      ∀ id info, c.shared.nodeManager.nodes.lookup id = some info →
        info.tunnelCount = (tunnelsVia id ls c).card) := by
  have hload := loadInv h hnd
  have hcounted := countedInv h
  refine ⟨hload, ?_, fun t ht => (direct_uncounted h ht).2, ?_⟩
  · intro t c' id info hs hl
    obtain ⟨he, _⟩ | ⟨_, hm, _⟩ | ⟨_, hdown, _⟩ := loaded_step id hcounted hs
    · cases he
    · rw [hload id info hl]
      exact Finset.card_pos.mpr ⟨t, hm⟩
    · exact absurd rfl hdown
  · intro htransit id info hl
    rw [hload id info hl]
    -- A session that counts and the entry of its tunnel have one id.
    refine Finset.card_bij (fun t _ => (c.task t).ident?.getD "") ?_ ?_ ?_
    · intro t ht
      obtain ⟨tunnelId, hident, hvia⟩ := via_of_counts h hnd (hcounted.mem_loaded.mp ht)
      rw [hident]
      exact hvia
    · intro t ht u hu he
      obtain ⟨id₁, hident, _⟩ := via_of_counts h hnd (hcounted.mem_loaded.mp ht)
      obtain ⟨id₂, hident', _⟩ := via_of_counts h hnd (hcounted.mem_loaded.mp hu)
      rw [hident, hident'] at he
      have hid : id₁ = id₂ := he
      exact ident_unique h hnd hident (hid ▸ hident')
    · intro tunnelId hvia
      obtain ⟨t, hcounts, hident⟩ := counts_of_via h hnd hvia htransit
      exact ⟨t, hcounted.mem_loaded.mpr hcounts, by rw [hident]; rfl⟩

/-- A node with one tunnel, whose session is at its `select!`. -/
theorem load_exact_routed :
    ∃ c info, (server onePort).Run
        (nodeVisible ++ nodeAnswered ++ cliOrdered ++ cliExposed ++ cliAnswered) c ∧
      c.shared.nodeManager.nodes.lookup "n" = some info ∧ info.tunnelCount = 1 := by
  obtain ⟨c, h, hl⟩ : ∃ c, (server onePort).Run
      (nodeVisible ++ nodeAnswered ++ cliOrdered ++ cliExposed ++ cliAnswered) c ∧
        c.shared.nodeManager.nodes.lookup "n" = some { fra with tunnelCount := 1 } :=
    Conc.Lts.exists_run (by decide)
  have hcount := (load_exact h (by decide)).1 "n" _ hl
  exact ⟨c, _, h, hl, by rw [hcount]; decide⟩

end Routed

end Borehole
