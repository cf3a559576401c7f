/-
  Borehole.Node.Tunnels

  The tunnels that a node serves.

  The main task enters a tunnel in its map once its listener is bound and its
  accept loop runs, and takes it out when it aborts the loop.  The loop keeps the
  port until it is dropped, which may be later: a port that is ordered again in
  the meantime cannot be bound, and the tunnel that it was ordered for is not
  served.
-/

import Borehole.Conc.Lifetimes
import Borehole.Conc.Ownership
import Borehole.Node.Pending

namespace Borehole.Node

open Conc

/-! ## Orders -/

/-- The order that an operation reads in session `s`. -/
def Op.order? (s : Nat) : Op → Option (Mark String UInt16)
  | .readOrder s' (some (some (.openTunnel order))) =>
      if s' = s then some (.opened order.tunnelId order.remotePort) else none
  | .readOrder s' (some (some (.closeTunnel order))) =>
      if s' = s then some (.closed order.tunnelId) else none
  | _ => none

/-- The orders that the node has read in session `s`. -/
def ordersRead (s : Nat) (ls : List (Tid × Op)) : List (Mark String UInt16) :=
  ls.filterMap fun a => a.2.order? s

@[simp] theorem ordersRead_snoc (s : Nat) (ls : List (Tid × Op)) (t : Tid) (op : Op) :
    ordersRead s (ls ++ [(t, op)]) = ordersRead s ls ++ (op.order? s).toList := by
  rw [ordersRead, List.filterMap_append, ordersRead]
  cases h : op.order? s <;> simp [h]

theorem Op.order?_other {s s' : Nat} {line : Line}
    (hopen : ∀ order, line ≠ some (.openTunnel order))
    (hclose : ∀ order, line ≠ some (.closeTunnel order)) :
    (Op.readOrder s' (some line)).order? s = none := by
  cases line with
  | none => rfl
  | some m =>
      cases m with
      | openTunnel order => exact absurd rfl (hopen order)
      | closeTunnel order => exact absurd rfl (hclose order)
      | _ => rfl

/-! ## Listeners -/

/-- The public port that a task has a listener on. -/
def NodeTask.listens? : NodeTask → Option UInt16
  | .loop _ _ (.cancelled _) => none
  | .loop ctx _ _ => some ctx.port
  | .session (.spawn _ _ order) => some order.remotePort
  | _ => none

/-- The port whose listener an operation closes. -/
def Op.closes? : Op → Option UInt16
  | .cancelAccept port | .cancelLock port _ | .cancelWrite port _ _ => some port
  | _ => none

/-- What a step does to the listener of the task that takes it. -/
inductive Listening : Option UInt16 → Op → Option UInt16 → Prop where
  | bind {port} : Listening none (.bind port true) (some port)
  | spawnLoop {l ctx} : Listening (some ctx.port) (.spawnLoop l ctx) none
  | cancel {port op} : op.closes? = some port → Listening (some port) op none
  | quiet {x op} : op.onBound = false → (∀ l ctx, op ≠ .spawnLoop l ctx) → Listening x op x

/-- The loop of an open tunnel: one that is not aborted. -/
def NodeTask.open? : NodeTask → Option LoopCtx
  | .loop ctx false _ => some ctx
  | _ => none

section Steps

variable {op : Op} {k k' : NodeTask}

theorem TunnelAcceptLoop.Step.listening {ctx : LoopCtx} {aborted : Bool} {pc pc' : Pc}
    (h : Step ctx aborted pc op pc') : Listening (NodeTask.loop ctx aborted pc).listens? op
      (NodeTask.loop ctx aborted pc').listens? := by
  cases h with
  | cancelAccept | cancelLock | cancelWrite | cancelFlush => exact .cancel rfl
  | _ => exact .quiet rfl nofun

theorem RunSession.Step.listening {pc pc' : Pc} (h : Step pc op pc') :
    Listening (NodeTask.session pc).listens? op (NodeTask.session pc').listens? := by
  cases h with
  | bound => exact .bind
  | @spawnLoop s _ order l =>
      exact @Listening.spawnLoop l ⟨s, order.tunnelId, order.remotePort⟩
  | order =>
      rename_i line
      have hn : ∀ s tunnels, (NodeTask.session (serveOrder s tunnels line)).listens? = none := by
        intro s tunnels
        fun_cases serveOrder s tunnels line <;> rfl
      rw [hn]
      exact .quiet rfl nofun
  | _ => exact .quiet rfl nofun

theorem NodeTask.Step.listening (h : Step k op k') : Listening k.listens? op k'.listens? := by
  cases h with
  | loop h => exact h.listening
  | session h => exact h.listening
  | visitor h => cases h <;> exact .quiet rfl nofun
  | dataConn h => cases h <;> exact .quiet rfl nofun
  | dataConnect => exact .quiet rfl nofun

theorem NodeTask.Step.open (h : Step k op k') : k'.open? = k.open? := by
  cases h with
  | @loop _ aborted _ _ _ _ => cases aborted <;> rfl
  | _ => rfl

end Steps

/-- The ports that are bound are those of the listeners. -/
def BoundInv (c : NodeConf) : Prop :=
  Owned c.shared.bound fun t => (c.task t).listens?

section Bound

variable {c c' : NodeConf} {ls : List (Tid × Op)} {t u l : Tid} {op : Op}

/-- Another task gets a listener when it is spawned with it. -/
theorem node_step_listens (h : node.step c (t, op) = some c') (hu : u ≠ t)
    (hop : ∀ ctx, op ≠ .spawnLoop u ctx) : (c'.task u).listens? = (c.task u).listens? := by
  obtain he | ⟨hc, ha⟩ := node_step_other h hu
  · rw [he]
  · generalize c.task u = k at ha
    generalize c'.task u = k' at ha
    cases ha with
    | @spawnLoop _ ctx =>
        cases hc
        exact absurd rfl (hop ctx)
    | @abort _ _ _ _ pc => cases pc <;> rfl
    | _ => rfl

theorem NodeState.exec_closes {n n' : NodeState} {p : UInt16} (h : n.exec t op = some n')
    (hop : op.closes? = some p) : n'.bound = Function.update n.bound p false := by
  cases op with
  | cancelAccept | cancelLock =>
      cases hop
      cases h
      rfl
  | cancelWrite =>
      cases hop
      obtain ⟨_, hs⟩ := Option.ite_none_right_eq_some.mp h
      cases hs
      rfl
  | _ => cases hop

theorem BoundInv.step (hi : BoundInv c) (h : node.step c (t, op) = some c') : BoundInv c' := by
  have hx := node_step_exec h
  have hl := (node_step_self h).listening
  -- only the task that steps has another listener, unless it hands it on
  have hothers : (∀ l ctx, op ≠ .spawnLoop l ctx) → (fun u => (c'.task u).listens?) =
      Function.update (fun u => (c.task u).listens?) t (c'.task t).listens? := by
    intro hop
    funext u
    by_cases hut : u = t
    · rw [hut, Function.update_self]
    · rw [Function.update_of_ne hut]
      exact node_step_listens h hut (hop u)
  generalize hb : (c.task t).listens? = x at hl
  generalize hb' : (c'.task t).listens? = x' at hl hothers
  unfold BoundInv at hi ⊢
  cases hl with
  | bind =>
      obtain ⟨hfree, hbound⟩ := NodeState.exec_bind hx
      rw [hothers nofun, hbound]
      exact hi.acquire hfree hb
  | @spawnLoop l ctx =>
      obtain ⟨hne, ha⟩ := node_step_child h rfl
      have hl : (c.task l).listens? = none ∧ (c'.task l).listens? = some ctx.port := by
        generalize c.task l = k at ha
        generalize c'.task l = k' at ha ⊢
        cases ha
        exact ⟨rfl, rfl⟩
      have hmove : (fun u => (c'.task u).listens?) = Function.update
          (Function.update (fun u => (c.task u).listens?) t none) l (some ctx.port) := by
        funext u
        by_cases hul : u = l
        · rw [hul, Function.update_self, hl.2]
        by_cases hut : u = t
        · rw [hut, Function.update_of_ne (Ne.symm hne), Function.update_self, hb']
        · rw [Function.update_of_ne hul, Function.update_of_ne hut]
          refine node_step_listens h hut fun ctx' he => ?_
          cases he
          exact hul rfl
      rw [hmove, (NodeState.exec_frame hx).bound rfl]
      exact hi.move hb hl.1
  | @cancel port _ hop =>
      have hspawn : ∀ l ctx, op ≠ .spawnLoop l ctx := by
        rintro l ctx rfl
        cases hop
      rw [hothers hspawn, NodeState.exec_closes hx hop]
      exact hi.release hb
  | quiet hop hspawn =>
      have hsame := hothers hspawn
      rw [← hb] at hsame
      rw [hsame, Function.update_eq_self, (NodeState.exec_frame hx).bound hop]
      exact hi

end Bound

/-! ## The map of tunnels -/

/-- `tunnels` has the tunnels that `done` leaves open, each with its loop. -/
structure Serving (s : Nat) (tunnels : Tunnels) (done : List (Mark String UInt16))
    (loops : Tid → Option LoopCtx) : Prop where
  entry : ∀ id l, tunnels.lookup id = some l →
    ∃ port, loops l = some ⟨s, id, port⟩ ∧ (id, port) ∈ Lifetimes.live done
  served : ∀ id port, (id, port) ∈ Lifetimes.live done →
    ∃ l, tunnels.lookup id = some l ∧ loops l = some ⟨s, id, port⟩

/-- Every loop that is not aborted is in the map, but for `l`. -/
def Listed (tunnels : Tunnels) (loops : Tid → Option LoopCtx) (closing : Option Tid) : Prop :=
  ∀ l ctx, loops l = some ctx → some l ≠ closing → tunnels.lookup ctx.tunnelId = some l

/-- Where the main task is with the orders `ls` of its sessions. -/
def RunSession.Pc.Stage (read : Nat → List (Mark String UInt16)) (loops : Tid → Option LoopCtx) :
    RunSession.Pc → Prop
  | .connect _ | .register _ | .verdict _ | .sleep _ => ∀ l, loops l = none
  | .orders s tunnels => Serving s tunnels (read s) loops ∧ Listed tunnels loops none
  | .bind s tunnels order | .spawn s tunnels order =>
      ∃ done, read s = done ++ [.opened order.tunnelId order.remotePort] ∧
        Serving s tunnels done loops ∧ Listed tunnels loops none
  | .close s tunnels id l =>
      Serving s tunnels (read s) loops ∧ Listed tunnels loops (some l) ∧
        tunnels.lookup id = none ∧ ∃ port, loops l = some ⟨s, id, port⟩
  | .teardown _ tunnels => Listed tunnels loops none

/-- The sessions from this one on have not read an order yet. -/
def RunSession.Pc.fresh : RunSession.Pc → Nat
  | .connect s | .register s | .verdict s => s
  | .orders s _ | .bind s _ _ | .spawn s _ _ | .close s _ _ _ | .teardown s _ | .sleep s => s + 1

section Orders

variable {s : Nat} {tunnels : Tunnels} {done : List (Mark String UInt16)}
  {loops : Tid → Option LoopCtx} {id : String} {port : UInt16} {l : Tid}

theorem Serving.closed (h : Serving s tunnels done loops) :
    Serving s (tunnels.erase id) (done ++ [.closed id]) loops := by
  refine ⟨fun id' l hl => ?_, fun id' port hlive => ?_⟩
  · have hne : id' ≠ id := by
      rintro rfl
      rw [Finmap.lookup_erase] at hl
      cases hl
    rw [Finmap.lookup_erase_ne hne] at hl
    obtain ⟨port, hloop, hlive⟩ := h.entry id' l hl
    refine ⟨port, hloop, ?_⟩
    rw [Lifetimes.live_closed, List.mem_filter]
    exact ⟨hlive, decide_eq_true hne⟩
  · rw [Lifetimes.live_closed, List.mem_filter] at hlive
    rw [Finmap.lookup_erase_ne (of_decide_eq_true hlive.2)]
    exact h.served id' port hlive.1

/-- Closing a tunnel that is not there leaves the map as it is. -/
theorem Serving.closed_absent (h : Serving s tunnels done loops) (hid : tunnels.lookup id = none) :
    Serving s tunnels (done ++ [.closed id]) loops := by
  have he : tunnels.erase id = tunnels := by
    refine Finmap.ext_lookup fun id' => ?_
    by_cases hne : id' = id
    · rw [hne, Finmap.lookup_erase, hid]
    · rw [Finmap.lookup_erase_ne hne]
  have hc : Serving s (tunnels.erase id) (done ++ [.closed id]) loops := h.closed
  rwa [he] at hc

theorem Serving.opened (h : Serving s tunnels done loops) (hl : loops l = none)
    (hid : ∀ port', (id, port') ∉ Lifetimes.live done) :
    Serving s (tunnels.insert id l) (done ++ [.opened id port])
      (Function.update loops l (some ⟨s, id, port⟩)) := by
  have hold : ∀ {l' ctx}, loops l' = some ctx →
      Function.update loops l (some ⟨s, id, port⟩) l' = some ctx := by
    intro l' ctx hl'
    rw [Function.update_of_ne, hl']
    rintro rfl
    rw [hl] at hl'
    cases hl'
  refine ⟨fun id' l' hl' => ?_, fun id' port' hlive => ?_⟩
  · by_cases hne : id' = id
    · subst hne
      rw [Finmap.lookup_insert] at hl'
      cases hl'
      exact ⟨port, Function.update_self _ _ _, by simp⟩
    · rw [Finmap.lookup_insert_of_ne _ hne] at hl'
      obtain ⟨port', hloop, hlive⟩ := h.entry id' l' hl'
      exact ⟨port', hold hloop, by simp [hlive]⟩
  · rw [Lifetimes.live_opened, List.mem_append, List.mem_singleton] at hlive
    obtain hlive | he := hlive
    · have hne : id' ≠ id := by
        rintro rfl
        exact hid port' hlive
      obtain ⟨l', hl', hloop⟩ := h.served id' port' hlive
      exact ⟨l', by rw [Finmap.lookup_insert_of_ne _ hne, hl'], hold hloop⟩
    · cases he
      exact ⟨l, Finmap.lookup_insert _, Function.update_self _ _ _⟩

theorem NodeTask.loop_of_open {k : NodeTask} {ctx : LoopCtx} (h : k.open? = some ctx) :
    ∃ pc, k = .loop ctx false pc := by
  cases k with
  | loop ctx aborted pc =>
      cases aborted with
      | false =>
          cases h
          exact ⟨pc, rfl⟩
      | true => cases h
  | _ => cases h

/-- What an operation does to the loops that are not aborted. -/
inductive Opening (loops : Tid → Option LoopCtx) : Op → (Tid → Option LoopCtx) → Prop where
  | spawnLoop {l : Tid} {ctx} : loops l = none →
      Opening loops (.spawnLoop l ctx) (Function.update loops l (some ctx))
  | abort {id : String} {l : Tid} : Opening loops (.abort id l) (Function.update loops l none)
  | quiet {op} : (∀ l ctx, op ≠ .spawnLoop l ctx) → (∀ id l, op ≠ .abort id l) →
      Opening loops op loops

variable {read read' : Nat → List (Mark String UInt16)} {loops' : Tid → Option LoopCtx}

theorem serveOrder_stage {line : Option Line} (hs : Serving s tunnels (read s) loops)
    (hl : Listed tunnels loops none)
    (hread : read' s = read s ++ ((Op.readOrder s line).order? s).toList) :
    (serveOrder s tunnels line).Stage read' loops := by
  revert hread
  fun_cases serveOrder s tunnels line
  -- The connection is over: what is in the map is torn down.
  · exact fun _ => hl
  -- `OpenTunnel`
  · intro hread
    rw [Op.order?, if_pos rfl] at hread
    exact ⟨read s, hread, hs, hl⟩
  -- `CloseTunnel` of a tunnel that is in the map
  · rename_i order l hlookup
    intro hread
    rw [Op.order?, if_pos rfl] at hread
    obtain ⟨port, hloop, _⟩ := hs.entry _ l hlookup
    refine ⟨?_, fun l' ctx hl' hne => ?_, Finmap.lookup_erase _ _, port, hloop⟩
    · rw [hread]
      exact hs.closed
    · have hmine := hl l' ctx hl' nofun
      rw [Finmap.lookup_erase_ne, hmine]
      intro hid
      rw [hid, hlookup] at hmine
      exact hne hmine.symm
  -- `CloseTunnel` of a tunnel that is not
  · rename_i order hlookup
    intro hread
    rw [Op.order?, if_pos rfl] at hread
    refine ⟨?_, hl⟩
    rw [hread]
    exact hs.closed_absent hlookup
  -- any other line
  · intro hread
    rename_i hopen hclose
    rw [Op.order?_other hopen hclose, Option.toList_none, List.append_nil] at hread
    refine ⟨?_, hl⟩
    rw [hread]
    exact hs

/-- An aborted loop was in the map under its own tunnel only. -/
theorem Serving.aborted {ctx : LoopCtx} (h : Serving s tunnels done loops) (hl : loops l = some ctx)
    (hid : tunnels.lookup ctx.tunnelId = none) :
    Serving s tunnels done (Function.update loops l none) := by
  have hother : ∀ {id' l'}, tunnels.lookup id' = some l' → l' ≠ l := by
    rintro id' l' hl' rfl
    obtain ⟨port, hloop, _⟩ := h.entry id' l' hl'
    rw [hl] at hloop
    rw [Option.some.inj hloop, hl'] at hid
    cases hid
  -- So the map says nothing about `l`.
  refine ⟨fun id' l' hl' => ?_, fun id' port hlive => ?_⟩
  · rw [Function.update_of_ne (hother hl')]
    exact h.entry id' l' hl'
  · obtain ⟨l', hl', hloop⟩ := h.served id' port hlive
    exact ⟨l', hl', by rw [Function.update_of_ne (hother hl'), hloop]⟩

theorem RunSession.Step.stage {pc pc' : RunSession.Pc} {op : Op} (h : Step pc op pc')
    (hi : pc.Stage read loops) (ho : Opening loops op loops')
    (hread : ∀ s, read' s = read s ++ (op.order? s).toList)
    (hfresh : ∀ s, pc.fresh ≤ s → read s = []) (hids : ∀ s, Lifetimes.Single (read' s))
    (hbind : ∀ port, op ≠ .bind port false) : pc'.Stage read' loops' := by
  cases h with
  | connected | unreachable | sent | sendFailed | rejected | sleep =>
      cases ho
      exact hi
  | @registered s m =>
      -- A new session, with an empty map and nothing read off its stream.
      cases ho
      have hnew : read' s = [] := by
        rw [hread, hfresh s (Nat.le_refl s)]
        rfl
      refine ⟨⟨fun id l hl => ?_, fun id port hlive => ?_⟩, fun l ctx hl => ?_⟩
      · rw [Finmap.lookup_empty] at hl
        cases hl
      · rw [hnew] at hlive
        cases hlive
      · rw [hi l] at hl
        cases hl
  | @order s tunnels line =>
      cases ho
      exact serveOrder_stage hi.1 hi.2 (hread s)
  | @bound s tunnels order =>
      -- The port is bound before the loop is there: the order is done with one step later.
      cases ho
      obtain ⟨done, hdone, hs⟩ := hi
      exact ⟨done, by rw [hread, hdone]; exact List.append_nil _, hs⟩
  | bindFailed => exact absurd rfl (hbind _)
  | @spawnLoop s tunnels order l =>
      cases ho with
      | quiet hs _ => exact absurd rfl (hs _ _)
      | spawnLoop hnone =>
          obtain ⟨done, hdone, hs, hl⟩ := hi
          have hnow : read' s = done ++ [.opened order.tunnelId order.remotePort] := by
            rw [hread, hdone]
            exact List.append_nil _
          have hsingle := hids s
          rw [hnow] at hsingle
          refine ⟨?_, fun l' ctx hl' _ => ?_⟩
          · rw [hnow]
            exact hs.opened hnone hsingle.unused
          · rw [Function.update_apply] at hl'
            split at hl'
            · rw [← Option.some.inj hl', ‹l' = l›]
              exact Finmap.lookup_insert _
            -- The loop that was there serves another tunnel, since an id is opened once.
            · have hmine := hl l' ctx hl' nofun
              rw [Finmap.lookup_insert_of_ne, hmine]
              intro hid
              obtain ⟨port, _, hlive⟩ := hs.entry _ l' hmine
              rw [hid] at hlive
              exact hsingle.unused port hlive
  | @close s tunnels id l =>
      cases ho with
      | quiet _ ha => exact absurd rfl (ha _ _)
      | abort =>
          -- The loop has left the map with the order, and is aborted now.
          obtain ⟨hs, hl, hid, port, hloop⟩ := hi
          have hnow : read' s = read s := by
            rw [hread]
            exact List.append_nil _
          refine ⟨?_, fun l' ctx hl' _ => ?_⟩
          · rw [hnow]
            exact hs.aborted hloop hid
          · rw [Function.update_apply] at hl'
            split at hl'
            · cases hl'
            · rename_i hne
              exact hl l' ctx hl' fun he => hne (Option.some.inj he)
  | @teardown s tunnels id l hlookup =>
      cases ho with
      | quiet _ ha => exact absurd rfl (ha _ _)
      | abort =>
          -- The map is empty, so that no loop is left that is not aborted.
          intro l' ctx hl' _
          rw [Function.update_apply] at hl'
          split at hl'
          · cases hl'
          · rename_i hne
            -- The other loops are still in what is left of the map.
            have hmine := hi l' ctx hl' nofun
            rw [Finmap.lookup_erase_ne, hmine]
            intro hid
            rw [hid, hlookup] at hmine
            exact hne (Option.some.inj hmine).symm
  | «over» =>
      cases ho
      intro l
      refine Option.eq_none_iff_forall_ne_some.mpr fun ctx hl => ?_
      have hmine := hi l ctx hl nofun
      rw [Finmap.lookup_empty] at hmine
      cases hmine

end Orders

/-! ## Every run -/

/-- The main task is where it should be with the orders, and there is no other. -/
structure MainInv (ls : List (Tid × Op)) (c : NodeConf) : Prop where
  only : ∀ t pc, c.task t = .session pc → t = 0
  stage : ∃ pc, c.task 0 = .session pc ∧
    pc.Stage (fun s => ordersRead s ls) (fun l => (c.task l).open?) ∧
    ∀ s, pc.fresh ≤ s → ordersRead s ls = []

/-- Only an aborted loop is dropped. -/
def CancelInv (c : NodeConf) : Prop :=
  ∀ l ctx o, c.task l ≠ .loop ctx false (.cancelled o)

/-- The port of a loop that is aborted and has not been dropped yet. -/
def NodeTask.lingers? : NodeTask → Option UInt16
  | .loop _ true (.cancelled _) => none
  | .loop ctx true _ => some ctx.port
  | _ => none

/-- The port that an operation fails to bind. -/
def Op.failsToBind? : Op → Option UInt16
  | .bind port false => some port
  | _ => none

/-- A port can be bound unless a listener of the node has it. -/
def BindsFree (c : NodeConf) (a : Tid × Op) : Prop :=
  ∀ port, a.2.failsToBind? = some port → c.shared.bound port = true

instance (c : NodeConf) (a : Tid × Op) : Decidable (BindsFree c a) :=
  match h : a.2.failsToBind? with
  | none => isTrue (by simp [BindsFree, h])
  | some port => decidable_of_iff (c.shared.bound port = true) (by simp [BindsFree, h])

/-- No port is bound that an aborted loop still has a listener on. -/
def Settled (c : NodeConf) (a : Tid × Op) : Prop :=
  ∀ port ok, a.2 = .bind port ok → ∀ l, (c.task l).lingers? ≠ some port

section Runs

variable {c c' : NodeConf} {ls : List (Tid × Op)} {t l : Tid} {op : Op} {s : Nat} {id : String}
  {port : UInt16}

theorem node_step_opening (h : node.step c (t, op) = some c') :
    Opening (fun l => (c.task l).open?) op (fun l => (c'.task l).open?) := by
  have hself := (node_step_self h).open
  -- Loops are opened and aborted by nobody but the main task.
  have hquiet : (∀ l ctx, op ≠ .spawnLoop l ctx) → (∀ id l, op ≠ .abort id l) →
      (fun l => (c'.task l).open?) = fun l => (c.task l).open? := by
    intro hs ha
    funext l
    by_cases hlt : l = t
    · rw [hlt, hself]
    · obtain he | ⟨_, hadopt⟩ := node_step_other h hlt
      · rw [he]
      · generalize c.task l = k at hadopt
        generalize c'.task l = k' at hadopt
        cases hadopt with
        | spawnLoop => exact absurd rfl (hs _ _)
        | abort => exact absurd rfl (ha _ _)
        | _ => rfl
  cases op with
  | spawnLoop l ctx =>
      rw [Tasks.step_map_child NodeTask.open? h rfl hself]
      obtain ⟨_, ha⟩ := node_step_child h rfl
      generalize hk : c.task l = k at ha
      generalize c'.task l = k' at ha ⊢
      cases ha
      refine .spawnLoop ?_
      rw [hk]
      rfl
  | abort id l =>
      rw [Tasks.step_map_child NodeTask.open? h rfl hself]
      obtain ⟨_, ha⟩ := node_step_child h rfl
      generalize c.task l = k at ha
      generalize c'.task l = k' at ha ⊢
      cases ha
      exact .abort
  | _ =>
      rw [hquiet nofun nofun]
      exact .quiet nofun nofun

/-- Sessions do not turn up in other tasks. -/
theorem node_step_session (h : node.step c (t, op) = some c') {u : Tid} (hu : u ≠ t)
    (pc : RunSession.Pc) : c'.task u = .session pc ↔ c.task u = .session pc := by
  obtain he | ⟨_, ha⟩ := node_step_other h hu
  · rw [he]
  · generalize c.task u = k at ha
    generalize c'.task u = k' at ha
    cases ha <;> exact ⟨nofun, nofun⟩

theorem CancelInv.step (hi : CancelInv c) (h : node.step c (t, op) = some c') : CancelInv c' := by
  intro l ctx o hl
  by_cases hlt : l = t
  · subst hlt
    have hself := node_step_self h
    have hold := hi l
    rw [hl] at hself
    generalize c.task l = k at hself hold
    cases hself with
    | loop hs => cases hs <;> contradiction
  · obtain he | ⟨_, ha⟩ := node_step_other h hlt
    · exact hi l ctx o (he.symm.trans hl)
    · rw [hl] at ha
      generalize c.task l = k at ha
      cases ha

/-- Orders are read by the main task. -/
theorem order?_main (h : node.step c (t, op) = some c') (hi : MainInv ls c) (ht : t ≠ 0) (s : Nat) :
    op.order? s = none := by
  have hself := node_step_self h
  have honly := hi.only t
  generalize c.task t = k at hself honly
  generalize c'.task t = k' at hself
  cases hself with
  | session hs => exact absurd (honly _ rfl) ht
  | loop hs => cases hs <;> rfl
  | visitor hs => cases hs <;> rfl
  | dataConn hs => cases hs <;> rfl
  | dataConnect => rfl

theorem not_opening_main (h : node.step c (t, op) = some c') (hi : MainInv ls c) (ht : t ≠ 0) :
    (∀ l ctx, op ≠ .spawnLoop l ctx) ∧ ∀ id l, op ≠ .abort id l := by
  have hself := node_step_self h
  have honly := hi.only t
  generalize c.task t = k at hself honly
  generalize c'.task t = k' at hself
  cases hself with
  | session hs => exact absurd (honly _ rfl) ht
  | loop hs => cases hs <;> exact ⟨nofun, nofun⟩
  | visitor hs => cases hs <;> exact ⟨nofun, nofun⟩
  | dataConn hs => cases hs <;> exact ⟨nofun, nofun⟩
  | dataConnect => exact ⟨nofun, nofun⟩

/-- A session reads its own orders only. -/
theorem RunSession.Step.fresh {pc pc' : RunSession.Pc} (h : Step pc op pc') :
    pc.fresh ≤ pc'.fresh ∧ ∀ s, pc'.fresh ≤ s → op.order? s = none := by
  cases h with
  | @order s tunnels line =>
      have hf : (serveOrder s tunnels line).fresh = s + 1 := by
        fun_cases serveOrder s tunnels line <;> rfl
      rw [hf]
      refine ⟨Nat.le_refl _, fun s' hs' => ?_⟩
      have hne : s ≠ s' := by omega
      rcases line with _ | _ | m
      · rfl
      · rfl
      · cases m <;> first | rfl | exact if_neg hne
  | connected | unreachable | sent | sendFailed | registered | rejected | bound | bindFailed
  | spawnLoop | close | teardown | «over» | sleep =>
      exact ⟨by simp [Pc.fresh], fun _ _ => rfl⟩

/-- The port that the main task is to bind is free if nothing lingers there. -/
theorem bind_succeeds (hi : MainInv ls c) (hb : BoundInv c)
    (hports : ∀ s, Lifetimes.Exclusive (ordersRead s ls))
    (hfree : BindsFree c (t, .bind port false))
    (hok : Settled c (t, .bind port false)) :
    node.step c (t, .bind port false) ≠ some c' := by
  intro h
  obtain ⟨u, hu⟩ := hb.owner port (hfree port rfl)
  have hlinger := hok port false rfl u
  have hself := node_step_self h
  obtain ⟨pc, hpc, hstage, _⟩ := hi.stage
  by_cases ht : t = 0
  · subst ht
    rw [hpc] at hself
    generalize c'.task 0 = k' at hself
    cases hself with
    | session hs =>
        cases hs with
        | @bindFailed s tunnels order =>
            -- The port is bound, so that somebody has its listener: it is no loop that lingers.
            obtain ⟨done, hdone, hserving, hlisted⟩ := hstage
            have honly := hi.only u
            have hlist : ∀ ctx, (c.task u).open? = some ctx →
                tunnels.lookup ctx.tunnelId = some u := fun ctx he => hlisted u ctx he nofun
            cases hk : c.task u with
            | session pc' =>
                have hu0 := honly pc' hk
                rw [hk] at hu
                rw [hu0, hpc] at hk
                cases hk
                cases hu
            | loop ctx aborted lpc =>
                rw [hk] at hu hlinger hlist
                cases aborted with
                | true => cases lpc <;> exact hlinger hu
                | false =>
                    -- It serves a live tunnel on the port, which the orders would not open twice.
                    have hport : ctx.port = order.remotePort := by
                      cases lpc <;> first | exact Option.some.inj hu | cases hu
                    obtain ⟨port, hloop, hlive⟩ := hserving.entry _ u (hlist ctx rfl)
                    have hloop : (c.task u).open? = some ⟨s, ctx.tunnelId, port⟩ := hloop
                    rw [hk] at hloop
                    have hp : port = order.remotePort := by
                      rw [← hport, Option.some.inj hloop]
                    have hread : ordersRead s ls =
                        done ++ [.opened order.tunnelId order.remotePort] := hdone
                    have hexcl := hports s
                    rw [hread] at hexcl
                    rw [hp] at hlive
                    exact hexcl.unused _ hlive
            | _ => rw [hk] at hu; cases hu
  -- Nobody else binds a port.
  · have honly := hi.only t
    generalize c.task t = k at hself honly
    generalize c'.task t = k' at hself
    cases hself with
    | session hs => exact ht (honly _ rfl)
    | loop hs => cases hs
    | visitor hs => cases hs
    | dataConn hs => cases hs

theorem MainInv.step (hi : MainInv ls c) (hb : BoundInv c)
    (hports : ∀ s, Lifetimes.Exclusive (ordersRead s ls))
    (hids : ∀ s, Lifetimes.Single (ordersRead s (ls ++ [(t, op)])))
    (hfree : BindsFree c (t, op)) (hok : Settled c (t, op)) (h : node.step c (t, op) = some c') :
    MainInv (ls ++ [(t, op)]) c' := by
  have hself := node_step_self h
  have hopening := node_step_opening h
  obtain ⟨pc, hpc, hstage, hfresh⟩ := hi.stage
  by_cases ht : t = 0
  · subst ht
    rw [hpc] at hself
    generalize hk' : c'.task 0 = k' at hself
    cases hself with
    | @session _ _ pc' hs =>
        refine ⟨fun u pc'' hu => ?_, pc', hk', ?_, fun s hle => ?_⟩
        -- No session is started.
        · by_cases hu0 : u = 0
          · exact hu0
          · exact hi.only u pc'' ((node_step_session h hu0 pc'').mp hu)
        · refine hs.stage hstage hopening (fun s => ordersRead_snoc s ls 0 op) hfresh hids ?_
          rintro port rfl
          exact bind_succeeds hi hb hports hfree hok h
        · obtain ⟨hmono, hnone⟩ := hs.fresh
          rw [ordersRead_snoc, hnone s hle, hfresh s (Nat.le_trans hmono hle)]
          rfl
  -- Another task reads no order and opens no loop.
  · have hread : ∀ s, ordersRead s (ls ++ [(t, op)]) = ordersRead s ls := by
      intro s
      rw [ordersRead_snoc, order?_main h hi ht s]
      exact List.append_nil _
    obtain ⟨hs, ha⟩ := not_opening_main h hi ht
    have hloops : (fun l => (c'.task l).open?) = fun l => (c.task l).open? := by
      generalize (fun l => (c'.task l).open?) = loops' at hopening
      cases hopening with
      | spawnLoop => exact absurd rfl (hs _ _)
      | abort => exact absurd rfl (ha _ _)
      | quiet => rfl
    refine ⟨fun u pc' hu => ?_, pc, (node_step_session h (Ne.symm ht) pc).mpr hpc, ?_,
      fun s hle => ?_⟩
    · by_cases hut : u = t
      · subst hut
        have honly := hi.only u
        rw [hu] at hself
        generalize c.task u = k at hself honly
        cases hself with
        | session => exact honly _ rfl
      · exact hi.only u pc' ((node_step_session h hut pc').mp hu)
    · rw [hloops]
      simp only [hread]
      exact hstage
    · rw [hread]
      exact hfresh s hle

theorem boundInv (h : node.Run ls c) : BoundInv c := by
  refine Conc.Lts.Run.induct (P := fun _ c => BoundInv c) ?_
    (fun _ _ _ _ _ hi hs => hi.step hs) h
  have hnone : ∀ t, (NodeConf.start.task t).listens? = none := by
    intro t
    simp only [NodeConf.start]
    split <;> rfl
  refine ⟨fun p hp => ?_, fun t r ht => ?_, fun t _ r ht => ?_⟩
  · exact absurd hp Bool.false_ne_true
  all_goals cases (hnone t).symm.trans ht

theorem cancelInv (h : node.Run ls c) : CancelInv c := by
  refine Conc.Lts.Run.induct (P := fun _ c => CancelInv c) (fun l ctx o hl => ?_)
    (fun _ _ _ _ _ hi hs => hi.step hs) h
  simp only [node, Tasks.lts, NodeConf.start] at hl
  split at hl <;> cases hl

/-- The session that the main task serves orders of, its map, and the order to
    open a tunnel that it is acting on. -/
def RunSession.Pc.serving? : RunSession.Pc → Option (Nat × Tunnels × Option OpenTunnel)
  | .orders s tunnels | .close s tunnels _ _ => some (s, tunnels, none)
  | .bind s tunnels order | .spawn s tunnels order => some (s, tunnels, some order)
  | _ => none

/-- If no port is ordered while another tunnel of the node has it, no open tunnel
    is opened again, and no port is bound that an aborted loop still has a
    listener on, then every tunnel that the orders leave open is in the map with
    a loop that listens on its port, from the time its order was acted on. -/
theorem tunnels_served {pc : RunSession.Pc} {tunnels : Tunnels} {opening : Option OpenTunnel}
    (h : node.Run ls c) (hports : ∀ s, Lifetimes.Exclusive (ordersRead s ls))
    (hids : ∀ s, Lifetimes.Single (ordersRead s ls)) (hfree : node.Along BindsFree ls)
    (hok : node.Along Settled ls) (hmain : c.task 0 = .session pc)
    (hpc : pc.serving? = some (s, tunnels, opening))
    (hlive : (id, port) ∈ Lifetimes.live (ordersRead s ls)) (hopening : opening ≠ some ⟨id, port⟩) :
    ∃ l lpc, tunnels.lookup id = some l ∧ c.task l = .loop ⟨s, id, port⟩ false lpc ∧
      (∀ o, lpc ≠ .cancelled o) ∧ c.shared.bound port = true := by
  have hi : MainInv ls c := by
    refine Conc.Lts.Run.induct_along
      (P := fun ls c => (∀ s, Lifetimes.Exclusive (ordersRead s ls)) →
        (∀ s, Lifetimes.Single (ordersRead s ls)) → MainInv ls c)
      ?_ ?_ h (hfree.and hok) hports hids
    · intro _ _
      refine ⟨fun t pc ht => ?_, .connect 0, rfl, fun l => ?_, fun _ _ => rfl⟩
      · simp only [node, Tasks.lts, NodeConf.start] at ht
        split at ht
        · assumption
        · cases ht
      · simp only [node, Tasks.lts, NodeConf.start]
        split <;> rfl
    · rintro ls c ⟨t, op⟩ c' hr hi ⟨hfree, hok⟩ hs hports hids
      have hpre : ∀ s, ordersRead s ls <+: ordersRead s (ls ++ [(t, op)]) := by
        intro s
        rw [ordersRead_snoc]
        exact List.prefix_append _ _
      have hports' := fun s => (hports s).initial (hpre s)
      have hids' := fun s => (hids s).initial (hpre s)
      exact (hi hports' hids').step (boundInv hr) hports' hids hfree hok hs
  obtain ⟨pc', hpc', hstage, _⟩ := hi.stage
  rw [hmain] at hpc'
  cases hpc'
  -- the tunnel is one of those whose order has been acted on
  have hserved : ∃ l, tunnels.lookup id = some l ∧ (c.task l).open? = some ⟨s, id, port⟩ := by
    cases pc with
    | orders | close =>
        cases hpc
        exact hstage.1.served id port hlive
    | bind _ _ order | spawn _ _ order =>
        cases hpc
        obtain ⟨done, hdone, hserving, _⟩ := hstage
        have hread : ordersRead s ls = done ++ [.opened order.tunnelId order.remotePort] := hdone
        rw [hread, Lifetimes.live_opened, List.mem_append, List.mem_singleton] at hlive
        obtain hlive | he := hlive
        · exact hserving.served id port hlive
        · cases he
          exact absurd rfl hopening
    | _ => cases hpc
  obtain ⟨l, hl, hloop⟩ := hserved
  obtain ⟨lpc, hk⟩ := NodeTask.loop_of_open hloop
  have hcancel : ∀ o, lpc ≠ .cancelled o := by
    rintro o rfl
    exact cancelInv h l _ o hk
  refine ⟨l, lpc, hl, hk, hcancel, (boundInv h).used l port ?_⟩
  rw [hk]
  cases lpc with
  | cancelled o => exact absurd rfl (hcancel o)
  | _ => rfl

/-- Nothing lingers before a loop is aborted. -/
theorem not_lingering (h : node.Run ls c) (hn : ∀ t id l, (t, .abort id l) ∉ ls) :
    (c.task l).lingers? = none := by
  revert hn l
  refine Conc.Lts.Run.induct (P := fun ls c => ∀ {l}, (∀ t id l, (t, .abort id l) ∉ ls) →
    (c.task l).lingers? = none) ?_ ?_ h
  · intro l _
    simp only [node, Tasks.lts, NodeConf.start]
    split <;> rfl
  · rintro ls c ⟨t, op⟩ c' hr ih hs l hn
    have hold := ih (l := l) fun t id l hm => hn t id l (List.mem_append_left _ hm)
    by_cases hlt : l = t
    · subst hlt
      have hself := node_step_self hs
      generalize c.task l = k at hself hold
      generalize c'.task l = k' at hself ⊢
      cases hself with
      | @loop ctx aborted pc _ pc' hs =>
          cases aborted with
          | false => cases pc' <;> rfl
          | true => cases hs <;> first | rfl | cases hold
      | _ => rfl
    · obtain he | ⟨_, ha⟩ := node_step_other hs hlt
      · rw [he]
        exact hold
      · generalize c.task l = k at ha
        generalize c'.task l = k' at ha ⊢
        cases ha with
        | abort => exact absurd (List.mem_append_right _ (List.mem_singleton.mpr rfl)) (hn t _ _)
        | _ => rfl

theorem ordersRead_tunnelOpened (s : Nat) : ordersRead s tunnelOpened = [] ∨
    ordersRead s tunnelOpened = [.opened "t" 7000] := by
  by_cases hs : s = 0
  · rw [hs]
    exact Or.inr rfl
  · simp [ordersRead, tunnelOpened, Op.order?, Ne.symm hs]

theorem tunnels_served_opened :
    ∃ c tunnels l lpc, node.Run tunnelOpened c ∧ c.task 0 = .session (.orders 0 tunnels) ∧
      tunnels.lookup "t" = some l ∧ c.task l = .loop ⟨0, "t", 7000⟩ false lpc ∧
      (∀ o, lpc ≠ .cancelled o) ∧ c.shared.bound 7000 = true := by
  obtain ⟨c, tunnels, h, hmain⟩ : ∃ c tunnels, node.Run tunnelOpened c ∧
      c.task 0 = .session (.orders 0 tunnels) := ⟨_, _, rfl, rfl⟩
  have hexcl : ∀ s, Lifetimes.Exclusive (ordersRead s tunnelOpened) := by
    intro s
    obtain he | he := ordersRead_tunnelOpened s <;> rw [he] <;> decide
  have hsingle : ∀ s, Lifetimes.Single (ordersRead s tunnelOpened) := by
    intro s
    obtain he | he := ordersRead_tunnelOpened s <;> rw [he] <;> decide
  have hsettled : node.Along Settled tunnelOpened := by
    refine h.along fun pre a post c₁ he hr port ok _ l => ?_
    rw [not_lingering hr]
    · nofun
    · intro t id l hm
      have hm : (t, .abort id l) ∈ tunnelOpened := he ▸ List.mem_append_left _ hm
      simp [tunnelOpened] at hm
  obtain ⟨l, lpc, hserved⟩ := tunnels_served h hexcl hsingle (by decide) hsettled hmain rfl
    (show ("t", 7000) ∈ Lifetimes.live (ordersRead 0 tunnelOpened) by decide) nofun
  exact ⟨c, tunnels, l, lpc, h, hmain, hserved⟩

/-- Tunnel `t` is closed, and its port is ordered for tunnel `u` before its loop
    has been dropped. -/
def portReordered : List (Tid × Op) :=
  [(0, .readOrder 0 (some (some (.closeTunnel ⟨"t"⟩)))), (0, .abort "t" 1),
   (0, .readOrder 0 (some (some (.openTunnel ⟨"u", 7000⟩)))), (0, .bind 7000 false)]

theorem tunnels_unserved : ∃ c tunnels, node.Run (tunnelOpened ++ portReordered) c ∧
    (∀ s, Lifetimes.Exclusive (ordersRead s (tunnelOpened ++ portReordered))) ∧
    (∀ s, Lifetimes.Single (ordersRead s (tunnelOpened ++ portReordered))) ∧
    node.Along BindsFree (tunnelOpened ++ portReordered) ∧
    c.task 0 = .session (.orders 0 tunnels) ∧
    ("u", 7000) ∈ Lifetimes.live (ordersRead 0 (tunnelOpened ++ portReordered)) ∧
    tunnels.lookup "u" = none := by
  have hread : ∀ s, ordersRead s (tunnelOpened ++ portReordered) = [] ∨
      ordersRead s (tunnelOpened ++ portReordered) =
        [.opened "t" 7000, .closed "t", .opened "u" 7000] := by
    intro s
    by_cases hs : s = 0
    · rw [hs]
      exact Or.inr rfl
    · simp [ordersRead, tunnelOpened, portReordered, Op.order?, Ne.symm hs]
  refine ⟨_, _, rfl, fun s => ?_, fun s => ?_, by decide, rfl, by decide, rfl⟩
  all_goals obtain he | he := hread s <;> rw [he] <;> decide

end Runs

end Borehole.Node
