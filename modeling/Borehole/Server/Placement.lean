/-
  Borehole.Server.Placement

  How registrations without a preference spread over the edge nodes.

  `pick` chooses a node with the lowest counter, and the session that has chosen
  it increments the counter later, after it has written to the node.  Until then
  other sessions see the old counter.
-/

import Borehole.Server.Handshake
import Mathlib.Data.Multiset.Filter
import Mathlib.Tactic.IntervalCases

namespace Borehole

open Conc

/-! ## Choosing the least used -/

/-- Where each choice is among the keys that were chosen least before, no two keys
    are more than one choice apart. -/
theorem chosen_balanced {κ : Type} [DecidableEq κ] {keys : Finset κ} {xs : List κ}
    (h : ∀ pre x post, xs = pre ++ x :: post →
      ∀ k ∈ keys, pre.count x ≤ pre.count k) :
    ∀ k ∈ keys, ∀ k' ∈ keys, xs.count k ≤ xs.count k' + 1 := by
  induction xs using List.reverseRecOn with
  | nil =>
      intro k _ k' _
      simp
  | append_singleton xs x ih =>
      intro k hk k' hk'
      have ih := ih fun pre y post he => h pre y (post ++ [x]) (by rw [he]; simp)
      have hbal := ih k hk k' hk'
      have hmin := h xs x [] rfl k' hk'
      rw [List.count_append, List.count_append]
      by_cases hkx : k = x
      · subst hkx
        rw [List.count_singleton_self]
        omega
      · have hzero : [x].count k = 0 := List.count_eq_zero.mpr (by simpa using hkx)
        omega

/-! ## What a run chooses and counts -/

/-- The node that an operation chooses. -/
def Op.chosen? : Op → Option String
  | .pick _ (some info) => some info.nodeId
  | _ => none

/-- The node at which an operation counts a tunnel. -/
def Op.counted? : Op → Option String
  | .incrementTunnels id => some id
  | _ => none

/-- The sessions of a run with the nodes they have chosen, in order. -/
def choices (ls : List (Tid × Op)) : List (Tid × String) :=
  ls.filterMap fun a => a.2.chosen?.map (a.1, ·)

/-- The sessions of a run with the nodes at which they have counted themselves, in
    order. -/
def countings (ls : List (Tid × Op)) : List (Tid × String) :=
  ls.filterMap fun a => a.2.counted?.map (a.1, ·)

/-- How often a run has chosen a node. -/
def timesChosen (id : String) (ls : List (Tid × Op)) : Nat :=
  ((choices ls).map Prod.snd).count id

/-- How often a run has counted a tunnel at a node. -/
def timesCounted (id : String) (ls : List (Tid × Op)) : Nat :=
  ((countings ls).map Prod.snd).count id

/-- The node that a session has chosen and at which it has not counted itself yet. -/
def ServerTask.opening? : ServerTask → Option String
  | .cli _ (.viaNode _ info .lockNode) | .cli _ (.viaNode _ info .openTunnel)
  | .cli _ (.viaNode _ info .startedAt) | .cli _ (.viaNode _ info (.record _))
  | .cli _ (.viaNode _ info (.increment _)) => some info.nodeId
  | _ => none

/-- No node comes or goes, no session asks for a node by name, falls back or
    counts itself out. -/
def Op.steady : Op → Bool
  | .registerNode _ | .removeNode _ | .decrementTunnels _ | .pick (some _) _
  | .sendUnlock _ (.openTunnel _) false => false
  | _ => true

/-- All nodes have no tunnels, and no session has chosen one. -/
structure Unloaded (c : Server) : Prop where
  counter : ∀ id info, c.shared.nodeManager.nodes.lookup id = some info → info.tunnelCount = 0
  session : ∀ t, (c.task t).opening? = none

/-- The counters of any two nodes differ by one at most. -/
def Balanced (nm : NodeManager) : Prop :=
  ∀ id info id' info', nm.nodes.lookup id = some info → nm.nodes.lookup id' = some info' →
    info.tunnelCount ≤ info'.tunnelCount + 1

/-- Whenever a session chooses, the nodes with the lowest counter are also those
    that have been chosen least. -/
def ChoosesUpToDate (cfg : ServerConfig) (c₀ : Server) (ls : List (Tid × Op)) : Prop :=
  ∀ pre t name got post c, ls = pre ++ (t, .pick name got) :: post →
    (server cfg).runFrom c₀ pre = some c → ∀ info, c.shared.nodeManager.picks name (some info) →
      ∀ id ∈ c.shared.nodeManager.nodes.keys, timesChosen info.nodeId pre ≤ timesChosen id pre

section Steps

variable {tokens : List String} {t : Tid} {k k' : ServerTask} {op : Op}

/-- What a steady step does to a session that opens a tunnel at a node. -/
inductive OpeningStep (k : ServerTask) (op : Op) (k' : ServerTask) : Prop where
  | chooses {id} : op.chosen? = some id → op.counted? = .none → k.opening? = .none →
      k'.opening? = some id → OpeningStep k op k'
  | counts {id} : op.chosen? = .none → op.counted? = some id → k.opening? = some id →
      k'.opening? = .none → OpeningStep k op k'
  | none : op.chosen? = .none → op.counted? = .none → k'.opening? = k.opening? →
      OpeningStep k op k'

theorem ServeTunnel.Step.not_places {s : SessionCtx} {ctx : TunnelCtx} {pc : Pc} {f : Flow Pc}
    (h : Step s ctx pc op f) : op.chosen? = none ∧ op.counted? = none := by
  cases h <;> exact ⟨rfl, rfl⟩

theorem ServeCliDirect.Step.not_places {s : SessionCtx} {ctx : TunnelCtx} {pc : Pc} {f : Flow Pc}
    (h : Step s ctx pc op f) : op.chosen? = none ∧ op.counted? = none := by
  cases h with
  | serve h | served h => exact h.not_places
  | _ => exact ⟨rfl, rfl⟩

theorem ServerTask.Step.opening (h : Step tokens t k op k') (hop : op.steady = true) :
    OpeningStep k op k' := by
  cases h with
  | @connect peer first =>
      have hd := handleClient_dispatched peer first
      generalize handleClient peer first = k' at hd ⊢
      cases hd <;> exact .none rfl rfl rfl
  | cli h =>
      cases h with
      | picked => exact .chooses rfl rfl rfl rfl
      | direct h | directRet h => exact .none h.not_places.1 h.not_places.2 rfl
      | viaNode h =>
          cases h with
          | unreachable => cases hop
          | increment => exact .counts rfl rfl rfl rfl
          | fallback h | fellBack h => exact .none h.not_places.1 h.not_places.2 rfl
          | _ => exact .none rfl rfl rfl
      | viaNodeRet h => cases h <;> exact .none rfl rfl rfl
      | _ => exact .none rfl rfl rfl
  | node h =>
      cases h with
      | forward h | forwarded h => cases h <;> exact .none rfl rfl rfl
      | _ => exact .none rfl rfl rfl
  | visitor h | dataConn h | close h => cases h <;> exact .none rfl rfl rfl
  | _ => exact .none rfl rfl rfl

end Steps

/-- A steady operation changes the registry only by counting. -/
theorem ServerState.exec_steady {s s' : ServerState} {t : Tid} {op : Op}
    (h : s.exec t op = some s') (hop : op.steady = true) (id : String) :
    s'.nodeManager.nodes.lookup id =
      if op.counted? = some id then
        (s.nodeManager.nodes.lookup id).map fun info =>
          { info with tunnelCount := info.tunnelCount + 1 }
      else s.nodeManager.nodes.lookup id := by
  cases hr : op.onRegistry with
  | true =>
      cases op with
      | incrementTunnels id' =>
          cases h
          rw [NodeManager.incrementTunnels, NodeManager.lookup_modify]
          simp only [Op.counted?, Option.some.injEq, eq_comm]
      | registerNode _ | removeNode _ | decrementTunnels _ => cases hop
      | _ => cases hr
  | false =>
      have hn : op.counted? ≠ some id := by
        intro hc
        cases op with
        | incrementTunnels _ => cases hr
        | _ => cases hc
      rw [if_neg hn, exec_nodeManager h hr]

/-! ## Choices and counters -/

section Runs

variable {cfg : ServerConfig} {ls : List (Tid × Op)} {c₀ c c' : Server} {t : Tid} {op : Op}

theorem choices_snoc :
    choices (ls ++ [(t, op)]) = choices ls ++ (op.chosen?.map (t, ·)).toList := by
  rw [choices, List.filterMap_append, choices]
  cases h : op.chosen? <;> simp [h]

theorem countings_snoc :
    countings (ls ++ [(t, op)]) = countings ls ++ (op.counted?.map (t, ·)).toList := by
  rw [countings, List.filterMap_append, countings]
  cases h : op.counted? <;> simp [h]

/-- The counters show what has been counted, and what has been chosen and not
    counted yet is in the hands of the sessions. -/
structure PlacementInv (ls : List (Tid × Op)) (c₀ c : Server) : Prop where
  counter : ∀ id, (c.shared.nodeManager.nodes.lookup id).map NodeInfo.tunnelCount =
    (c₀.shared.nodeManager.nodes.lookup id).map fun _ => timesCounted id ls
  sessions : ∃ opening : Multiset (Tid × String), opening.Nodup ∧
    (∀ p, p ∈ opening ↔ (c.task p.1).opening? = some p.2) ∧
    (choices ls : Multiset (Tid × String)) = (countings ls : Multiset (Tid × String)) + opening

theorem timesCounted_snoc {id : String} : timesCounted id (ls ++ [(t, op)]) =
    timesCounted id ls + if op.counted? = some id then 1 else 0 := by
  rw [timesCounted, countings_snoc, List.map_append, List.count_append, timesCounted]
  cases op.counted? with
  | none => simp
  | some id' => by_cases hid : id' = id <;> simp [hid]

theorem placementInv_step (hi : PlacementInv ls c₀ c)
    (h : (server cfg).step c (t, op) = some c') (hop : op.steady = true) :
    PlacementInv (ls ++ [(t, op)]) c₀ c' := by
  have hothers : ∀ u, u ≠ t → (c'.task u).opening? = (c.task u).opening? := fun u hu =>
    server_step_attr (f := ServerTask.opening?) (fun _ _ => rfl) h hu
  refine ⟨fun id => ?_, ?_⟩
  · have hc := hi.counter id
    rw [ServerState.exec_steady (server_step_exec h) hop, timesCounted_snoc]
    split
    · rw [Option.map_map]
      cases hl : c.shared.nodeManager.nodes.lookup id with
      | none =>
          rw [hl] at hc
          rw [Option.map_none, eq_comm, Option.map_eq_none_iff] at hc ⊢
          exact hc
      | some info =>
          rw [hl] at hc
          obtain ⟨info₀, hl₀, hcount⟩ := Option.map_eq_some_iff.mp hc.symm
          rw [hl₀]
          exact congrArg (fun n => some (n + 1)) hcount.symm
    · exact hc
  · obtain ⟨opening, hnd, hmem, hsplit⟩ := hi.sessions
    rw [choices_snoc, countings_snoc]
    cases (server_step_self h).opening hop with
    | @chooses id hch hco hb ha =>
        -- the session joins those that are opening
        refine ⟨(t, id) ::ₘ opening, ?_, fun p => ?_, ?_⟩
        · refine Multiset.nodup_cons.mpr ⟨fun hm => ?_, hnd⟩
          have hb' := (hmem (t, id)).mp hm
          rw [hb] at hb'
          cases hb'
        · obtain ⟨u, id'⟩ := p
          rw [Multiset.mem_cons]
          by_cases hut : u = t
          · subst hut
            have hnot : (u, id') ∉ opening := by
              rw [hmem, hb]
              nofun
            simp only [hnot, or_false, ha, Option.some.injEq, Prod.mk.injEq, true_and, eq_comm]
          · simp only [Prod.mk.injEq, hut, false_and, false_or, hmem, hothers u hut]
        · rw [hch, hco]
          simp only [Option.map_some, Option.map_none, Option.toList_some, Option.toList_none,
            List.append_nil, ← Multiset.coe_add, hsplit]
          rw [Multiset.coe_singleton, add_assoc, Multiset.add_comm opening, Multiset.singleton_add]
    | @counts id hch hco hb ha =>
        -- the session leaves those that are opening
        have hin : (t, id) ∈ opening := (hmem (t, id)).mpr hb
        refine ⟨opening.erase (t, id), hnd.erase _, fun p => ?_, ?_⟩
        · obtain ⟨u, id'⟩ := p
          rw [hnd.mem_erase_iff, hmem]
          by_cases hut : u = t
          · subst hut
            rw [ha, hb]
            constructor
            · rintro ⟨hne, he⟩
              cases he
              exact absurd rfl hne
            · intro he
              cases he
          · rw [hothers u hut]
            exact and_iff_right fun he => hut (congrArg Prod.fst he)
        · rw [hch, hco]
          simp only [Option.map_some, Option.map_none, Option.toList_some, Option.toList_none,
            List.append_nil, ← Multiset.coe_add, hsplit]
          rw [Multiset.coe_singleton, add_assoc, Multiset.singleton_add, Multiset.cons_erase hin]
    | none hch hco he =>
        refine ⟨opening, hnd, fun p => ?_, ?_⟩
        · rw [hmem]
          by_cases hut : p.1 = t
          · rw [hut, he]
          · rw [hothers p.1 hut]
        · simp only [hch, hco, Option.map_none, Option.toList_none, List.append_nil, hsplit]

theorem placementInv (hstart : Unloaded c₀) (hr : (server cfg).runFrom c₀ ls = some c)
    (hsteady : ∀ a ∈ ls, a.2.steady = true) : PlacementInv ls c₀ c := by
  refine Lts.runFrom_induct
    (P := fun ls c => (∀ a ∈ ls, a.2.steady = true) → PlacementInv ls c₀ c) ?_ ?_ hr hsteady
  · intro _
    refine ⟨fun id => ?_, 0, Multiset.nodup_zero, fun p => ?_, rfl⟩
    · refine Option.map_congr fun info hl => ?_
      exact hstart.counter id info hl
    · rw [hstart.session]
      simp
  · rintro ls c ⟨t, op⟩ c' - ih hs hsteady
    refine placementInv_step (ih fun a ha => hsteady a (List.mem_append_left _ ha)) hs ?_
    exact hsteady (t, op) (List.mem_append_right _ (List.mem_singleton_self _))

/-- No node comes or goes. -/
theorem PlacementInv.mem_keys (hi : PlacementInv ls c₀ c) {id : String} :
    id ∈ c.shared.nodeManager.nodes.keys ↔ id ∈ c₀.shared.nodeManager.nodes.keys := by
  have hc := congrArg Option.isSome (hi.counter id)
  rw [Option.isSome_map, Option.isSome_map] at hc
  rw [Finmap.mem_keys, Finmap.mem_keys, ← Finmap.lookup_isSome, ← Finmap.lookup_isSome, hc]

theorem PlacementInv.tunnelCount (hi : PlacementInv ls c₀ c) {id : String} {info : NodeInfo}
    (hl : c.shared.nodeManager.nodes.lookup id = some info) :
    info.tunnelCount = timesCounted id ls := by
  have hc := hi.counter id
  rw [hl, Option.map_some, eq_comm] at hc
  obtain ⟨_, _, hc⟩ := Option.map_eq_some_iff.mp hc
  exact hc.symm

/-- Once no session is opening a tunnel, all choices are counted. -/
theorem PlacementInv.settled (hi : PlacementInv ls c₀ c)
    (hdone : ∀ t, (c.task t).opening? = none) (id : String) :
    timesCounted id ls = timesChosen id ls := by
  obtain ⟨opening, _, hmem, hsplit⟩ := hi.sessions
  have hnone : opening = 0 := by
    refine Multiset.eq_zero_of_forall_notMem fun p hp => ?_
    have hp := (hmem p).mp hp
    rw [hdone] at hp
    cases hp
  rw [hnone, add_zero, Multiset.coe_eq_coe] at hsplit
  exact ((hsplit.map Prod.snd).count_eq id).symm

theorem timesChosen_eq {id : String} :
    timesChosen id ls = (ls.filterMap fun a => a.2.chosen?).count id := by
  have hf : (fun a : Tid × Op => (a.2.chosen?.map (a.1, ·)).map Prod.snd) =
      fun a => a.2.chosen? := by
    funext a
    cases a.2.chosen? <;> rfl
  rw [timesChosen, choices, List.map_filterMap, hf]

/-- Where whoever chooses sees the nodes chosen least, the counters are balanced
    as soon as everybody is counted. -/
theorem placement_balanced (hstart : Unloaded c₀) (hr : (server cfg).runFrom c₀ ls = some c)
    (hsteady : ∀ a ∈ ls, a.2.steady = true) (hok : ChoosesUpToDate cfg c₀ ls)
    (hdone : ∀ t, (c.task t).opening? = none) : Balanced c.shared.nodeManager := by
  have hi := placementInv hstart hr hsteady
  have hchosen : ∀ id ∈ c₀.shared.nodeManager.nodes.keys,
      ∀ id' ∈ c₀.shared.nodeManager.nodes.keys, timesChosen id ls ≤ timesChosen id' ls + 1 := by
    simp only [timesChosen_eq]
    refine chosen_balanced fun pre x post hx id hid => ?_
    -- the choice is a step of the run, and `pre` is what was chosen before it
    obtain ⟨l₁, l₂, rfl, hl₁, hl₂⟩ := List.filterMap_eq_append_iff.mp hx
    obtain ⟨m, ⟨t, op⟩, post', rfl, hm, hop, _⟩ := List.filterMap_eq_cons_iff.mp hl₂
    have hpre : pre = (l₁ ++ m).filterMap fun a => a.2.chosen? := by
      rw [List.filterMap_append, hl₁, List.filterMap_eq_nil_iff.mpr hm, List.append_nil]
    have hsplit : l₁ ++ (m ++ (t, op) :: post') = (l₁ ++ m) ++ (t, op) :: post' := by simp
    rw [hsplit] at hr hsteady hok
    rw [Lts.runFrom_append, Option.bind_eq_some_iff] at hr
    obtain ⟨c₁, hr₁, hrest⟩ := hr
    simp only [Lts.runFrom, Option.bind_eq_some_iff] at hrest
    obtain ⟨c₂, hs, _⟩ := hrest
    have hi₁ := placementInv hstart hr₁ fun a ha => hsteady a (List.mem_append_left _ ha)
    cases op with
    | pick name got =>
        cases got with
        | none => cases hop
        | some info =>
            cases hop
            have hpick : c₁.shared.nodeManager.picks name (some info) :=
              (Option.ite_none_right_eq_some.mp (server_step_exec hs)).1
            have hle := hok (l₁ ++ m) t name (some info) post' c₁ rfl hr₁ info hpick id
              (hi₁.mem_keys.mpr hid)
            rw [hpre, ← timesChosen_eq, ← timesChosen_eq]
            exact hle
    | _ => cases hop
  intro id info id' info' hl hl'
  have hkey : ∀ {id info}, c.shared.nodeManager.nodes.lookup id = some info →
      id ∈ c₀.shared.nodeManager.nodes.keys := fun hl =>
    hi.mem_keys.mp (Finmap.mem_keys.mpr (Finmap.mem_of_lookup_eq_some hl))
  rw [hi.tunnelCount hl, hi.tunnelCount hl', hi.settled hdone, hi.settled hdone]
  exact hchosen id (hkey hl) id' (hkey hl')

/-- Sessions that choose one after the other choose up to date. -/
theorem choosesUpToDate_of_apart (hstart : Unloaded c₀)
    (hsteady : ∀ a ∈ ls, a.2.steady = true)
    (hapart : ∀ pre t name got post c, ls = pre ++ (t, .pick name got) :: post →
      (server cfg).runFrom c₀ pre = some c → ∀ u, (c.task u).opening? = none) :
    ChoosesUpToDate cfg c₀ ls := by
  intro pre t name got post c hls hr info hpick id hid
  have hi := placementInv hstart hr fun a ha => hsteady a (by
    rw [hls]
    exact List.mem_append_left _ ha)
  have hsettled := hi.settled (hapart pre t name got post c hls hr)
  have hname : name = none := by
    have hs := hsteady (t, .pick name got) (by rw [hls]; simp)
    cases name with
    | none => rfl
    | some _ => cases hs
  subst hname
  obtain ⟨hl, _, hmin⟩ := hpick
  obtain ⟨other, hother⟩ := Finmap.mem_iff.mp (Finmap.mem_keys.mp hid)
  have hle := hmin id hid other hother rfl
  rw [hi.tunnelCount hl, hi.tunnelCount hother, hsettled, hsettled] at hle
  exact hle

end Runs

/-! ## Two nodes and two sessions -/

section TwoNodes

/-- A range of two ports. -/
def twoPorts : ServerConfig := ⟨(7000, 7001), ["secret"]⟩

/-- A node in Amsterdam. -/
def ams : NodeInfo := ⟨"m", "ams", "10.0.0.8", 7001, 0, 3⟩

/-- Two nodes register. -/
def twoNodes : List (Tid × Op) :=
  nodeVisible ++ nodeAnswered ++
  [(3, .connect "10.0.0.8" (some (some (.registerNode ⟨"secret", "ams", 7001⟩)))), (3, .compute),
   (3, .uuid "m"), (3, .registerNode ams), (3, .lockWriter 3),
   (3, .sendUnlock 3 (.nodeRegistered ⟨"m"⟩) true), (3, .publish (.nodeConnected "m" "ams"))]

/-- Session `t` gets `port` and chooses `node`. -/
def chooses (t : Tid) (port : UInt16) (id : String) (node : NodeInfo) : List (Tid × Op) :=
  [(t, .connect "10.0.0.1" (some (some (.register anyPort)))), (t, .compute),
   (t, .acquire (some port)), (t, .uuid id), (t, .pick none (some node))]

/-- Session `t` opens its tunnel at `node` and counts itself. -/
def countsItself (t : Tid) (port : UInt16) (id : String) (node : NodeInfo) : List (Tid × Op) :=
  [(t, .lockWriter node.tx), (t, .sendUnlock node.tx (.openTunnel ⟨id, port⟩) true), (t, .now 0),
   (t, .insertTunnel id (ServeCliViaNode.entry ⟨t, anyPort⟩ ⟨id, port⟩ node 0)),
   (t, .incrementTunnels node.nodeId)]

/-- The second session chooses when the first is counted. -/
def oneByOne : List (Tid × Op) :=
  chooses 1 7000 "t" fra ++ countsItself 1 7000 "t" fra ++ chooses 4 7001 "u" ams ++
    countsItself 4 7001 "u" ams

/-- Both sessions choose before either is counted. -/
def bothAtOnce : List (Tid × Op) :=
  chooses 1 7000 "t" fra ++ chooses 4 7001 "u" fra ++ countsItself 1 7000 "t" fra ++
    countsItself 4 7001 "u" fra

theorem opening_among {cfg : ServerConfig} {ls : List (Tid × Op)} {c : Server} {ts : List Tid}
    (hr : (server cfg).Run ls c) (hls : ∀ a ∈ ls, a.1 ∈ ts ∧ a.2.child = none)
    (hts : ∀ u ∈ ts, (c.task u).opening? = none) (u : Tid) : (c.task u).opening? = none := by
  by_cases hu : u ∈ ts
  · exact hts u hu
  · rw [server_idle hr hls hu]
    rfl

theorem twoNodes_unloaded : ∃ c₀, (server twoPorts).Run twoNodes c₀ ∧ Unloaded c₀ := by
  obtain ⟨c₀, hr, hids, hcount, hts⟩ : ∃ c, (server twoPorts).Run twoNodes c ∧
      c.shared.nodeManager.nodes.keys = {"n", "m"} ∧
      (∀ id ∈ (["n", "m"] : List String),
        (c.shared.nodeManager.nodes.lookup id).map NodeInfo.tunnelCount = some 0) ∧
      ∀ u ∈ ([2, 3] : List Tid), (c.task u).opening? = none := Lts.exists_run (by decide)
  refine ⟨c₀, hr, fun id info hl => ?_, opening_among hr (by decide) hts⟩
  have hid := Finmap.mem_keys.mpr (Finmap.mem_of_lookup_eq_some hl)
  rw [hids] at hid
  have hc := hcount id (by simpa using hid)
  rw [hl] at hc
  exact Option.some.inj hc

/-- A choice of `oneByOne`: the first, or the second after the first is counted. -/
theorem oneByOne_choice {pre post : List (Tid × Op)} {t : Tid} {name : Option String}
    {got : Option NodeInfo} (h : oneByOne = pre ++ (t, .pick name got) :: post) :
    pre = oneByOne.take 4 ∨ pre = oneByOne.take 14 := by
  have hat : oneByOne[pre.length]? = some (t, .pick name got) := by
    rw [h]
    simp
  have hpre : pre = oneByOne.take pre.length := by
    rw [h]
    simp
  have hlt : pre.length < 20 := (List.getElem?_eq_some_iff.mp hat).1
  generalize pre.length = n at hat hpre hlt
  by_cases h4 : n = 4
  · exact Or.inl (h4 ▸ hpre)
  by_cases h14 : n = 14
  · exact Or.inr (h14 ▸ hpre)
  exfalso
  interval_cases n
  all_goals first
    | exact h4 rfl
    | exact h14 rfl
    | simp [oneByOne, chooses, countsItself] at hat

theorem placement_balanced_oneByOne : ∃ c₀ c, (server twoPorts).Run twoNodes c₀ ∧
    (server twoPorts).runFrom c₀ oneByOne = some c ∧ Balanced c.shared.nodeManager := by
  obtain ⟨c₀, hr₀, hstart⟩ := twoNodes_unloaded
  have hend : ∀ ls, (∃ c, (server twoPorts).Run (twoNodes ++ ls) c ∧
      ∀ u ∈ ([1, 2, 3, 4] : List Tid), (c.task u).opening? = none) →
      (∀ a ∈ twoNodes ++ ls, a.1 ∈ ([1, 2, 3, 4] : List Tid) ∧ a.2.child = none) →
      ∃ c, (server twoPorts).runFrom c₀ ls = some c ∧ ∀ u, (c.task u).opening? = none := by
    rintro ls ⟨c, hr, hts⟩ hls
    obtain ⟨c₁, hr₁, hrest⟩ := Lts.run_append.mp hr
    rw [hr₀.functional hr₁]
    exact ⟨c, hrest, opening_among hr hls hts⟩
  obtain ⟨c, hr, hdone⟩ := hend oneByOne (Lts.exists_run (by decide)) (by decide)
  have hsteady : ∀ a ∈ oneByOne, a.2.steady = true := by decide
  refine ⟨c₀, c, hr₀, hr, placement_balanced hstart hr hsteady
    (choosesUpToDate_of_apart hstart hsteady fun pre t name got post c' hls hr' => ?_) hdone⟩
  obtain rfl | rfl := oneByOne_choice hls
  · obtain ⟨c'', hr'', hdone''⟩ := hend (oneByOne.take 4) (Lts.exists_run (by decide)) (by decide)
    rw [hr'] at hr''
    cases hr''
    exact hdone''
  · obtain ⟨c'', hr'', hdone''⟩ := hend (oneByOne.take 14) (Lts.exists_run (by decide)) (by decide)
    rw [hr'] at hr''
    cases hr''
    exact hdone''

/-- Two sessions that choose before either is counted choose the same node. -/
theorem placement_unbalanced : ¬ ∀ cfg pre c₀ ls c, (server cfg).Run pre c₀ → Unloaded c₀ →
    (server cfg).runFrom c₀ ls = some c → (∀ a ∈ ls, a.2.steady = true) →
    (∀ t, (c.task t).opening? = none) → Balanced c.shared.nodeManager := by
  intro hall
  obtain ⟨c₀, hr₀, hstart⟩ := twoNodes_unloaded
  obtain ⟨c, hr, hts, h₁, h₂⟩ : ∃ c, (server twoPorts).Run (twoNodes ++ bothAtOnce) c ∧
      (∀ u ∈ ([1, 2, 3, 4] : List Tid), (c.task u).opening? = none) ∧
      c.shared.nodeManager.nodes.lookup "n" = some { fra with tunnelCount := 2 } ∧
      c.shared.nodeManager.nodes.lookup "m" = some ams := Lts.exists_run (by decide)
  have hdone := opening_among hr (by decide) hts
  obtain ⟨c₁, hr₁, hrest⟩ := Lts.run_append.mp hr
  rw [hr₁.functional hr₀] at hrest
  have hbal := hall twoPorts twoNodes c₀ bothAtOnce c hr₀ hstart hrest (by decide) hdone
  exact absurd (hbal "n" _ "m" _ h₁ h₂) (by decide)

end TwoNodes

end Borehole
