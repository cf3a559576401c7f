/-
  Borehole.Node.Pending

  What is left in the node's pending map.

  The accept loop puts a visitor's entry there before it reports the visitor, and
  the task that takes the entry out again is spawned only afterwards.  A loop
  that is cancelled in between leaves the entry to nobody.  Otherwise each entry
  is that of a visitor which is being reported or waited for.
-/

import Borehole.Node.Visitors

namespace Borehole.Node

open Conc

/-! ## The invariant of every run -/

/-- A visitor that could not be reported has no entry left. -/
def Dropped (c : NodeConf) : Prop :=
  ∀ l v, (c.task l).holding? = some (.dropping v) → ∀ k, c.shared.pending.lookup k ≠ some v

/-- What holds of a node and its visitors after any run. -/
structure VisitorInv (c : NodeConf) : Prop where
  custody : custody.Inv c
  exclusive : (rendezvousOf c).Exclusive
  kept : Kept c
  dropped : Dropped c

section Invariant

variable {c c' : NodeConf} {ls : List (Tid × Op)} {t v : Tid} {op : Op} {k : String}

theorem Meeting.exclusive {r r' : Rendezvous String Tid Tid} (h : Meeting op r r')
    (hi : r.Exclusive) : r'.Exclusive := by
  cases h with
  | apart he => rwa [he]
  | event _ hs => exact hi.step hs
  | leave _ hs => exact hi.step hs

/-- An entry is put in the table when its visitor has just arrived. -/
theorem Meeting.table {r r' : Rendezvous String Tid Tid} {w : Tid} (h : Meeting op r r')
    (ht : r'.table k = some w) : r.table k = some w ∨ r.waiter w = .arrived k := by
  cases h with
  | apart he =>
      rw [he] at ht
      exact Or.inl ht
  | event _ hs | leave _ hs => exact (hs.table ht).imp_right And.right

theorem Dropped.step (hi : VisitorInv c) (h : node.step c (t, op) = some c') : Dropped c' := by
  have hmeet := node_step_meeting hi.custody h
  -- the visitor of a loop that was dropping it already has not come back
  have hstill : ∀ l v, (c.task l).holding? = some (.dropping v) →
      ∀ k, c'.shared.pending.lookup k ≠ some v := by
    intro l v hl k hk
    obtain hk | ha := hmeet.table hk
    · exact hi.dropped l v hl k hk
    · have hv : Holding.Has (.dropping v) (c.task v) := hi.custody.has l _ hl
      change (c.task v).place = .arrived k at ha
      generalize c.task v = kv at hv ha
      cases hv
      cases ha
  intro l v hl
  by_cases hlt : l = t
  · subst hlt
    have hsteps := (node_step_self h).meets
    cases hsteps with
    | loop _ _ hs =>
        rw [hl] at hs
        generalize ho : (c.task l).holding? = o at hs
        cases hs with
        | @removePending _ vis =>
            -- its only entry was the one that has just been taken out
            intro k hk
            have hv : Holding.Has (.reporting v vis) (c.task v) := hi.custody.has l _ ho
            have htable := congrFun (rendezvous_removePending h) k
            rw [show (rendezvousOf c').table k = some v from hk, Function.update_apply] at htable
            split at htable
            · cases htable
            · rename_i hne
              obtain ⟨hoff, _⟩ := hi.exclusive.entry k v htable.symm
              have hplace : (c.task v).place = .offered vis.connId := by
                generalize c.task v = kv at hv
                cases hv
                rfl
              change (c.task v).place.offered? = some k at hoff
              rw [hplace] at hoff
              exact hne (Option.some.inj hoff).symm
        | quiet => exact hstill l v ho
    | visitor _ hk' _ => rw [hk'] at hl; cases hl
    | dataConn _ hk' _ => rw [hk'] at hl; cases hl
    | apart hn _ _ _ _ => rw [hn] at hl; cases hl
  · exact hstill l v ((node_step_holding h hlt).symm.trans hl)

theorem VisitorInv.start : VisitorInv NodeConf.start := by
  have hidle : ∀ t, (NodeConf.start.task t).holding? = none := by
    intro t
    simp only [NodeConf.start]
    split <;> rfl
  have habsent : ∀ t, (NodeConf.start.task t).place = .absent := by
    intro t
    simp only [NodeConf.start]
    split <;> rfl
  refine ⟨⟨?_, ?_⟩, .of_empty (fun _ => rfl) habsent (fun _ => rfl) ?_, ?_, ?_⟩
  · intro t x hx
    exact absurd ((hidle t).symm.trans hx) nofun
  · intro t _ x _ hx
    exact absurd ((hidle t).symm.trans hx) nofun
  · intro t
    simp only [rendezvousOf, NodeConf.start]
    split <;> rfl
  · intro v vis pc hv
    simp only [NodeConf.start] at hv
    split at hv <;> cases hv
  · intro l v hl
    exact absurd ((hidle l).symm.trans hl) nofun

theorem VisitorInv.step (hi : VisitorInv c) (h : node.step c (t, op) = some c') :
    VisitorInv c' where
  custody := custody_step hi.custody h
  exclusive := (node_step_meeting hi.custody h).exclusive hi.exclusive
  kept := hi.kept.step h
  dropped := .step hi h

theorem visitorInv (h : node.Run ls c) : VisitorInv c :=
  Conc.Lts.Run.induct (P := fun _ c => VisitorInv c) VisitorInv.start
    (fun _ _ _ _ _ hi hs => hi.step hs) h

end Invariant

/-! ## Entries that nobody looks after -/

/-- The visitor that a loop has in hand when it is dropped on the way to its
    report: while it awaits the writer, or a write. -/
def Op.abandons? : Op → Option Tid
  | .cancelLock _ v | .cancelWrite _ _ v => some v
  | _ => none

/-- No accept loop is dropped on the way to the report of a visitor that still
    has its entry. -/
def Undisturbed (c : NodeConf) (a : Tid × Op) : Prop :=
  ∀ v, a.2.abandons? = some v → ∀ k, c.shared.pending.lookup k ≠ some v

instance (c : NodeConf) (a : Tid × Op) : Decidable (Undisturbed c a) :=
  decidable_of_iff
    (∀ v ∈ a.2.abandons?, ∀ k ∈ c.shared.pending.keys, c.shared.pending.lookup k ≠ some v) (by
      constructor
      · intro h v hv k hk
        exact h v hv k (Finmap.mem_keys.mpr (Finmap.mem_of_lookup_eq_some hk)) hk
      · exact fun h v hv k _ => h v hv k)

/-- Visitor `v` is in the hands of an accept loop that has not been dropped. -/
def BeingReported (c : NodeConf) (k : String) (v : Tid) : Prop :=
  ∃ l ctx aborted pc x vis, c.task l = .loop ctx aborted pc ∧ pc.holding? ctx = some x ∧
    x.visitor = v ∧ c.task v = .visitor vis .reporting ∧ vis.connId = k

/-- The task of visitor `v` is running and its wait is not over. -/
def BeingAwaited (c : NodeConf) (k : String) (v : Tid) : Prop :=
  ∃ vis pc, c.task v = .visitor vis pc ∧ vis.connId = k ∧ (pc = .waiting ∨ pc = .removePending)

section Entries

variable {c c' : NodeConf} {ls : List (Tid × Op)} {t v : Tid} {op : Op} {k : String}

theorem NodeTask.loop_of_holding {kl : NodeTask} {x : Holding} (h : kl.holding? = some x) :
    ∃ ctx aborted pc, kl = .loop ctx aborted pc ∧ pc.holding? ctx = some x := by
  cases kl with
  | loop ctx aborted pc => exact ⟨ctx, aborted, pc, rfl, h⟩
  | _ => cases h

theorem NodeTask.visitor_of_offered {kv : NodeTask} (h : kv.place = .offered k) :
    ∃ vis pc, kv = .visitor vis pc ∧ vis.connId = k ∧
      (pc = .reporting ∨ pc = .waiting ∨ pc = .removePending) := by
  cases kv with
  | visitor vis pc =>
      refine ⟨vis, pc, rfl, ?_⟩
      rcases pc with _ | _ | _ | _ | _ | (_ | _) <;> cases h <;> simp
  | _ => cases h

theorem tidy_step (hi : VisitorInv c) (ht : (rendezvousOf c).Tidy)
    (hok : Undisturbed c (t, op)) (h : node.step c (t, op) = some c') :
    (rendezvousOf c').Tidy := by
  cases node_step_meeting hi.custody h with
  | apart he => rwa [he]
  | event hl hs =>
      refine ht.step hi.exclusive hs fun w hw => ?_
      rw [hl] at hw
      cases hw
  | @leave w hl hs =>
      refine ht.step hi.exclusive hs fun w' hw' => ?_
      cases hw'
      cases op with
      | cancelLock | cancelWrite =>
          cases hl
          exact hok _ rfl
      | dropVisitor =>
          cases hl
          -- the loop that drops it took its entry out before
          obtain ⟨x, hx, hv⟩ | ⟨_, he⟩ | hop := (node_step_self h).meets.child rfl
          · have hdrop : x = .dropping w := by
              have hs := (node_step_self h).meets
              cases hs with
              | loop _ _ hs =>
                  rw [hx] at hs
                  generalize (c'.task t).holding? = o' at hs
                  cases hs with
                  | drop => rfl
                  | quiet hop => cases hop
              | visitor hk _ _ => rw [hk] at hx; cases hx
              | dataConn hk _ _ => rw [hk] at hx; cases hx
              | apart _ hn _ _ _ => rw [hn] at hx; cases hx
            rw [hdrop] at hx
            exact hi.dropped t w hx
          · cases he
          · cases hop
      | _ => cases hl

/-- If no loop is dropped on the way to the report of a visitor that still has
    its entry, every entry of `pending` is that of a visitor which is being
    reported by a live accept loop or waited for by a live task, so that nothing
    is left there when there are none. -/
theorem pending_looked_after (h : node.Run ls c) (hok : node.Along Undisturbed ls) :
    (∀ k v, c.shared.pending.lookup k = some v → BeingReported c k v ∨ BeingAwaited c k v) ∧
    ((∀ k v, ¬BeingReported c k v) → (∀ k v, ¬BeingAwaited c k v) → c.shared.pending = ∅) := by
  have hi := visitorInv h
  have htidy : (rendezvousOf c).Tidy := by
    refine Conc.Lts.Run.induct_along (P := fun _ c => (rendezvousOf c).Tidy) ?_ ?_ h hok
    · intro k w hk
      cases hk
    · intro ls c a c' hr ht hok hs
      exact tidy_step (visitorInv hr) ht hok hs
  have hentry : ∀ k v, c.shared.pending.lookup k = some v →
      BeingReported c k v ∨ BeingAwaited c k v := by
    intro k v hk
    obtain ⟨vis, pc, hv, hid, hpc⟩ := NodeTask.visitor_of_offered (htidy k v hk)
    obtain rfl | hpc := hpc
    · obtain ⟨l, x, hl, hx⟩ := hi.kept v vis .reporting hv rfl
      obtain ⟨ctx, aborted, pc, hl, hpc⟩ := NodeTask.loop_of_holding hl
      exact Or.inl ⟨l, ctx, aborted, pc, x, vis, hl, hpc, hx, hv, hid⟩
    · exact Or.inr ⟨vis, pc, hv, hid, hpc⟩
  refine ⟨hentry, fun hr hw => ?_⟩
  refine Finmap.ext_lookup fun k => ?_
  rw [Finmap.lookup_empty]
  refine Option.eq_none_iff_forall_not_mem.mpr fun v hv => ?_
  obtain hk | hk := hentry k v hv
  · exact hr k v hk
  · exact hw k v hk

/-- The node registers and opens tunnel `t` on port 7000. -/
def tunnelOpened : List (Tid × Op) :=
  [(0, .connect true), (0, .sendRegister true),
   (0, .readVerdict (some (some (.nodeRegistered ⟨"n"⟩)))),
   (0, .readOrder 0 (some (some (.openTunnel ⟨"t", 7000⟩)))), (0, .bind 7000 true),
   (0, .spawnLoop 1 ⟨0, "t", 7000⟩)]

/-- A visitor comes, and its report waits for the stream to take it. -/
def visitorAccepted : List (Tid × Op) :=
  [(1, .accept (some (2, ⟨"t", "c"⟩))), (1, .insertPending "c" 2), (1, .compute),
   (1, .lockWriter 0)]

/-- The CLI's data connection comes. -/
def dataConnected : List (Tid × Op) :=
  [(3, .dataConnect), (3, .readFrame (some (some (.dataConn ⟨"c"⟩)))),
   (3, .removePending "c" (some 2))]

/-- The tunnel is closed, and its loop is dropped where it is. -/
def closedAtReport : List (Tid × Op) :=
  [(0, .readOrder 0 (some (some (.closeTunnel ⟨"t"⟩)))), (0, .abort "t" 1),
   (1, .cancelWrite 7000 0 2)]

/-- The entry is there while the visitor is reported, and its data connection takes it
    out before the tunnel is closed. -/
theorem pending_looked_after_reported :
    ∃ c, node.Run (tunnelOpened ++ visitorAccepted) c ∧ c.shared.pending.lookup "c" = some 2 ∧
      (BeingReported c "c" 2 ∨ BeingAwaited c "c" 2) ∧
      ∃ c', node.runFrom c (dataConnected ++ closedAtReport) = some c' ∧
        ∀ k v, c'.shared.pending.lookup k = some v → BeingReported c' k v ∨
          BeingAwaited c' k v := by
  obtain ⟨c, h, hl⟩ : ∃ c, node.Run (tunnelOpened ++ visitorAccepted) c ∧
      c.shared.pending.lookup "c" = some 2 := ⟨_, rfl, rfl⟩
  obtain ⟨c', h'⟩ : ∃ c',
      node.Run (tunnelOpened ++ visitorAccepted ++ (dataConnected ++ closedAtReport)) c' := ⟨_, rfl⟩
  obtain ⟨c₁, h₁, hr⟩ := Conc.Lts.run_append.mp h'
  rw [h₁.functional h] at hr
  exact ⟨c, h, hl, (pending_looked_after h (by decide)).1 "c" 2 hl, c', hr,
    (pending_looked_after h' (by decide)).1⟩

/-- Otherwise the entry stays behind, and nobody is left to take it out. -/
theorem pending_closedAtReport :
    ∃ c, node.Run (tunnelOpened ++ visitorAccepted ++ closedAtReport) c ∧
      c.shared.pending.lookup "c" = some 2 ∧
      ¬(BeingReported c "c" 2 ∨ BeingAwaited c "c" 2) := by
  obtain ⟨c, h, hl, hv⟩ : ∃ c, node.Run (tunnelOpened ++ visitorAccepted ++ closedAtReport) c ∧
      c.shared.pending.lookup "c" = some 2 ∧ c.task 2 = .visitor ⟨"t", "c"⟩ (.done none) :=
    ⟨_, rfl, rfl, rfl⟩
  refine ⟨c, h, hl, ?_⟩
  rintro (⟨_, _, _, _, _, _, _, _, _, hv', _⟩ | ⟨_, _, hv', _, rfl | rfl⟩)
  all_goals
    rw [hv] at hv'
    cases hv'

end Entries

end Borehole.Node
