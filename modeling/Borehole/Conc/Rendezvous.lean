/-
  Borehole.Conc.Rendezvous

  Pairing waiters with sockets through a table of keys.

  A waiter has a key and leaves a sender under it in a table.  A socket
  announces a key, takes the sender that it finds there and sends itself through
  it, and the waiter picks it up from its box.  Either side may give up at any
  point, an entry may be removed by anyone, and no key is assumed to be used
  only once.  Still a waiter meets at most one socket, a socket at most one
  waiter, and both name the same key: a sender is in one place at a time.
-/

import Mathlib.Logic.Function.Basic

namespace Borehole.Conc

/-- Where a waiter is. -/
inductive Waiting (Key Socket : Type) where
  | absent
  | arrived (k : Key)
  | offered (k : Key)
  | met (k : Key) (s : Socket)
  | left (k : Key)

/-- Where a socket is. -/
inductive Calling (Key Waiter : Type) where
  | silent
  | announced (k : Key)
  /-- It has the sender of `w`. -/
  | holding (k : Key) (w : Waiter)
  | over (k : Option Key)

/-- The key under which a waiter has left its sender. -/
def Waiting.offered? {Key Socket : Type} : Waiting Key Socket → Option Key
  | .absent | .arrived _ => none
  | .offered k | .met k _ | .left k => some k

/-- The key that a socket has looked up. -/
def Calling.looked? {Key Waiter : Type} : Calling Key Waiter → Option Key
  | .silent | .announced _ => none
  | .holding k _ => some k
  | .over k => k

/-- The key that a socket has named. -/
def Calling.named? {Key Waiter : Type} : Calling Key Waiter → Option Key
  | .silent => none
  | .announced k | .holding k _ => some k
  | .over k => k

theorem Calling.named_of_looked {Key Waiter : Type} {s : Calling Key Waiter} {k : Key}
    (h : s.looked? = some k) : s.named? = some k := by
  cases s <;> first | exact h | cases h

/-- A table of waiters, what each of them has received, and how far the two sides are. -/
@[ext] structure Rendezvous (Key Waiter Socket : Type) where
  table : Key → Option Waiter
  waiter : Waiter → Waiting Key Socket
  box : Waiter → Option Socket
  socket : Socket → Calling Key Waiter

namespace Rendezvous

variable {Key Waiter Socket : Type} [DecidableEq Key] [DecidableEq Waiter] [DecidableEq Socket]

/-- What can happen at a rendezvous. -/
inductive Event (Key Waiter Socket : Type) where
  | arrive (w : Waiter) (k : Key)
  | offer (w : Waiter) (k : Key)
  | remove (k : Key)
  /-- The waiter gives up. -/
  | leave (w : Waiter)
  /-- The waiter gives up and takes the entry of its key out. -/
  | retire (w : Waiter)
  | announce (s : Socket) (k : Key)
  | take (s : Socket) (w : Waiter)
  | hangUp (s : Socket)
  | deliver (s : Socket) (w : Waiter)
  /-- The waiter's receiver is dropped. -/
  | discard (w : Waiter)
  | meet (w : Waiter) (s : Socket)

/-- The waiter that gives up and leaves its entry where it is. -/
def Event.leaving? : Event Key Waiter Socket → Option Waiter
  | .leave w => some w
  | _ => none

open Function in
/-- The steps of a rendezvous. -/
inductive Step (r : Rendezvous Key Waiter Socket) :
    Event Key Waiter Socket → Rendezvous Key Waiter Socket → Prop where
  | arrive {w k} : r.waiter w = .absent →
      Step r (.arrive w k)
        { r with waiter := update r.waiter w (.arrived k), box := update r.box w none }
  | offer {w k} : r.waiter w = .arrived k →
      Step r (.offer w k)
        { r with waiter := update r.waiter w (.offered k), table := update r.table k (some w) }
  | remove {k} : Step r (.remove k) { r with table := update r.table k none }
  | leave {w k} : r.waiter w = .offered k →
      Step r (.leave w)
        { r with waiter := update r.waiter w (.left k), box := update r.box w none }
  | retire {w k} : r.waiter w = .offered k →
      Step r (.retire w)
        { r with waiter := update r.waiter w (.left k), table := update r.table k none }
  | announce {s k} : r.socket s = .silent →
      Step r (.announce s k) { r with socket := update r.socket s (.announced k) }
  | take {s k w} : r.socket s = .announced k → r.table k = some w →
      Step r (.take s w)
        { r with socket := update r.socket s (.holding k w), table := update r.table k none }
  | hangUpSilent {s} : r.socket s = .silent →
      Step r (.hangUp s) { r with socket := update r.socket s (.over none) }
  | hangUp {s k} : r.socket s = .announced k ∨ (∃ w, r.socket s = .holding k w) →
      Step r (.hangUp s) { r with socket := update r.socket s (.over (some k)) }
  | deliver {s k w} : r.socket s = .holding k w →
      Step r (.deliver s w)
        { r with socket := update r.socket s (.over (some k)), box := update r.box w (some s) }
  | discard {w} : Step r (.discard w) { r with box := update r.box w none }
  | meet {w k s} : r.waiter w = .offered k → r.box w = some s →
      Step r (.meet w s)
        { r with waiter := update r.waiter w (.met k s), box := update r.box w none }

/-- The sender of `w` is in the hands of `s` or has been used by it. -/
inductive Taken (r : Rendezvous Key Waiter Socket) (w : Waiter) (s : Socket) : Prop where
  | hand {k} : r.socket s = .holding k w → Taken r w s
  | box : r.box w = some s → Taken r w s
  | met {k} : r.waiter w = .met k s → Taken r w s

variable {r r' r₁ : Rendezvous Key Waiter Socket} {e : Event Key Waiter Socket} {k : Key}
  {w w' : Waiter} {s s' : Socket}

/-- A step, up to the equality of its result's parts. -/
theorem Step.to (h : Step r e r₁) (ht : r'.table = r₁.table) (hw : r'.waiter = r₁.waiter)
    (hb : r'.box = r₁.box) (hs : r'.socket = r₁.socket) : Step r e r' := by
  have he : r' = r₁ := Rendezvous.ext ht hw hb hs
  rwa [he]

/-! ## What a step changes -/

/-- An entry comes from its waiter. -/
theorem Step.table (h : Step r e r') (ht : r'.table k = some w) :
    r.table k = some w ∨ e = .offer w k ∧ r.waiter w = .arrived k := by
  cases h with
  | offer hw =>
      simp only [Function.update_apply] at ht
      split at ht
      · rename_i hk
        rw [hk, ← Option.some.inj ht]
        exact Or.inr ⟨rfl, hw⟩
      · exact Or.inl ht
  | remove | retire _ | take _ _ =>
      simp only [Function.update_apply] at ht
      split at ht
      · cases ht
      · exact Or.inl ht
  | _ => exact Or.inl ht

/-- A sender leaves the table by being taken. -/
theorem Step.taken (h : Step r e r') (ht : Taken r' w s) :
    Taken r w s ∨ e = .take s w ∧ ∃ k, r.socket s = .announced k ∧ r.table k = some w := by
  obtain hand | box | met := ht
  -- The socket has the waiter's sender in hand.
  · cases h with
    | take ha hk =>
        simp only [Function.update_apply] at hand
        split at hand
        · rename_i hs
          cases hand
          rw [hs]
          exact Or.inr ⟨rfl, _, ha, hk⟩
        · exact Or.inl (.hand hand)
    | announce _ | hangUpSilent _ | hangUp _ | deliver _ =>
        simp only [Function.update_apply] at hand
        split at hand
        · cases hand
        · exact Or.inl (.hand hand)
    | _ => exact Or.inl (.hand hand)
  -- It is in the waiter's channel.
  · cases h with
    | deliver ha =>
        simp only [Function.update_apply] at box
        split at box
        · rename_i hw
          rw [hw, ← Option.some.inj box]
          exact Or.inl (.hand ha)
        · exact Or.inl (.box box)
    | arrive _ | leave _ | discard | meet _ _ =>
        simp only [Function.update_apply] at box
        split at box
        · cases box
        · exact Or.inl (.box box)
    | _ => exact Or.inl (.box box)
  -- They have met.
  · cases h with
    | meet _ hb =>
        simp only [Function.update_apply] at met
        split at met
        · rename_i hw
          cases met
          rw [hw]
          exact Or.inl (.box hb)
        · exact Or.inl (.met met)
    | arrive _ | offer _ | leave _ | retire _ =>
        simp only [Function.update_apply] at met
        split at met
        · cases met
        · exact Or.inl (.met met)
    | _ => exact Or.inl (.met met)

/-- A socket takes a sender by looking up the key that it has announced. -/
theorem Step.newly_taken (h : Step r e r') (ht : Taken r' w s) :
    Taken r w s ∨ ∃ k, r.socket s = .announced k ∧ r'.socket s = .holding k w := by
  obtain ht | ⟨rfl, -⟩ := h.taken ht
  · exact Or.inl ht
  · cases h with
    | take ha _ => exact Or.inr ⟨_, ha, Function.update_self ..⟩

theorem Step.offered (h : Step r e r') (hw : (r.waiter w).offered? = some k) :
    (r'.waiter w).offered? = some k := by
  cases h with
  | arrive ha | offer ha | leave ha | retire ha | meet ha _ =>
      rename_i v _
      simp only [Function.update_apply]
      split
      · rename_i hv
        rw [hv, ha] at hw
        first | exact hw | cases hw
      · exact hw
  | _ => exact hw

/-- A waiter that has just left its sender in the table is listed there. -/
theorem Step.newly_offered (h : Step r e r') (hw : (r'.waiter w).offered? = some k) :
    (r.waiter w).offered? = some k ∨ r'.table k = some w := by
  cases h with
  | @offer v _ ha =>
      simp only [Function.update_apply] at hw ⊢
      split at hw
      · rename_i hv
        rw [hv, if_pos (Option.some.inj hw).symm]
        exact Or.inr rfl
      · exact Or.inl hw
  | arrive ha =>
      simp only [Function.update_apply] at hw
      split at hw
      · cases hw
      · exact Or.inl hw
  | leave ha | retire ha | meet ha _ =>
      simp only [Function.update_apply] at hw
      split at hw
      · rename_i hv
        rw [hv, ha]
        exact Or.inl hw
      · exact Or.inl hw
  | _ => exact Or.inl hw

theorem Step.offers (h : Step r (.offer w k) r') : (r'.waiter w).offered? = some k := by
  cases h
  simp only [Function.update_self]
  rfl

theorem Step.looked (h : Step r e r') (hs : (r.socket s).looked? = some k) :
    (r'.socket s).looked? = some k := by
  cases h with
  | announce ha | take ha _ | hangUpSilent ha | deliver ha =>
      simp only [Function.update_apply]
      split
      · rename_i hv
        rw [hv, ha] at hs
        first | exact hs | cases hs
      · exact hs
  | hangUp ha =>
      simp only [Function.update_apply]
      split
      · rename_i hv
        obtain ha | ⟨_, ha⟩ := ha
        · rw [hv, ha] at hs
          cases hs
        · rw [hv, ha] at hs
          exact hs
      · exact hs
  | _ => exact hs

/-! ## A sender is in one place at a time -/

/-- Every waiter is handed one socket at most, and the one that asked for its key. -/
structure Exclusive (r : Rendezvous Key Waiter Socket) : Prop where
  /-- An entry is under its waiter's key, and its sender has not been taken. -/
  entry : ∀ k w, r.table k = some w →
    (r.waiter w).offered? = some k ∧ ∀ s, ¬Taken r w s
  /-- A sender is taken by a socket that looked up its waiter's key. -/
  taken : ∀ w s, Taken r w s →
    ∃ k, (r.waiter w).offered? = some k ∧ (r.socket s).looked? = some k
  socket : ∀ w s s', Taken r w s → Taken r w s' → s = s'
  waiter : ∀ w w' s, Taken r w s → Taken r w' s → w = w'

omit [DecidableEq Key] [DecidableEq Waiter] [DecidableEq Socket] in
/-- A rendezvous that nobody has come to. -/
theorem Exclusive.of_empty (ht : ∀ k, r.table k = none) (hw : ∀ w, r.waiter w = .absent)
    (hb : ∀ w, r.box w = none) (hs : ∀ s, r.socket s = .silent) : Exclusive r := by
  have hn : ∀ w s, ¬Taken r w s := by
    rintro w s (hand | box | met)
    · rw [hs] at hand
      cases hand
    · rw [hb] at box
      cases box
    · rw [hw] at met
      cases met
  constructor
  case entry =>
    intro k w hk
    rw [ht] at hk
    cases hk
  case taken =>
    exact fun w s h => absurd h (hn w s)
  case socket =>
    exact fun w s _ h => absurd h (hn w s)
  case waiter =>
    exact fun w _ s h => absurd h (hn w s)

theorem Exclusive.step (hi : Exclusive r) (h : Step r e r') : Exclusive r' := by
  -- Nobody takes a waiter that has not offered itself.
  have hnone : ∀ w, (r.waiter w).offered? = none → ∀ s, ¬Taken r w s := by
    intro w hw s ht
    obtain ⟨k, hk, _⟩ := hi.taken w s ht
    rw [hw] at hk
    cases hk
  -- A socket that has looked nobody up takes nobody.
  have hfresh : ∀ s, (r.socket s).looked? = none → ∀ w, ¬Taken r w s := by
    intro s hs w ht
    obtain ⟨k, _, hk⟩ := hi.taken w s ht
    rw [hs] at hk
    cases hk
  constructor
  case entry =>
    intro k w hk
    obtain ht | ⟨rfl, ha⟩ := h.table hk
    · obtain ⟨hw, hn⟩ := hi.entry k w ht
      refine ⟨h.offered hw, fun s hs => ?_⟩
      obtain hs | ⟨rfl, _⟩ := h.taken hs
      · exact hn s hs
      -- the entry that is taken is the one under the waiter's key
      · cases h with
        | take _ hk' =>
            have hkk := hw.symm.trans (hi.entry _ w hk').1
            rw [Option.some.inj hkk] at hk
            simp only [Function.update_self] at hk
            cases hk
    -- The entry is the waiter's own offer, and nobody can have taken it before.
    · refine ⟨h.offers, fun s hs => ?_⟩
      obtain hs | ⟨he, _⟩ := h.taken hs
      · exact hnone w (by rw [ha]; rfl) s hs
      · cases he
  case taken =>
    intro w s ht
    obtain ht | ⟨rfl, k, hs, hk⟩ := h.taken ht
    · obtain ⟨k, hw, hs⟩ := hi.taken w s ht
      exact ⟨k, h.offered hw, h.looked hs⟩
    · have hs' : (r'.socket s).looked? = some k := by
        cases h with
        | take ha _ =>
            rw [hs] at ha
            cases ha
            simp only [Function.update_self]
            rfl
      exact ⟨k, h.offered (hi.entry k w hk).1, hs'⟩
  case socket =>
    intro w s s' ht ht'
    obtain ht | ⟨rfl, k, hs, hk⟩ := h.taken ht
    -- A waiter that has been taken is not in the table, to be taken again.
    · obtain ht' | ⟨_, k, _, hk⟩ := h.taken ht'
      · exact hi.socket w s s' ht ht'
      · exact absurd ht ((hi.entry k w hk).2 s)
    · obtain ht' | ⟨he, _⟩ := h.taken ht'
      · exact absurd ht' ((hi.entry k w hk).2 s')
      · cases he
        rfl
  case waiter =>
    intro w w' s ht ht'
    obtain ht | ⟨rfl, k, hs, hk⟩ := h.taken ht
    -- A socket that has a sender takes no other.
    · obtain ht' | ⟨_, k, hs, _⟩ := h.taken ht'
      · exact hi.waiter w w' s ht ht'
      · exact absurd ht (hfresh s (by rw [hs]; rfl) w)
    · obtain ht' | ⟨he, _⟩ := h.taken ht'
      · exact absurd ht' (hfresh s (by rw [hs]; rfl) w')
      · cases he
        rfl

/-! ## Entries of waiters that are gone -/

/-- Each entry belongs to a waiter that still waits. -/
def Tidy (r : Rendezvous Key Waiter Socket) : Prop :=
  ∀ k w, r.table k = some w → r.waiter w = .offered k

/-- No entry is left behind if no waiter gives up without taking its own out. -/
theorem Tidy.step (ht : Tidy r) (hi : Exclusive r) (h : Step r e r')
    (hleave : ∀ w, e.leaving? = some w → ∀ k, r.table k ≠ some w) : Tidy r' := by
  intro k w hk
  obtain hk' | ⟨rfl, ha⟩ := h.table hk
  -- A waiter in the table has offered itself, and the step moves another one.
  · have hw := ht k w hk'
    cases h with
    | @arrive v _ ha | @offer v _ ha =>
        have hv : w ≠ v := by
          rintro rfl
          rw [hw] at ha
          cases ha
        simp only [Function.update_of_ne hv]
        exact hw
    | @leave v _ _ =>
        have hv : w ≠ v := by
          rintro rfl
          exact hleave w rfl k hk'
        simp only [Function.update_of_ne hv]
        exact hw
    | @retire v _ ha =>
        have hv : w ≠ v := by
          rintro rfl
          rw [hw] at ha
          cases ha
          simp only [Function.update_self] at hk
          cases hk
        simp only [Function.update_of_ne hv]
        exact hw
    | @meet v _ _ _ hb =>
        have hv : w ≠ v := by
          rintro rfl
          exact (hi.entry k w hk').2 _ (.box hb)
        simp only [Function.update_of_ne hv]
        exact hw
    | _ => exact hw
  · cases h
    simp only [Function.update_self]

theorem Step.met (h : Step r e r') (hw : r.waiter w = .met k s) : r'.waiter w = .met k s := by
  cases h with
  | arrive ha | offer ha | leave ha | retire ha | meet ha _ =>
      simp only [Function.update_apply]
      split
      · rename_i hv
        rw [hv, ha] at hw
        cases hw
      · exact hw
  | _ => exact hw

end Rendezvous
end Borehole.Conc
