/-
  Borehole.Conc.Relay

  A stream that is carried through buffers: connections, and the copy loops
  between them.

  A path is a sequence of buffers, the receiver's first.  Each of them keeps its
  order, may be bounded, and is ended once by whoever fills it.  A failure ends one
  early and loses what it has not passed on.

  What the receiver has got is at every time a beginning of what was sent.  As
  long as nothing fails, an end of the stream means that all of it has been
  received, and a path in which nothing can move has delivered everything.
-/

import Borehole.Conc.Lts
import Mathlib.Data.List.Infix

namespace Borehole.Conc

/-- A buffer. -/
structure Hop (α : Type) where
  items : List α
  /-- How much fits, if there is a bound. -/
  room : Option Nat
  /-- Whoever fills it has ended it. -/
  fin : Bool
  deriving DecidableEq

/-- A step of a path; `i` counts from the receiver. -/
inductive Transit (α : Type) where
  /-- The sender writes. -/
  | send (xs : List α)
  /-- The sender ends the stream. -/
  | close
  /-- `n` items pass from buffer `i + 1` to buffer `i`. -/
  | pass (i n : Nat)
  /-- The end of buffer `i + 1` is passed on to buffer `i`. -/
  | shut (i : Nat)
  /-- The receiver reads. -/
  | take (xs : List α)
  /-- The receiver finds the end of the stream. -/
  | eof
  /-- Buffer `i` is ended early and keeps its first `n` items. -/
  | cut (i n : Nat)
  deriving DecidableEq

namespace Hop

variable {α : Type}

/-- Nothing has been put into it. -/
def empty (room : Option Nat) : Hop α where
  items := []
  room := room
  fin := false

/-- `xs` at the end. -/
def put (xs : List α) (a : Hop α) : Option (Hop α) :=
  if a.fin = false ∧ ∀ n ∈ a.room, a.items.length + xs.length ≤ n then
    some { a with items := a.items ++ xs }
  else none

/-- No more will come. -/
def «end» (a : Hop α) : Option (Hop α) :=
  if a.fin = false then some { a with fin := true } else none

/-- `n` items from `b` to `a`. -/
def pass (n : Nat) (a b : Hop α) : Option (Hop α × Hop α) :=
  if 0 < n ∧ n ≤ b.items.length then
    (a.put (b.items.take n)).map fun a' => (a', { b with items := b.items.drop n })
  else none

/-- The end of `b` to `a`. -/
def shut (a b : Hop α) : Option (Hop α × Hop α) :=
  if b.fin = true ∧ b.items = [] then a.end.map fun a' => (a', b) else none

/-- `xs` off the front. -/
def take [DecidableEq α] (xs : List α) (a : Hop α) : Option (Hop α) :=
  if xs ≠ [] ∧ xs <+: a.items then some { a with items := a.items.drop xs.length } else none

/-- All but the first `n` items are lost, and no more will come. -/
def cut (n : Nat) (a : Hop α) : Hop α :=
  { a with items := a.items.take n, fin := true }

end Hop

namespace Transit

variable {α : Type}

/-- The first buffer, by `f`. -/
def atFirst (f : Hop α → Option (Hop α)) : List (Hop α) → Option (List (Hop α))
  | [] => none
  | a :: hs => (f a).map (· :: hs)

/-- The last buffer, by `f`. -/
def atLast (f : Hop α → Option (Hop α)) : List (Hop α) → Option (List (Hop α))
  | [] => none
  | [a] => (f a).map ([·])
  | a :: hs => (atLast f hs).map (a :: ·)

/-- Buffers `i` and `i + 1`, by `f`. -/
def between (f : Hop α → Hop α → Option (Hop α × Hop α)) :
    Nat → List (Hop α) → Option (List (Hop α))
  | 0, a :: b :: hs => (f a b).map fun p => p.1 :: p.2 :: hs
  | i + 1, a :: hs => (between f i hs).map (a :: ·)
  | _, _ => none

/-- Buffer `i`, by `f`. -/
def at' (f : Hop α → Hop α) : Nat → List (Hop α) → Option (List (Hop α))
  | 0, a :: hs => some (f a :: hs)
  | i + 1, a :: hs => (at' f i hs).map (a :: ·)
  | _, [] => none

/-- What a step does, where it is possible. -/
def exec [DecidableEq α] (hs : List (Hop α)) : Transit α → Option (List (Hop α))
  | .send xs => atLast (Hop.put xs) hs
  | .close => atLast Hop.end hs
  | .pass i n => between (Hop.pass n) i hs
  | .shut i => between Hop.shut i hs
  | .take xs => atFirst (Hop.take xs) hs
  | .eof => atFirst (fun a => if a.fin = true ∧ a.items = [] then some a else none) hs
  | .cut i n => at' (Hop.cut n) i hs

/-- Every order of writing, passing on, reading and failing along the path. -/
def path [DecidableEq α] (hs : List (Hop α)) : Lts (List (Hop α)) (Transit α) where
  init := hs
  step := exec

/-- What has been sent. -/
def sent (fs : List (Transit α)) : List α :=
  fs.flatMap fun
    | .send xs => xs
    | _ => []

/-- What has been received. -/
def got (fs : List (Transit α)) : List α :=
  fs.flatMap fun
    | .take xs => xs
    | _ => []

/-- Nothing has failed. -/
def Whole (fs : List (Transit α)) : Prop :=
  ∀ i n, .cut i n ∉ fs

/-- What is under way and will be received: nothing comes through a buffer that
    has been ended. -/
def live : List (Hop α) → List α
  | [] => []
  | a :: hs => a.items ++ if a.fin then [] else live hs

/-- Steps that only the path itself and its receiver take. -/
def Inner : Transit α → Prop
  | .pass _ _ | .shut _ | .take _ => True
  | _ => False

/-- What passes something on finds the next buffer empty. -/
def IntoEmpty (hs : List (Hop α)) : Transit α → Prop
  | .pass i _ | .shut i => ∀ a ∈ hs[i]?, a.items = []
  | _ => True

/-- Nothing can move: nothing is passed on into an empty buffer, and the receiver has
    read what has arrived. -/
def Still [DecidableEq α] (hs : List (Hop α)) : Prop :=
  ∀ f : Transit α, f.Inner → f.IntoEmpty hs → exec hs f = none

/-- How much is under way. -/
def load : List (Hop α) → Nat
  | [] => 0
  | a :: hs => a.items.length + load hs

/-- How many steps are left to the path: one for every buffer that an item has to
    leave, and one to end each buffer. -/
def work : List (Hop α) → Nat
  | [] => 0
  | a :: hs => a.items.length + (if a.fin then 0 else 1) + (load hs + work hs)

/-! ## The steps -/

/-- What a step does to the path. -/
inductive Step : List (Hop α) → Transit α → List (Hop α) → Prop where
  | send {l : List (Hop α)} {a : Hop α} {xs : List α} (hopen : a.fin = false) :
      Step (l ++ [a]) (.send xs) (l ++ [{ a with items := a.items ++ xs }])
  | close {l : List (Hop α)} {a : Hop α} (hopen : a.fin = false) :
      Step (l ++ [a]) .close (l ++ [{ a with fin := true }])
  | pass {l r : List (Hop α)} {a b : Hop α} {xs ys : List α} (hopen : a.fin = false)
      (hb : b.items = xs ++ ys) (hxs : xs ≠ []) :
      Step (l ++ a :: b :: r) (.pass l.length xs.length)
        (l ++ { a with items := a.items ++ xs } :: { b with items := ys } :: r)
  | shut {l r : List (Hop α)} {a b : Hop α} (hopen : a.fin = false) (hfin : b.fin = true)
      (hb : b.items = []) :
      Step (l ++ a :: b :: r) (.shut l.length) (l ++ { a with fin := true } :: b :: r)
  | take {r : List (Hop α)} {a : Hop α} {xs ys : List α} (ha : a.items = xs ++ ys)
      (hxs : xs ≠ []) :
      Step (a :: r) (.take xs) ({ a with items := ys } :: r)
  | eof {r : List (Hop α)} {a : Hop α} (hfin : a.fin = true) (ha : a.items = []) :
      Step (a :: r) .eof (a :: r)
  | cut {l r : List (Hop α)} {a : Hop α} {n : Nat} :
      Step (l ++ a :: r) (.cut l.length n) (l ++ a.cut n :: r)

section Steps

variable {hs hs' l r : List (Hop α)} {a a' b : Hop α} {i n : Nat} {xs : List α} {f : Transit α}

theorem atFirst_some {g : Hop α → Option (Hop α)} (h : atFirst g hs = some hs') :
    ∃ a a' r, g a = some a' ∧ hs = a :: r ∧ hs' = a' :: r := by
  cases hs with
  | nil => cases h
  | cons a r =>
      obtain ⟨a', ha, rfl⟩ := Option.map_eq_some_iff.mp h
      exact ⟨a, a', r, ha, rfl, rfl⟩

theorem atLast_some {g : Hop α → Option (Hop α)} (h : atLast g hs = some hs') :
    ∃ l a a', g a = some a' ∧ hs = l ++ [a] ∧ hs' = l ++ [a'] := by
  induction hs generalizing hs' with
  | nil => cases h
  | cons a r ih =>
      cases r with
      | nil =>
          obtain ⟨a', ha, rfl⟩ := Option.map_eq_some_iff.mp h
          exact ⟨[], a, a', ha, rfl, rfl⟩
      | cons b r =>
          obtain ⟨r', hr, rfl⟩ := Option.map_eq_some_iff.mp h
          obtain ⟨l, c, c', hc, hl, rfl⟩ := ih hr
          exact ⟨a :: l, c, c', hc, congrArg (a :: ·) hl, rfl⟩

theorem between_append (g : Hop α → Hop α → Option (Hop α × Hop α)) :
    between g l.length (l ++ a :: b :: r) = (g a b).map fun p => l ++ p.1 :: p.2 :: r := by
  induction l with
  | nil => rfl
  | cons c l ih =>
      rw [List.length_cons, List.cons_append, between, ih, Option.map_map]
      rfl

theorem between_some {g : Hop α → Hop α → Option (Hop α × Hop α)}
    (h : between g i hs = some hs') :
    ∃ l a b r p, g a b = some p ∧ i = l.length ∧ hs = l ++ a :: b :: r ∧
      hs' = l ++ p.1 :: p.2 :: r := by
  induction hs generalizing i hs' with
  | nil => cases i <;> cases h
  | cons a r ih =>
      cases i with
      | zero =>
          cases r with
          | nil => cases h
          | cons b r =>
              obtain ⟨p, hp, rfl⟩ := Option.map_eq_some_iff.mp h
              exact ⟨[], a, b, r, p, hp, rfl, rfl, rfl⟩
      | succ i =>
          obtain ⟨r', hr, rfl⟩ := Option.map_eq_some_iff.mp h
          obtain ⟨l, c, d, s, p, hp, rfl, rfl, rfl⟩ := ih hr
          exact ⟨a :: l, c, d, s, p, hp, rfl, rfl, rfl⟩

theorem at_some {g : Hop α → Hop α} (h : at' g i hs = some hs') :
    ∃ l a r, i = l.length ∧ hs = l ++ a :: r ∧ hs' = l ++ g a :: r := by
  induction hs generalizing i hs' with
  | nil => cases i <;> cases h
  | cons a r ih =>
      cases i with
      | zero =>
          cases h
          exact ⟨[], a, r, rfl, rfl, rfl⟩
      | succ i =>
          obtain ⟨r', hr, rfl⟩ := Option.map_eq_some_iff.mp h
          obtain ⟨l, c, s, rfl, rfl, rfl⟩ := ih hr
          exact ⟨a :: l, c, s, rfl, rfl, rfl⟩

theorem put_some (h : a.put xs = some a') :
    a.fin = false ∧ a' = { a with items := a.items ++ xs } := by
  obtain ⟨⟨hopen, _⟩, ha⟩ := Option.ite_none_right_eq_some.mp h
  exact ⟨hopen, (Option.some.inj ha).symm⟩

theorem end_some (h : a.end = some a') : a.fin = false ∧ a' = { a with fin := true } := by
  obtain ⟨hopen, ha⟩ := Option.ite_none_right_eq_some.mp h
  exact ⟨hopen, (Option.some.inj ha).symm⟩

variable [DecidableEq α]

theorem exec_step (h : exec hs f = some hs') : Step hs f hs' := by
  cases f with
  | send xs =>
      obtain ⟨l, a, a', ha, rfl, rfl⟩ := atLast_some h
      obtain ⟨hopen, rfl⟩ := put_some ha
      exact .send hopen
  | close =>
      obtain ⟨l, a, a', ha, rfl, rfl⟩ := atLast_some h
      obtain ⟨hopen, rfl⟩ := end_some ha
      exact .close hopen
  | pass i n =>
      obtain ⟨l, a, b, r, p, hp, rfl, rfl, rfl⟩ := between_some h
      obtain ⟨⟨hn, hle⟩, hp⟩ := Option.ite_none_right_eq_some.mp hp
      obtain ⟨a', ha, rfl⟩ := Option.map_eq_some_iff.mp hp
      obtain ⟨hopen, rfl⟩ := put_some ha
      have hlen : (b.items.take n).length = n := List.length_take_of_le hle
      have hne : b.items.take n ≠ [] := List.ne_nil_of_length_pos (by omega)
      have hstep := Step.pass (l := l) (r := r) hopen (List.take_append_drop n b.items).symm hne
      rwa [hlen] at hstep
  | shut i =>
      obtain ⟨l, a, b, r, p, hp, rfl, rfl, rfl⟩ := between_some h
      obtain ⟨⟨hfin, hb⟩, hp⟩ := Option.ite_none_right_eq_some.mp hp
      obtain ⟨a', ha, rfl⟩ := Option.map_eq_some_iff.mp hp
      obtain ⟨hopen, rfl⟩ := end_some ha
      exact .shut hopen hfin hb
  | take xs =>
      obtain ⟨a, a', r, ha, rfl, rfl⟩ := atFirst_some h
      obtain ⟨⟨hne, ys, hys⟩, ha⟩ := Option.ite_none_right_eq_some.mp ha
      rw [← Option.some.inj ha, ← hys, List.drop_left]
      exact .take hys.symm hne
  | eof =>
      obtain ⟨a, a', r, ha, rfl, rfl⟩ := atFirst_some h
      obtain ⟨⟨hfin, hi⟩, ha⟩ := Option.ite_none_right_eq_some.mp ha
      rw [← Option.some.inj ha]
      exact .eof hfin hi
  | cut i n =>
      obtain ⟨l, a, r, rfl, rfl, rfl⟩ := at_some h
      exact .cut

end Steps

/-! ## What arrives -/

section Arrives

variable {hs hs' l r : List (Hop α)} {a b : Hop α} {fs : List (Transit α)} {f : Transit α}

theorem sent_snoc : sent (fs ++ [f]) = sent fs ++ match f with | .send xs => xs | _ => [] := by
  rw [sent, List.flatMap_append, List.flatMap_singleton]
  rfl

theorem got_snoc : got (fs ++ [f]) = got fs ++ match f with | .take xs => xs | _ => [] := by
  rw [got, List.flatMap_append, List.flatMap_singleton]
  rfl

theorem live_append : live (l ++ r) = live l ++ if l.any Hop.fin then [] else live r := by
  induction l with
  | nil => rfl
  | cons a l ih =>
      rw [List.cons_append, live, live, ih, List.any_cons]
      cases a.fin <;> simp

theorem live_singleton : live [a] = a.items := by
  rw [live, live, ite_self, List.append_nil]

theorem live_put {xs : List α} : live (l ++ [{ a with items := a.items ++ xs }]) =
    live (l ++ [a]) ++ if l.any Hop.fin then [] else xs := by
  rw [live_append, live_append, live_singleton, live_singleton]
  split
  · rw [List.append_nil, List.append_nil]
  · rw [List.append_assoc]

/-- No buffer is opened again. -/
theorem Step.opens (h : Step hs f hs') (hall : ∀ a ∈ hs', a.fin = false) :
    ∀ a ∈ hs, a.fin = false := by
  cases h with
  | send | pass | take =>
      simp only [List.forall_mem_append, List.forall_mem_cons] at hall ⊢
      exact hall
  | @close l a _ => cases hall { a with fin := true } (by simp)
  | @shut l r a b _ _ _ => cases hall { a with fin := true } (by simp)
  | eof => exact hall
  | @cut l r a n => cases hall (a.cut n) (by simp)

/-- Passing on, reading and ending a stream neither loses nor adds anything. -/
theorem Step.conserved (h : Step hs f hs') (hsend : ∀ xs, f ≠ .send xs)
    (hcut : ∀ i n, f ≠ .cut i n) :
    got (fs ++ [f]) ++ live hs' = got fs ++ live hs ∧ sent (fs ++ [f]) = sent fs := by
  rw [sent_snoc, got_snoc]
  cases h with
  | send => exact absurd rfl (hsend _)
  | cut => exact absurd rfl (hcut _ _)
  | @close l a hopen =>
      rw [List.append_nil, List.append_nil, live_append, live_append, live_singleton,
        live_singleton]
      exact ⟨rfl, rfl⟩
  | @pass l r a b xs ys hopen hb hxs =>
      have hlive : live ({ a with items := a.items ++ xs } :: { b with items := ys } :: r) =
          live (a :: b :: r) := by
        simp [live, hopen, hb]
      rw [List.append_nil, List.append_nil, live_append, live_append, hlive]
      exact ⟨rfl, rfl⟩
  | @shut l r a b hopen hfin hb =>
      have hlive : live ({ a with fin := true } :: b :: r) = live (a :: b :: r) := by
        simp [live, hopen, hfin, hb]
      rw [List.append_nil, List.append_nil, live_append, live_append, hlive]
      exact ⟨rfl, rfl⟩
  | @take r a xs ys ha hxs =>
      rw [List.append_nil, live, live, ha, List.append_assoc, List.append_assoc]
      exact ⟨rfl, rfl⟩
  | eof =>
      rw [List.append_nil, List.append_nil]
      exact ⟨rfl, rfl⟩

/-- What is under way follows, in order, what has been received; all of it, as
    long as no buffer has been ended. -/
structure Carries (fs : List (Transit α)) (hs : List (Hop α)) : Prop where
  begins : got fs ++ live hs <+: sent fs
  all : (∀ a ∈ hs, a.fin = false) → got fs ++ live hs = sent fs

theorem Carries.send {xs : List α} (hc : Carries fs (l ++ [a])) (hopen : a.fin = false) :
    Carries (fs ++ [.send xs]) (l ++ [{ a with items := a.items ++ xs }]) := by
  have hsent : sent (fs ++ [.send xs]) = sent fs ++ xs := sent_snoc
  have hgot : got (fs ++ [.send xs]) = got fs ++ [] := got_snoc
  by_cases hl : l.any Hop.fin = true
  · -- what is sent now is stuck behind a failure
    obtain ⟨b, hb, hfin⟩ := List.any_eq_true.mp hl
    constructor
    · rw [hsent, hgot, live_put, if_pos hl, List.append_nil, List.append_nil]
      exact hc.begins.trans (List.prefix_append _ _)
    · intro hall
      rw [hall b (List.mem_append_left _ hb)] at hfin
      cases hfin
  · have hall : ∀ b ∈ l ++ [a], b.fin = false := by
      intro b hb
      rcases List.mem_append.mp hb with hb | hb
      · exact Bool.eq_false_iff.mpr fun hfin => hl (List.any_eq_true.mpr ⟨b, hb, hfin⟩)
      · rw [List.mem_singleton.mp hb]
        exact hopen
    have hnew : got (fs ++ [.send xs]) ++ live (l ++ [{ a with items := a.items ++ xs }]) =
        sent (fs ++ [.send xs]) := by
      rw [hsent, hgot, List.append_nil, live_put, if_neg hl, ← List.append_assoc, hc.all hall]
    exact ⟨by rw [hnew], fun _ => hnew⟩

theorem Carries.cut {n : Nat} (hc : Carries fs (l ++ a :: r)) :
    Carries (fs ++ [.cut l.length n]) (l ++ a.cut n :: r) := by
  constructor
  · rw [sent_snoc, got_snoc, List.append_nil, List.append_nil]
    apply List.IsPrefix.trans _ hc.begins
    rw [live_append, live_append, List.prefix_append_right_inj, List.prefix_append_right_inj]
    split
    · exact List.prefix_rfl
    · show a.items.take n ++ [] <+: a.items ++ _
      rw [List.append_nil]
      exact (List.take_prefix _ _).trans (List.prefix_append _ _)
  · intro hall
    cases hall (a.cut n) (by simp)

theorem Carries.step (hc : Carries fs hs) (h : Step hs f hs') : Carries (fs ++ [f]) hs' := by
  by_cases hsend : ∃ xs, f = .send xs
  · obtain ⟨xs, rfl⟩ := hsend
    cases h with
    | send hopen => exact hc.send hopen
  by_cases hcut : ∃ i n, f = .cut i n
  · obtain ⟨i, n, rfl⟩ := hcut
    cases h with
    | cut => exact hc.cut
  have hkeeps : got (fs ++ [f]) ++ live hs' = got fs ++ live hs ∧ sent (fs ++ [f]) = sent fs :=
    h.conserved (fun xs he => hsend ⟨xs, he⟩) fun i n he => hcut ⟨i, n, he⟩
  obtain ⟨hlive, hsent⟩ := hkeeps
  constructor
  · rw [hlive, hsent]
    exact hc.begins
  · intro hall
    rw [hlive, hsent]
    exact hc.all (h.opens hall)

/-! ## Runs without a failure -/

/-- A buffer is ended only after those behind it, and once they are empty. -/
def Tight (hs : List (Hop α)) : Prop :=
  hs.Pairwise fun a b => a.fin = true → b.fin = true ∧ b.items = []

theorem Tight.open (ht : Tight (l ++ [a])) (hopen : a.fin = false) :
    ∀ b ∈ l ++ [a], b.fin = false := by
  intro b hb
  rcases List.mem_append.mp hb with hb | hb
  · by_contra hfin
    have hlast := (List.pairwise_append.mp ht).2.2 b hb a (List.mem_singleton.mpr rfl)
      (Bool.not_eq_false _ ▸ hfin)
    rw [hopen] at hlast
    cases hlast.1
  · rw [List.mem_singleton.mp hb]
    exact hopen

theorem Tight.step (ht : Tight hs) (h : Step hs f hs') (hcut : ∀ i n, f ≠ .cut i n) :
    Tight hs' := by
  cases h with
  | @send l a xs hopen =>
      have hall := ht.open hopen
      apply List.pairwise_append.mpr
      refine ⟨(List.pairwise_append.mp ht).1, List.pairwise_singleton _ _, ?_⟩
      intro b hb c _ hfin
      rw [hall b (List.mem_append_left _ hb)] at hfin
      cases hfin
  | @close l a hopen =>
      have hall := ht.open hopen
      apply List.pairwise_append.mpr
      refine ⟨(List.pairwise_append.mp ht).1, List.pairwise_singleton _ _, ?_⟩
      intro b hb c _ hfin
      rw [hall b (List.mem_append_left _ hb)] at hfin
      cases hfin
  | @pass l r a b xs ys hopen hb hxs =>
      simp only [Tight, List.pairwise_append, List.pairwise_cons, List.forall_mem_cons] at ht ⊢
      grind
  | @shut l r a b hopen hfin hb =>
      simp only [Tight, List.pairwise_append, List.pairwise_cons, List.forall_mem_cons] at ht ⊢
      grind
  | @take r a xs ys ha hxs =>
      exact List.pairwise_cons.mpr (List.pairwise_cons.mp ht)
  | eof hfin ha => exact ht
  | cut => exact absurd rfl (hcut _ _)

/-- What there is to a path in which nothing has failed. -/
structure Intact (fs : List (Transit α)) (hs : List (Hop α)) : Prop where
  all : got fs ++ live hs = sent fs
  tight : Tight hs
  closed : ∀ a ∈ hs, a.fin = true → .close ∈ fs
  last : .close ∈ fs → ∀ a ∈ hs.getLast?, a.fin = true
  ended : .eof ∈ fs → .close ∈ fs ∧ ∀ a ∈ hs, a.fin = true ∧ a.items = []

theorem Step.closed (h : Step hs f hs') (hcut : ∀ i n, f ≠ .cut i n)
    (hc : ∀ a ∈ hs, a.fin = true → .close ∈ fs) : ∀ a ∈ hs', a.fin = true → .close ∈ fs ++ [f] := by
  have hold : .close ∈ fs → .close ∈ fs ++ [f] := List.mem_append_left _
  cases h with
  | close => simp
  | cut => exact absurd rfl (hcut _ _)
  | send | pass | take | eof | shut => grind

theorem Step.last (h : Step hs f hs') (hcut : ∀ i n, f ≠ .cut i n)
    (hl : .close ∈ fs → ∀ a ∈ hs.getLast?, a.fin = true) :
    .close ∈ fs ++ [f] → ∀ a ∈ hs'.getLast?, a.fin = true := by
  cases h with
  | cut => exact absurd rfl (hcut _ _)
  | close => simp
  | send hopen => simp_all
  | @pass l r a b =>
      cases r <;> simp_all
  | @shut l r a b =>
      cases r <;> simp_all
  | @take r a => cases r <;> simp_all
  | eof => simp_all

theorem Step.ended (h : Step hs f hs') (ht : Tight hs) (hcut : ∀ i n, f ≠ .cut i n)
    (hc : ∀ a ∈ hs, a.fin = true → .close ∈ fs)
    (he : .eof ∈ fs → .close ∈ fs ∧ ∀ a ∈ hs, a.fin = true ∧ a.items = []) :
    .eof ∈ fs ++ [f] → .close ∈ fs ++ [f] ∧ ∀ a ∈ hs', a.fin = true ∧ a.items = [] := by
  intro heof
  rcases List.mem_append.mp heof with hmem | hmem
  · -- once the stream is over only its end can be found again
    obtain ⟨hclose, hall⟩ := he hmem
    have hfins : ∀ a ∈ hs, ¬ a.fin = false := fun a ha => by simp [(hall a ha).1]
    refine ⟨List.mem_append_left _ hclose, ?_⟩
    cases h with
    | @send l a _ hopen => exact absurd hopen (hfins a (by simp))
    | @close l a hopen => exact absurd hopen (hfins a (by simp))
    | @pass l r a _ _ _ hopen _ _ => exact absurd hopen (hfins a (by simp))
    | @shut l r a _ hopen _ _ => exact absurd hopen (hfins a (by simp))
    | @take r a xs ys ha hxs =>
        rw [(hall a (by simp)).2] at ha
        exact absurd (List.append_eq_nil_iff.mp ha.symm).1 hxs
    | eof => exact hall
    | cut => exact absurd rfl (hcut _ _)
  · cases List.mem_singleton.mp hmem
    cases h with
    | @eof r a hfin ha =>
        refine ⟨List.mem_append_left _ (hc a (by simp) hfin), ?_⟩
        intro b hb
        rcases List.mem_cons.mp hb with rfl | hb
        · exact ⟨hfin, ha⟩
        · exact (List.pairwise_cons.mp ht).1 b hb hfin

theorem Intact.step (hi : Intact fs hs) (h : Step hs f hs') (hcut : ∀ i n, f ≠ .cut i n) :
    Intact (fs ++ [f]) hs' where
  all := by
    by_cases hsend : ∃ xs, f = .send xs
    · obtain ⟨xs, rfl⟩ := hsend
      cases h with
      | @send l a _ hopen =>
          have hany : ¬ l.any Hop.fin = true := by
            intro hl
            obtain ⟨b, hb, hfin⟩ := List.any_eq_true.mp hl
            rw [hi.tight.open hopen b (List.mem_append_left _ hb)] at hfin
            cases hfin
          rw [sent_snoc, got_snoc, List.append_nil, live_put, if_neg hany, ← List.append_assoc,
            hi.all]
    · obtain ⟨hlive, hsent⟩ := h.conserved (fun xs he => hsend ⟨xs, he⟩) hcut
      rw [hlive, hsent, hi.all]
  tight := hi.tight.step h hcut
  closed := h.closed hcut hi.closed
  last := h.last hcut hi.last
  ended := h.ended hi.tight hcut hi.closed hi.ended

theorem live_empty (h : ∀ a ∈ hs, a.items = []) : live hs = [] := by
  induction hs with
  | nil => rfl
  | cons a hs ih =>
      obtain ⟨ha, hs⟩ := List.forall_mem_cons.mp h
      rw [live, ha, ih hs, ite_self, List.append_nil]

/-- The receiver finds the end of the stream only when it has received all that
    was sent, and nothing is sent any more. -/
theorem Intact.complete (hi : Intact fs hs) (heof : .eof ∈ fs) :
    got fs = sent fs ∧ .close ∈ fs := by
  obtain ⟨hclose, hall⟩ := hi.ended heof
  refine ⟨?_, hclose⟩
  have hlive : live hs = [] := live_empty fun a ha => (hall a ha).2
  rw [← hi.all, hlive, List.append_nil]

/-- Buffers keep their size. -/
theorem Step.room (h : Step hs f hs') : hs'.map Hop.room = hs.map Hop.room := by
  cases h <;> simp [Hop.cut]

end Arrives

/-! ## Paths in which nothing moves -/

section Stops

variable {hs hs' l r r' : List (Hop α)} {a b : Hop α} {fs : List (Transit α)} {f : Transit α}

theorem load_append : load (l ++ r) = load l + load r := by
  induction l with
  | nil => simp [load]
  | cons a l ih => rw [List.cons_append, load, load, ih, Nat.add_assoc]

theorem work_append_lt (hload : load r' ≤ load r) (hwork : work r' < work r) :
    work (l ++ r') < work (l ++ r) := by
  induction l with
  | nil => exact hwork
  | cons a l ih =>
      rw [List.cons_append, List.cons_append, work, work, load_append, load_append]
      omega

/-- The path cannot go on by itself forever. -/
theorem Step.work_lt (h : Step hs f hs') (hf : f.Inner) : work hs' < work hs := by
  cases h with
  | @pass l r a b xs ys hopen hb hxs =>
      have hpos : 0 < xs.length := List.length_pos_iff.mpr hxs
      apply work_append_lt
      · simp only [load, hb, List.length_append]
        omega
      · simp only [work, load, hb, List.length_append]
        omega
  | @shut l r a b hopen hfin hb =>
      apply work_append_lt
      · exact Nat.le_refl _
      · simp only [work, load, hopen, Bool.false_eq_true, if_false, if_true]
        omega
  | @take r a xs ys ha hxs =>
      have hpos : 0 < xs.length := List.length_pos_iff.mpr hxs
      simp only [work, ha, List.length_append]
      omega
  | send | close | eof | cut => exact hf.elim

theorem at_length (ha : a.items = []) : ∀ c ∈ (l ++ a :: r)[l.length]?, c.items = [] := by
  intro c hc
  rw [List.getElem?_append_right (Nat.le_refl _), Nat.sub_self] at hc
  rw [← Option.some.inj hc]
  exact ha

variable [DecidableEq α]

theorem Still.first (hstill : Still (a :: r)) : a.items = [] := by
  by_contra hne
  have hnone := hstill (.take a.items) trivial trivial
  rw [exec, atFirst, Hop.take, if_pos ⟨hne, List.prefix_rfl⟩] at hnone
  cases hnone

theorem Still.next (hstill : Still (l ++ a :: b :: r)) (ht : Tight (l ++ a :: b :: r))
    (hroom : ∀ n ∈ a.room, 0 < n) (ha : a.items = []) : b.items = [] := by
  have htight := (List.pairwise_cons.mp (List.pairwise_append.mp ht).2.1).1 b (by simp)
  cases hfin : a.fin with
  | true => exact (htight hfin).2
  | false =>
      -- there is room for an item in `a`
      by_contra hne
      have hpos : 1 ≤ b.items.length := List.length_pos_iff.mpr hne
      have hput : a.fin = false ∧ ∀ n ∈ a.room, a.items.length + (b.items.take 1).length ≤ n := by
        rw [ha, List.length_take_of_le hpos]
        exact ⟨hfin, hroom⟩
      have hnone := hstill (.pass l.length 1) trivial (at_length ha)
      rw [exec, between_append, Hop.pass, if_pos ⟨Nat.one_pos, hpos⟩, Hop.put, if_pos hput] at hnone
      cases hnone

theorem Still.ends (hstill : Still (l ++ a :: b :: r)) (hb : b.fin = true) (hi : b.items = [])
    (ha : a.items = []) : a.fin = true := by
  by_contra hopen
  have hend : a.fin = false := by simpa using hopen
  have hnone := hstill (.shut l.length) trivial (at_length ha)
  rw [exec, between_append, Hop.shut, if_pos ⟨hb, hi⟩, Hop.end, if_pos hend] at hnone
  cases hnone

theorem Still.empty (hstill : Still hs) (ht : Tight hs)
    (hroom : ∀ a ∈ hs, ∀ n ∈ a.room, 0 < n) :
    ∀ a ∈ hs, a.items = [] := by
  have hall : ∀ l a r, hs = l ++ a :: r → a.items = [] := by
    intro l
    induction l using List.reverseRecOn with
    | nil =>
        rintro a r rfl
        exact hstill.first
    | append_singleton l b ih =>
        rintro a r he
        rw [List.append_assoc, List.singleton_append] at he
        have hb : b.items = [] := ih b (a :: r) he
        rw [he] at hstill ht hroom
        exact hstill.next ht (hroom b (by simp)) hb
  intro a ha
  obtain ⟨l, r, rfl⟩ := List.append_of_mem ha
  exact hall l a r rfl

end Stops

/-! ## Runs -/

section Runs

variable [DecidableEq α] {new hs hs' : List (Hop α)} {fs : List (Transit α)} {f : Transit α}

end Runs

end Transit
end Borehole.Conc
