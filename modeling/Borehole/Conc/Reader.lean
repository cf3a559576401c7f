/-
  Borehole.Conc.Reader

  A process that reads a stream, one item after another, in a loop.

  An item that the process does not want is read and leaves the state as it was.
  So the run without such reads leads to the same state, and the loop goes on until
  a read finds no item.
-/

import Borehole.Conc.Lts

namespace Borehole.Conc

/-- A loop that reads, in a transition system. -/
structure Reader {State Label : Type} (L : Lts State Label) (Item : Type) where
  /-- What a label of the loop reads: `none` where the stream has no item. -/
  read? : Label → Option (Option Item)
  /-- The items that the loop acts on. -/
  wanted : Item → Bool
  /-- The process is there. -/
  At : State → Prop
  /-- The loop goes on. -/
  Up : State → Prop
  at_step : ∀ {s l s'}, At s → L.step s l = some s' → At s'
  up_step : ∀ {s l s'}, Up s → L.step s l = some s' → read? l ≠ some none → Up s'
  skip : ∀ {s l s' item}, At s → L.step s l = some s' → read? l = some (some item) →
    wanted item = false → s' = s

namespace Reader

variable {State Label Item : Type} {L : Lts State Label} (R : Reader L Item)

/-- What is read in a run. -/
def reads (ls : List Label) : List (Option Item) :=
  ls.filterMap R.read?

/-- A read that the loop acts on. -/
def keeps : Option Item → Bool
  | none => true
  | some item => R.wanted item

/-- A run without the reads of what is not wanted. -/
def kept (ls : List Label) : List Label :=
  ls.filter fun l => (R.read? l).all R.keeps

/-- From `s`, the loop is left only after more than `n` reads, and with what is not
    wanted taken out of a run and of what it reads, it is a run to the same state. -/
def Skips (s : State) (fed fed' : List (Option Item) → Prop) (n : Nat) : Prop :=
  ∀ ls s', L.runFrom s ls = some s' → fed (R.reads ls) →
    (¬ R.Up s' → n < (R.reads ls).length) ∧
      L.runFrom s (R.kept ls) = some s' ∧ fed' (R.reads (R.kept ls))

/-- The reads are the first of these results, and then there is no item any more. -/
def Fed (results reads : List (Option Item)) : Prop :=
  ∃ k, reads <+: results ++ List.replicate k none

variable {R} {s s' : State} {ls : List Label} {results : List (Option Item)}

theorem reads_kept : R.reads (R.kept ls) = (R.reads ls).filter R.keeps := by
  rw [reads, reads, kept, List.filterMap_filter, List.filter_filterMap]
  congr 1
  funext l
  cases h : R.read? l with
  | none => rfl
  | some item => by_cases hk : R.keeps item <;> simp [Option.filter, hk]

/-- The loop goes on as long as there is an item. -/
theorem up_run (hup : R.Up s) (h : L.runFrom s ls = some s') (hitem : none ∉ R.reads ls) :
    R.Up s' := by
  induction ls generalizing s with
  | nil =>
      rw [← Option.some.inj h]
      exact hup
  | cons l ls ih =>
      obtain ⟨s₁, hs, hr⟩ := Option.bind_eq_some_iff.mp h
      have hread : R.read? l ≠ some none := by
        intro hl
        exact hitem (List.mem_filterMap.mpr ⟨l, List.mem_cons_self, hl⟩)
      have hrest : none ∉ R.reads ls := by
        intro hmem
        obtain ⟨l', hl', hread'⟩ := List.mem_filterMap.mp hmem
        exact hitem (List.mem_filterMap.mpr ⟨l', List.mem_cons_of_mem _ hl', hread'⟩)
      exact ih (R.up_step hup hs hread) hr hrest

/-- What is not wanted can be left out. -/
theorem kept_run (hat : R.At s) (h : L.runFrom s ls = some s') :
    L.runFrom s (R.kept ls) = some s' := by
  induction ls generalizing s with
  | nil => exact h
  | cons l ls ih =>
      obtain ⟨s₁, hs, hr⟩ := Option.bind_eq_some_iff.mp h
      have hrest := ih (R.at_step hat hs) hr
      cases hk : (R.read? l).all R.keeps with
      | true =>
          have hcons : R.kept (l :: ls) = l :: R.kept ls := List.filter_cons_of_pos hk
          rw [hcons]
          exact Option.bind_eq_some_iff.mpr ⟨s₁, hs, hrest⟩
      | false =>
          have hcons : R.kept (l :: ls) = R.kept ls :=
            List.filter_cons_of_neg (by rw [hk]; exact Bool.false_ne_true)
          rw [hcons]
          obtain ⟨item, hread, hitem⟩ : ∃ item, R.read? l = some (some item) ∧
              R.wanted item = false := by
            cases hread : R.read? l with
            | none => simp [hread] at hk
            | some item =>
                cases item with
                | none => simp [hread, keeps] at hk
                | some item => exact ⟨item, rfl, by simpa [hread, keeps] using hk⟩
          rw [← R.skip hat hs hread hitem]
          exact hrest

theorem Fed.filter {reads : List (Option Item)} (h : Fed results reads) :
    Fed (results.filter R.keeps) (reads.filter R.keeps) := by
  obtain ⟨k, hk⟩ := h
  refine ⟨k, ?_⟩
  have hnone : (List.replicate k (none : Option Item)).filter R.keeps = List.replicate k none :=
    List.filter_eq_self.mpr fun item hitem => by rw [List.eq_of_mem_replicate hitem]; rfl
  have hfilter := hk.filter R.keeps
  rwa [List.filter_append, hnone] at hfilter

/-- Where every result is an item, the absence of one comes after all of them. -/
theorem Fed.length_lt {reads : List (Option Item)} (h : Fed results reads)
    (hitems : none ∉ results) (hnone : none ∈ reads) : results.length < reads.length := by
  obtain ⟨k, hk⟩ := h
  by_contra hlen
  have hpre : reads <+: results :=
    List.prefix_of_prefix_length_le hk (List.prefix_append _ _) (Nat.le_of_not_lt hlen)
  exact hitems (hpre.subset hnone)

/-- A loop that is fed with items skips what it does not want. -/
theorem skips_of_items (hat : R.At s) (hup : R.Up s) (hitems : none ∉ results) :
    R.Skips s (Fed results) (Fed (results.filter R.keeps)) results.length := by
  intro ls s' hr hfed
  refine ⟨fun hdown => ?_, kept_run hat hr, ?_⟩
  · refine hfed.length_lt hitems ?_
    by_contra hnone
    exact hdown (up_run hup hr hnone)
  · rw [reads_kept]
    exact hfed.filter

/-- A loop that can come back after any item and ends where there is none can read
    any items and end. -/
theorem exists_reads (hback : ∀ item, ∃ ls, L.runFrom s ls = some s ∧ R.reads ls = [some item])
    (hend : ∃ l s', L.step s l = some s' ∧ R.read? l = some none ∧ ¬ R.Up s')
    (items : List Item) : ∃ ls s', L.runFrom s ls = some s' ∧
      R.reads ls = items.map some ++ [none] ∧ ¬ R.Up s' := by
  induction items with
  | nil =>
      obtain ⟨l, s', hs, hread, hdown⟩ := hend
      refine ⟨[l], s', ?_, ?_, hdown⟩
      · rw [Lts.runFrom, hs]
        rfl
      · simp [reads, hread]
  | cons item items ih =>
      obtain ⟨ls₁, hr₁, hreads₁⟩ := hback item
      obtain ⟨ls, s', hr, hreads, hdown⟩ := ih
      refine ⟨ls₁ ++ ls, s', ?_, ?_, hdown⟩
      · rw [Lts.runFrom_append, hr₁]
        exact hr
      · rw [reads, List.filterMap_append, ← reads, ← reads, hreads₁, hreads]
        rfl

end Reader

end Borehole.Conc
