/-
  Borehole.Conc.Lifetimes

  Logs of things that open and close.

  Each thing has an id and, while it is open, a key.  A log is well formed if
  every id opens and closes at most once, closes only after it opened, and no
  two things that are open at the same time have the same key.
-/

import Mathlib.Data.List.Induction
import Mathlib.Data.List.Infix
import Mathlib.Data.List.Nodup

namespace Borehole.Conc

/-- An entry of a log: `id` opens with `key`, or closes. -/
inductive Mark (Id Key : Type) where
  | opened (id : Id) (key : Key)
  | closed (id : Id)
  deriving DecidableEq

namespace Mark

variable {Id Key : Type}

/-- The name that a mark opens. -/
def openId : Mark Id Key → Option Id
  | .opened id _ => some id
  | .closed _ => none

/-- The name that a mark closes. -/
def closeId : Mark Id Key → Option Id
  | .opened _ _ => none
  | .closed id => some id

end Mark

namespace Lifetimes

variable {Id Key : Type} [DecidableEq Id] {ms : List (Mark Id Key)} {id id' : Id} {key : Key}

/-- What is open after one more entry. -/
def after (open' : List (Id × Key)) : Mark Id Key → List (Id × Key)
  | .opened id key => open' ++ [(id, key)]
  | .closed id => open'.filter fun x => x.1 ≠ id

/-- What has opened and not closed in a log, in the order of opening. -/
def live (ms : List (Mark Id Key)) : List (Id × Key) :=
  ms.foldl after []

@[simp] theorem live_opened : live (ms ++ [.opened id key]) = live ms ++ [(id, key)] := by
  simp [live, after]

@[simp] theorem live_closed : live (ms ++ [.closed id]) = (live ms).filter fun x => x.1 ≠ id := by
  simp [live, after]

/-- An open thing stays open through entries that do not close it. -/
theorem mem_live_append {x : Id × Key} {mid : List (Mark Id Key)} (h : x ∈ live ms)
    (hmid : .closed x.1 ∉ mid) : x ∈ live (ms ++ mid) := by
  induction mid using List.reverseRecOn with
  | nil => simpa using h
  | append_singleton mid m ih =>
      rw [List.mem_append, not_or] at hmid
      rw [← List.append_assoc]
      have hx := ih hmid.1
      cases m with
      | opened id key =>
          rw [live_opened]
          exact List.mem_append_left _ hx
      | closed id =>
          rw [live_closed, List.mem_filter]
          refine ⟨hx, decide_eq_true ?_⟩
          rintro rfl
          exact hmid.2 (List.mem_singleton.mpr rfl)

/-- What is open has opened. -/
theorem mem_of_mem_live {x : Id × Key} (h : x ∈ live ms) : .opened x.1 x.2 ∈ ms := by
  induction ms using List.reverseRecOn with
  | nil => cases h
  | append_singleton ms m ih =>
      rw [List.mem_append]
      cases m with
      | opened id key =>
          rw [live_opened, List.mem_append] at h
          obtain h | h := h
          · exact Or.inl (ih h)
          · rw [List.mem_singleton.mp h]
            exact Or.inr (List.mem_singleton.mpr rfl)
      | closed id =>
          rw [live_closed, List.mem_filter] at h
          exact Or.inl (ih h.1)

/-- A log in which no two open things ever have the same key. -/
def Exclusive (ms : List (Mark Id Key)) : Prop :=
  ∀ pre, pre <+: ms → ((live pre).map Prod.snd).Nodup

theorem exclusive_nil : Exclusive ([] : List (Mark Id Key)) := by
  intro pre h
  rw [List.prefix_nil.mp h]
  exact List.nodup_nil

theorem exclusive_snoc {m : Mark Id Key} (h : Exclusive ms)
    (hm : ((live (ms ++ [m])).map Prod.snd).Nodup) : Exclusive (ms ++ [m]) := by
  intro pre hpre
  rw [List.prefix_concat_iff] at hpre
  obtain rfl | hpre := hpre
  · exact hm
  · exact h pre hpre

/-- A key that is not in use may be opened. -/
theorem Exclusive.opened (h : Exclusive ms) (hkey : ∀ id', (id', key) ∉ live ms) :
    Exclusive (ms ++ [.opened id key]) := by
  refine exclusive_snoc h ?_
  rw [live_opened, List.map_append, List.map_cons, List.map_nil, List.nodup_append]
  refine ⟨h ms (List.prefix_refl ms), List.nodup_singleton _, ?_⟩
  rintro k hk k' hk' rfl
  obtain rfl := List.mem_singleton.mp hk'
  obtain ⟨⟨id', k⟩, hx, rfl⟩ := List.mem_map.mp hk
  exact hkey id' hx

/-- Closing something leaves fewer keys in use. -/
theorem Exclusive.closed (h : Exclusive ms) : Exclusive (ms ++ [.closed id]) := by
  refine exclusive_snoc h ?_
  rw [live_closed]
  exact (h ms (List.prefix_refl ms)).sublist (List.Sublist.map _ List.filter_sublist)

/-- A key is opened again only after its previous holder has closed. -/
theorem Exclusive.reuse (h : Exclusive ms) {pre mid post : List (Mark Id Key)}
    (hms : ms = pre ++ .opened id key :: (mid ++ .opened id' key :: post)) : .closed id ∈ mid := by
  by_contra hmid
  have hpre : pre ++ [.opened id key] ++ mid ++ [.opened id' key] <+: ms := ⟨post, by simp [hms]⟩
  have hnd := h _ hpre
  rw [live_opened, List.map_append, List.nodup_append] at hnd
  have hlive : (id, key) ∈ live (pre ++ [.opened id key] ++ mid) :=
    mem_live_append (by simp) hmid
  exact hnd.2.2 key (List.mem_map.mpr ⟨_, hlive, rfl⟩) key (by simp) rfl

/-- A log in which nothing opens that is open already. -/
def Single (ms : List (Mark Id Key)) : Prop :=
  ∀ pre, pre <+: ms → ((live pre).map Prod.fst).Nodup

instance [DecidableEq Key] (ms : List (Mark Id Key)) : Decidable (Exclusive ms) :=
  decidable_of_iff (∀ pre ∈ ms.inits, ((live pre).map Prod.snd).Nodup)
    (by simp only [Exclusive, List.mem_inits])

instance (ms : List (Mark Id Key)) : Decidable (Single ms) :=
  decidable_of_iff (∀ pre ∈ ms.inits, ((live pre).map Prod.fst).Nodup)
    (by simp only [Single, List.mem_inits])

theorem Exclusive.initial {ms' : List (Mark Id Key)} (h : Exclusive ms) (hp : ms' <+: ms) :
    Exclusive ms' :=
  fun pre hpre => h pre (hpre.trans hp)

theorem Single.initial {ms' : List (Mark Id Key)} (h : Single ms) (hp : ms' <+: ms) : Single ms' :=
  fun pre hpre => h pre (hpre.trans hp)

/-- A key that is opened was not in use. -/
theorem Exclusive.unused (h : Exclusive (ms ++ [.opened id key])) (id' : Id) :
    (id', key) ∉ live ms := by
  intro hm
  have hnd := h _ (List.prefix_refl _)
  rw [live_opened, List.map_append, List.nodup_append] at hnd
  exact hnd.2.2 key (List.mem_map.mpr ⟨_, hm, rfl⟩) key (by simp) rfl

/-- What opens was not open. -/
theorem Single.unused (h : Single (ms ++ [.opened id key])) (key' : Key) :
    (id, key') ∉ live ms := by
  intro hm
  have hnd := h _ (List.prefix_refl _)
  rw [live_opened, List.map_append, List.nodup_append] at hnd
  exact hnd.2.2 id (List.mem_map.mpr ⟨_, hm, rfl⟩) id (by simp) rfl

/-- A log in which every id opens at most once, closes at most once and only
    after it opened, and in which no two open things ever have the same key. -/
structure WellFormed (ms : List (Mark Id Key)) : Prop where
  open_once : (ms.filterMap Mark.openId).Nodup
  close_once : (ms.filterMap Mark.closeId).Nodup
  open_first : ∀ pre id post, ms = pre ++ .closed id :: post → id ∈ pre.filterMap Mark.openId
  exclusive : Exclusive ms

namespace WellFormed

theorem nil : WellFormed ([] : List (Mark Id Key)) where
  open_once := List.nodup_nil
  close_once := List.nodup_nil
  open_first := by simp
  exclusive := exclusive_nil

theorem opened (h : WellFormed ms) (hid : id ∉ ms.filterMap Mark.openId)
    (hkey : ∀ id', (id', key) ∉ live ms) : WellFormed (ms ++ [.opened id key]) where
  open_once := by
    rw [List.filterMap_append]
    exact List.concat_eq_append ▸ h.open_once.concat hid
  close_once := by
    rw [List.filterMap_append, show [Mark.opened id key].filterMap Mark.closeId = [] from rfl,
      List.append_nil]
    exact h.close_once
  open_first := by
    intro pre id' post hms
    rcases List.eq_nil_or_concat post with rfl | ⟨post, m, rfl⟩
    · cases (List.append_inj' hms rfl).2
    · rw [List.concat_eq_append, ← List.cons_append, ← List.append_assoc] at hms
      exact h.open_first pre id' post (List.append_inj' hms rfl).1
  exclusive := h.exclusive.opened hkey

theorem closed (h : WellFormed ms) (hopen : id ∈ ms.filterMap Mark.openId)
    (hclose : id ∉ ms.filterMap Mark.closeId) : WellFormed (ms ++ [.closed id]) where
  open_once := by
    rw [List.filterMap_append,
      show [(Mark.closed id : Mark Id Key)].filterMap Mark.openId = [] from rfl, List.append_nil]
    exact h.open_once
  close_once := by
    rw [List.filterMap_append]
    exact List.concat_eq_append ▸ h.close_once.concat hclose
  open_first := by
    intro pre id' post hms
    rcases List.eq_nil_or_concat post with rfl | ⟨post, m, rfl⟩
    · obtain ⟨rfl, hlast⟩ := List.append_inj' hms rfl
      cases hlast
      exact hopen
    · rw [List.concat_eq_append, ← List.cons_append, ← List.append_assoc] at hms
      exact h.open_first pre id' post (List.append_inj' hms rfl).1
  exclusive := h.exclusive.closed

end WellFormed

end Lifetimes
end Borehole.Conc
