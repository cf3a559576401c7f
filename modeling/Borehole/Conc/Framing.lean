/-
  Borehole.Conc.Framing

  Streams of frames, of which the last may be under way.

  Whoever appends to a stream appends the parts of a frame, one after another;
  the stream stays a sequence of whole frames followed by what there is of the
  last one.
-/

import Mathlib.Data.List.Basic

namespace Borehole.Conc

variable {β : Type}

/-- `stream` is a sequence of whole frames, and then `part`. -/
def Framed (IsFrame : List β → Prop) (stream part : List β) : Prop :=
  ∃ frames : List (List β), (∀ f ∈ frames, IsFrame f) ∧ stream = frames.flatten ++ part

namespace Framed

variable {IsFrame : List β → Prop} {stream part bytes : List β}

theorem nil : Framed IsFrame [] [] :=
  ⟨[], nofun, rfl⟩

/-- More of the last frame. -/
theorem append (h : Framed IsFrame stream part) :
    Framed IsFrame (stream ++ bytes) (part ++ bytes) := by
  obtain ⟨frames, hf, rfl⟩ := h
  exact ⟨frames, hf, List.append_assoc _ _ _⟩

/-- The last frame is whole. -/
theorem whole (h : Framed IsFrame stream part) (hp : IsFrame part) : Framed IsFrame stream [] := by
  obtain ⟨frames, hf, rfl⟩ := h
  refine ⟨frames ++ [part], ?_, ?_⟩
  · intro f hm
    obtain hm | hm := List.mem_append.mp hm
    · exact hf f hm
    · rw [List.mem_singleton.mp hm]
      exact hp
  · rw [List.flatten_append, List.flatten_singleton, List.append_nil]

/-- A stream with something on it starts with a frame, whole or not. -/
theorem head (h : Framed IsFrame stream part) (hpart : ∃ f, IsFrame f ∧ part <+: f) :
    stream = [] ∨ ∃ f, IsFrame f ∧ (f <+: stream ∨ stream <+: f) := by
  obtain ⟨frames, hf, rfl⟩ := h
  cases frames with
  | nil =>
      obtain ⟨f, hfr, hp⟩ := hpart
      exact Or.inr ⟨f, hfr, Or.inr hp⟩
  | cons f frames =>
      refine Or.inr ⟨f, hf f (by simp), Or.inl ⟨frames.flatten ++ part, ?_⟩⟩
      rw [List.flatten_cons, List.append_assoc]

end Framed
end Borehole.Conc
