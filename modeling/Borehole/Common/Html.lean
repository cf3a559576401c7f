/-
  Borehole.Common.Html

  Text in a double-quoted HTML attribute.

  The four characters that mean something to a parser are written as entities.
  What is written has no quote and no angle bracket, each ampersand in it begins an
  entity, and a parser that knows the entities reads the text back and stops at the
  quote that closes the attribute.
-/

import Mathlib.Data.List.Basic

namespace Borehole.Html

/-- What is written for a character. -/
def escapeChar (c : Char) : List Char :=
  if c = '&' then ['&', 'a', 'm', 'p', ';']
  else if c = '"' then ['&', 'q', 'u', 'o', 't', ';']
  else if c = '<' then ['&', 'l', 't', ';']
  else if c = '>' then ['&', 'g', 't', ';']
  else [c]

/-- Text as it is written between the quotes of an attribute. -/
def escape (s : List Char) : List Char :=
  s.flatMap escapeChar

/-- The entities, and the characters that they stand for. -/
def entities : List (List Char × Char) :=
  [(['&', 'a', 'm', 'p', ';'], '&'), (['&', 'q', 'u', 'o', 't', ';'], '"'),
    (['&', 'l', 't', ';'], '<'), (['&', 'g', 't', ';'], '>')]

/-- Replaces the entities, from left to right, by the characters that they stand
    for. -/
def unescape : List Char → List Char
  | '&' :: 'a' :: 'm' :: 'p' :: ';' :: rest => '&' :: unescape rest
  | '&' :: 'q' :: 'u' :: 'o' :: 't' :: ';' :: rest => '"' :: unescape rest
  | '&' :: 'l' :: 't' :: ';' :: rest => '<' :: unescape rest
  | '&' :: 'g' :: 't' :: ';' :: rest => '>' :: unescape rest
  | c :: rest => c :: unescape rest
  | [] => []

/-- The value of a double-quoted attribute, and what comes after it, from what comes
    after the opening quote.  A character reference is read by `reference`, from
    what comes after its ampersand: what it stands for, and how many characters it
    has. -/
def attributeValue (reference : List Char → Option (List Char × Nat)) (s : List Char) :
    Option (List Char × List Char) :=
  match s with
  | [] => none
  | c :: rest =>
      if c = '"' then some ([], rest)
      else if c = '&' then
        match reference rest with
        | some (value, n) =>
            (attributeValue reference (rest.drop n)).map fun x => (value ++ x.1, x.2)
        | none => (attributeValue reference rest).map fun x => (c :: x.1, x.2)
      else (attributeValue reference rest).map fun x => (c :: x.1, x.2)
termination_by s.length
decreasing_by
  all_goals simp only [List.length_cons, List.length_drop]
  all_goals omega

/-- The entities are read as what they stand for. -/
def ReadsEntities (reference : List Char → Option (List Char × Nat)) : Prop :=
  ∀ entity ∈ entities, ∀ rest, reference (entity.1.tail ++ rest) =
    some ([entity.2], entity.1.length - 1)

/-- A reader of the entities and of nothing else. -/
def entityReference (s : List Char) : Option (List Char × Nat) :=
  (entities.find? fun entity => entity.1.tail.isPrefixOf s).map fun entity =>
    ([entity.2], entity.1.length - 1)

theorem readsEntities_entityReference : ReadsEntities entityReference := by
  intro entity h rest
  simp only [entities, List.mem_cons, List.not_mem_nil, or_false] at h
  obtain rfl | rfl | rfl | rfl := h <;> rfl

/-- A character is written as it is, or as its entity. -/
theorem escapeChar_cases (c : Char) :
    (c ∉ ['&', '"', '<', '>'] ∧ escapeChar c = [c]) ∨ (escapeChar c, c) ∈ entities := by
  by_cases hamp : c = '&'
  · subst hamp
    exact Or.inr (by decide)
  by_cases hquot : c = '"'
  · subst hquot
    exact Or.inr (by decide)
  by_cases hlt : c = '<'
  · subst hlt
    exact Or.inr (by decide)
  by_cases hgt : c = '>'
  · subst hgt
    exact Or.inr (by decide)
  refine Or.inl ⟨?_, ?_⟩
  · simp [hamp, hquot, hlt, hgt]
  · rw [escapeChar, if_neg hamp, if_neg hquot, if_neg hlt, if_neg hgt]

/-- An entity is an ampersand and then nothing that means something. -/
theorem entity_spelling {entity : List Char × Char} (h : entity ∈ entities) :
    ∃ name, entity.1 = '&' :: name ∧ ∀ c ∈ name, c ∉ ['&', '"', '<', '>'] := by
  simp only [entities, List.mem_cons, List.not_mem_nil, or_false] at h
  obtain rfl | rfl | rfl | rfl := h
  · exact ⟨['a', 'm', 'p', ';'], rfl, by simp⟩
  · exact ⟨['q', 'u', 'o', 't', ';'], rfl, by simp⟩
  · exact ⟨['l', 't', ';'], rfl, by simp⟩
  · exact ⟨['g', 't', ';'], rfl, by simp⟩

theorem escape_cons (c : Char) (s : List Char) : escape (c :: s) = escapeChar c ++ escape s :=
  List.flatMap_cons

/-- Nothing that is written closes the attribute or opens a tag. -/
theorem not_mem_escape {c : Char} (hc : c ∈ ['"', '<', '>']) (s : List Char) : c ∉ escape s := by
  intro hmem
  obtain ⟨d, -, hd⟩ := List.mem_flatMap.mp hmem
  obtain ⟨hplain, he⟩ | hentity := escapeChar_cases d
  · rw [he, List.mem_singleton] at hd
    rw [← hd] at hplain
    exact hplain (List.mem_cons_of_mem _ hc)
  · obtain ⟨name, hname, hplain⟩ := entity_spelling hentity
    rw [show escapeChar d = '&' :: name from hname] at hd
    obtain rfl | hd := List.mem_cons.mp hd
    · revert hc
      decide
    · exact hplain c hd (List.mem_cons_of_mem _ hc)

/-- Every ampersand begins an entity. -/
theorem ampersand_escape (s : List Char) : ∀ before after, escape s = before ++ '&' :: after →
    ∃ entity ∈ entities, entity.1 <+: '&' :: after := by
  induction s with
  | nil =>
      intro before after h
      simp [escape] at h
  | cons c s ih =>
      intro before after h
      rw [escape_cons] at h
      -- The ampersand is in what is written for the first character, or further on.
      obtain ⟨written, hb, hw⟩ | ⟨written, hb, hw⟩ := List.append_eq_append_iff.mp h
      · exact ih _ _ hw
      · cases written with
        | nil => exact ih [] after hw.symm
        | cons d written =>
            obtain ⟨rfl, rfl⟩ := List.cons_eq_cons.mp hw
            obtain ⟨hplain, he⟩ | hentity := escapeChar_cases c
            · have hmem : '&' ∈ escapeChar c := by
                rw [hb]
                simp
              rw [he, List.mem_singleton] at hmem
              rw [← hmem] at hplain
              exact absurd List.mem_cons_self hplain
            -- the only ampersand of an entity is its first character
            · obtain ⟨name, hname, hplain⟩ := entity_spelling hentity
              have hat : before = [] := by
                rw [show escapeChar c = '&' :: name from hname] at hb
                cases before with
                | nil => rfl
                | cons d before =>
                    have hin : '&' ∈ name := by
                      rw [(List.cons_eq_cons.mp hb).2]
                      simp
                    exact absurd List.mem_cons_self (hplain '&' hin)
              refine ⟨_, hentity, ?_⟩
              rw [hb, hat, List.nil_append]
              exact ⟨escape s, rfl⟩

theorem unescape_plain {c : Char} (hc : c ≠ '&') (rest : List Char) :
    unescape (c :: rest) = c :: unescape rest := by
  conv_lhs => unfold unescape
  split <;> simp_all

theorem unescape_entity {entity : List Char × Char} (h : entity ∈ entities) (rest : List Char) :
    unescape (entity.1 ++ rest) = entity.2 :: unescape rest := by
  simp only [entities, List.mem_cons, List.not_mem_nil, or_false] at h
  obtain rfl | rfl | rfl | rfl := h <;> rfl

/-- What is written is read back. -/
theorem unescape_escape (s : List Char) : unescape (escape s) = s := by
  induction s with
  | nil => rfl
  | cons c s ih =>
      rw [escape_cons]
      obtain ⟨hplain, he⟩ | hentity := escapeChar_cases c
      · have hc : c ≠ '&' := by
          rintro rfl
          exact hplain List.mem_cons_self
        rw [he, List.singleton_append, unescape_plain hc, ih]
      · rw [unescape_entity hentity, ih]

/-- A parser that knows the entities reads the text, and ends it where the writer
    does. -/
theorem attributeValue_escape {reference : List Char → Option (List Char × Nat)}
    (h : ReadsEntities reference) (s rest : List Char) :
    attributeValue reference (escape s ++ '"' :: rest) = some (s, rest) := by
  induction s with
  | nil =>
      rw [show escape [] = [] from rfl, List.nil_append, attributeValue, if_pos rfl]
  | cons c s ih =>
      rw [escape_cons, List.append_assoc]
      obtain ⟨hplain, he⟩ | hentity := escapeChar_cases c
      · have hquot : c ≠ '"' := by
          rintro rfl
          exact hplain (by decide)
        have hamp : c ≠ '&' := by
          rintro rfl
          exact hplain List.mem_cons_self
        rw [he, List.singleton_append, attributeValue, if_neg hquot, if_neg hamp, ih]
        rfl
      · obtain ⟨name, hname, -⟩ := entity_spelling hentity
        have href : reference (name ++ (escape s ++ '"' :: rest)) = some ([c], name.length) := by
          have href := h _ hentity (escape s ++ '"' :: rest)
          rwa [hname, List.tail_cons, List.length_cons, Nat.add_sub_cancel] at href
        rw [show escapeChar c = '&' :: name from hname, List.cons_append, attributeValue,
          if_neg (by decide), if_pos rfl, href]
        simp only [List.drop_left, ih]
        rfl

end Borehole.Html
