/-
  Borehole.Common.Pretty

  The pretty text of a flat JSON object (`serde_json::to_string_pretty`), which is
  what files hold, and that it is read as the compact text is.
-/

import Borehole.Common.Json

namespace Borehole
namespace Json

/-- One member on a line of its own, without the end of the line. -/
def prettyMember (m : String × Scalar) : List Char :=
  ' ' :: ' ' :: (string m.1 ++ ':' :: ' ' :: m.2.text)

/-- The lines of the members and the closing brace. -/
def prettyMembers : List (String × Scalar) → List Char
  | [] => ['\x7d']
  | [m] => '\n' :: (prettyMember m ++ ['\n', '\x7d'])
  | m :: ms => '\n' :: (prettyMember m ++ ',' :: prettyMembers ms)

/-- An object as `to_string_pretty` prints it. -/
def prettyText (members : List (String × Scalar)) : List Char :=
  '\x7b' :: prettyMembers members

example : prettyText [("a", .nat 1), ("b", .null)] =
    "\x7b\n  \"a\": 1,\n  \"b\": null\n\x7d".toList := by decide

/-- A blank between tokens is skipped. -/
theorem lex_blank {c : Char} {cs : List Char} (hc : c = ' ' ∨ c = '\n') :
    lex .between (c :: cs) = lex .between cs := by
  rcases hc with rfl | rfl
  · exact lex_step rfl
  · exact lex_step rfl

theorem lex_prettyMember (m : String × Scalar) {c : Char} {cs : List Char} (hc : Ends c) :
    lex .between (prettyMember m ++ c :: cs) = (lex .between (c :: cs)).map
      fun ts => .value (.string m.1) :: .colon :: .value m.2 :: ts := by
  have hcolon : step .between ':' = some (.between, [.colon]) := rfl
  rw [prettyMember, List.cons_append, List.cons_append, lex_blank (Or.inl rfl),
    lex_blank (Or.inl rfl), List.append_assoc, List.cons_append, List.cons_append, lex_string,
    lex_token hcolon, lex_blank (Or.inl rfl), lex_scalar m.2 hc, Option.map_map, Option.map_map]
  rfl

theorem lex_prettyMembers (ms : List (String × Scalar)) :
    lex .between (prettyMembers ms) = some (memberTokens ms) := by
  have hclose : lex .between ['\x7d'] = some [.close] := by decide
  fun_induction memberTokens ms with
  | case1 => exact hclose
  | case2 m =>
      rw [prettyMembers, lex_blank (Or.inr rfl), lex_prettyMember m ⟨rfl, rfl⟩,
        lex_blank (Or.inr rfl), hclose, Option.map_some]
  | case3 m ms hne ih =>
      have hcomma : step .between ',' = some (.between, [.comma]) := rfl
      rw [prettyMembers, lex_blank (Or.inr rfl), lex_prettyMember m ⟨rfl, rfl⟩,
        lex_token hcomma, ih, Option.map_some, Option.map_some]
      exact hne

/-- What is printed pretty is read back. -/
theorem readObject_prettyText (ms : List (String × Scalar)) :
    readObject (prettyText ms) = some ms := by
  have hopen : step .between '\x7b' = some (.between, [.open]) := rfl
  rw [readObject, prettyText, lex_token hopen, lex_prettyMembers, Option.map_some,
    Option.bind_some]
  cases ms with
  | nil => rfl
  | cons m ms =>
      obtain ⟨ts, hts⟩ : ∃ ts, memberTokens (m :: ms) = .value (.string m.1) :: ts := by
        cases ms <;> exact ⟨_, rfl⟩
      have hread := members_memberTokens (m :: ms) (List.cons_ne_nil _ _)
      rw [hts] at hread ⊢
      exact hread

end Json
end Borehole
