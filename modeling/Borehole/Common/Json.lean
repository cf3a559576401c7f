/-
  Borehole.Common.Json

  Flat JSON objects: the compact text that serde_json prints and a reader of
  JSON texts.

  The reader is a lexer that takes one character at a time and a parser of its
  tokens.  It reads objects whose members are strings, natural numbers, booleans
  and nulls, with any insignificant whitespace and any escape of one character.
-/

import Mathlib.Data.List.Basic

namespace Borehole
namespace Json

/-! ## Printing -/

/-- A lower-case hex digit. -/
def hexDigit (n : Nat) : Char :=
  if n < 10 then Char.ofNat (48 + n) else Char.ofNat (87 + n)

/-- serde_json's escape of one character inside a string literal. -/
def escapeChar (c : Char) : List Char :=
  if c = '"' then ['\\', '"']
  else if c = '\\' then ['\\', '\\']
  else if c.toNat = 8 then ['\\', 'b']
  else if c.toNat = 12 then ['\\', 'f']
  else if c = '\n' then ['\\', 'n']
  else if c = '\r' then ['\\', 'r']
  else if c = '\t' then ['\\', 't']
  else if c.toNat < 32 then
    ['\\', 'u', '0', '0', hexDigit (c.toNat / 16), hexDigit (c.toNat % 16)]
  else [c]

/-- A string in quotes, escaped. -/
def string (s : String) : List Char :=
  '"' :: s.toList.flatMap escapeChar ++ ['"']

/-- A number of 16 bits, in decimal. -/
def u16 (n : UInt16) : List Char :=
  Nat.toDigits 10 n.toNat

/-- A value or `null`. -/
def option {α : Type} (f : α → List Char) : Option α → List Char
  | none => "null".toList
  | some a => f a

/-- One `"name":value` member. -/
def member (name : String) (value : List Char) : List Char :=
  string name ++ ':' :: value

/-- A compact object with the given members. -/
def object (members : List (List Char)) : List Char :=
  '{' :: (List.intersperse [','] members).flatten ++ ['}']

/-- A value that is no array and no object; the only numbers are natural. -/
inductive Scalar where
  | null
  | bool (b : Bool)
  | nat (n : Nat)
  | string (s : String)
  deriving DecidableEq, Repr

/-- A value as `serde_json` prints it. -/
def Scalar.text : Scalar → List Char
  | .null => "null".toList
  | .bool true => "true".toList
  | .bool false => "false".toList
  | .nat n => Nat.toDigits 10 n
  | .string s => Json.string s

/-- Not a number of `limit` or more: readers hold numbers of a certain size only. -/
def Scalar.Below (limit : Nat) : Scalar → Prop
  | .nat n => n < limit
  | _ => True

instance (limit : Nat) : (v : Scalar) → Decidable (v.Below limit)
  | .nat n => inferInstanceAs (Decidable (n < limit))
  | .null | .bool _ | .string _ => inferInstanceAs (Decidable True)

/-- The compact text of an object with scalar members. -/
def objectText (members : List (String × Scalar)) : List Char :=
  object (members.map fun m => member m.1 m.2.text)

/-! ## Reading -/

/-- What a text is made of. -/
inductive Token where
  | «open»
  | close
  | colon
  | comma
  | value (v : Scalar)
  deriving DecidableEq, Repr

/-- Where the lexer stands: between tokens, or inside one with what it has read of
    it (the characters last first). -/
inductive Lexing where
  | between
  | string (acc : List Char)
  | escape (acc : List Char)
  | unicode (acc : List Char) (more value : Nat)
  | number (n : Nat)
  | word (acc : List Char)
  deriving DecidableEq, Repr

/-- The value of a decimal digit. -/
def digit? (c : Char) : Option Nat :=
  if 48 ≤ c.toNat ∧ c.toNat ≤ 57 then some (c.toNat - 48) else none

/-- The value of a hex digit. -/
def hexDigit? (c : Char) : Option Nat :=
  if 48 ≤ c.toNat ∧ c.toNat ≤ 57 then some (c.toNat - 48)
  else if 97 ≤ c.toNat ∧ c.toNat ≤ 102 then some (c.toNat - 87)
  else if 65 ≤ c.toNat ∧ c.toNat ≤ 70 then some (c.toNat - 55)
  else none

/-- A lower-case letter. -/
def isLetter (c : Char) : Bool :=
  97 ≤ c.toNat && c.toNat ≤ 122

/-- The three literals. -/
def word? (acc : List Char) : Option Scalar :=
  if acc.reverse = "null".toList then some .null
  else if acc.reverse = "true".toList then some (.bool true)
  else if acc.reverse = "false".toList then some (.bool false)
  else none

/-- The character that an escape of one letter stands for. -/
def unescape? (c : Char) : Option Char :=
  if c = '"' ∨ c = '\\' ∨ c = '/' then some c
  else if c = 'b' then some (Char.ofNat 8)
  else if c = 'f' then some (Char.ofNat 12)
  else if c = 'n' then some '\n'
  else if c = 'r' then some '\r'
  else if c = 't' then some '\t'
  else none

/-- A character between tokens. -/
def next (c : Char) : Option (Lexing × List Token) :=
  if c = '\x7b' then some (.between, [.open])
  else if c = '\x7d' then some (.between, [.close])
  else if c = ':' then some (.between, [.colon])
  else if c = ',' then some (.between, [.comma])
  else if c = ' ' ∨ c = '\t' ∨ c = '\n' ∨ c = '\r' then some (.between, [])
  else if c = '"' then some (.string [], [])
  else if isLetter c then some (.word [c], [])
  else (digit? c).map fun d => (.number d, [])

/-- A character that ends the token `v`. -/
def after (v : Option Scalar) (c : Char) : Option (Lexing × List Token) :=
  v.bind fun v => (next c).map fun r => (r.1, .value v :: r.2)

/-- One character: where it leads and the tokens it yields. -/
def step : Lexing → Char → Option (Lexing × List Token)
  | .between, c => next c
  | .string acc, c =>
      if c = '"' then some (.between, [.value (.string (String.ofList acc.reverse))])
      else if c = '\\' then some (.escape acc, [])
      else if c.toNat < 32 then none
      else some (.string (c :: acc), [])
  | .escape acc, c =>
      if c = 'u' then some (.unicode acc 3 0, [])
      else (unescape? c).map fun c => (.string (c :: acc), [])
  | .unicode acc more value, c =>
      (hexDigit? c).bind fun d =>
        match more with
        | more + 1 => some (.unicode acc more (value * 16 + d), [])
        | 0 =>
            if (value * 16 + d).isValidChar then
              some (.string (Char.ofNat (value * 16 + d) :: acc), [])
            else none
  | .number n, c =>
      match digit? c with
      | some d => if n = 0 then none else some (.number (n * 10 + d), [])
      | none => after (some (.nat n)) c
  | .word acc, c => if isLetter c then some (.word (c :: acc), []) else after (word? acc) c

/-- The token at the end of the text. -/
def finish : Lexing → Option (List Token)
  | .between => some []
  | .number n => some [.value (.nat n)]
  | .word acc => (word? acc).map fun v => [.value v]
  | .string _ | .escape _ | .unicode .. => none

/-- The tokens of a text. -/
def lex : Lexing → List Char → Option (List Token)
  | s, [] => finish s
  | s, c :: cs => (step s c).bind fun r => (lex r.1 cs).map fun ts => r.2 ++ ts

/-- The members of an object after its opening brace, of which there is one. -/
def members : List Token → Option (List (String × Scalar))
  | [.value (.string name), .colon, .value v, .close] => some [(name, v)]
  | .value (.string name) :: .colon :: .value v :: .comma :: ts =>
      (members ts).map fun ms => (name, v) :: ms
  | _ => none

/-- The members of a flat object in the order of its text. -/
def readObject (text : List Char) : Option (List (String × Scalar)) :=
  (lex .between text).bind fun ts =>
    match ts with
    | [.open, .close] => some []
    | .open :: ts => members ts
    | _ => none

/-! ## What is printed is read -/

section RoundTrip

variable {s s' : Lexing} {c : Char} {cs acc rest : List Char} {tok : Token}

theorem lex_step (h : step s c = some (s', [])) : lex s (c :: cs) = lex s' cs := by
  rw [lex, h, Option.bind_some]
  simp

theorem lex_token (h : step s c = some (s', [tok])) :
    lex s (c :: cs) = (lex s' cs).map fun ts => tok :: ts := by
  rw [lex, h, Option.bind_some]
  rfl

theorem hexDigit_round (n : Nat) (hn : n < 16) : hexDigit? (hexDigit n) = some n := by
  revert n
  decide

theorem digit_round (n : Nat) (hn : n < 10) : digit? n.digitChar = some n := by
  revert n
  decide

/-- The lexer reads an escaped character as the character. -/
theorem lex_escapeChar (c : Char) (acc rest : List Char) :
    lex (.string acc) (escapeChar c ++ rest) = lex (.string (c :: acc)) rest := by
  -- A short escape is two characters.
  have hshort : ∀ e, e ≠ 'u' → unescape? e = some c →
      lex (.string acc) ('\\' :: e :: rest) = lex (.string (c :: acc)) rest := by
    intro e hu he
    have h₁ : step (.string acc) '\\' = some (.escape acc, []) := rfl
    have h₂ : step (.escape acc) e = some (.string (c :: acc), []) := by
      rw [step, if_neg hu, he, Option.map_some]
    rw [lex_step h₁, lex_step h₂]
  have hcode : ∀ n, c.toNat = n → Char.ofNat n = c := by
    rintro n rfl
    exact Char.ofNat_toNat c
  unfold escapeChar
  split
  · rename_i hc
    rw [hc] at hshort ⊢
    exact hshort '"' (by decide) (by decide)
  split
  · rename_i hc
    rw [hc] at hshort ⊢
    exact hshort '\\' (by decide) (by decide)
  split
  · rename_i hc
    exact hshort 'b' (by decide) (congrArg some (hcode 8 hc))
  split
  · rename_i hc
    exact hshort 'f' (by decide) (congrArg some (hcode 12 hc))
  split
  · rename_i hc
    rw [hc] at hshort ⊢
    exact hshort 'n' (by decide) (by decide)
  split
  · rename_i hc
    rw [hc] at hshort ⊢
    exact hshort 'r' (by decide) (by decide)
  split
  · rename_i hc
    rw [hc] at hshort ⊢
    exact hshort 't' (by decide) (by decide)
  split
  -- `\u00XX`: four hexadecimal digits
  · rename_i hlt
    have hz : hexDigit? '0' = some 0 := by decide
    have h₁ : step (.string acc) '\\' = some (.escape acc, []) := rfl
    have h₂ : step (.escape acc) 'u' = some (.unicode acc 3 0, []) := rfl
    have h₃ : step (.unicode acc 3 0) '0' = some (.unicode acc 2 0, []) := by
      rw [step, hz, Option.bind_some]
    have h₄ : step (.unicode acc 2 0) '0' = some (.unicode acc 1 0, []) := by
      rw [step, hz, Option.bind_some]
    have h₅ : step (.unicode acc 1 0) (hexDigit (c.toNat / 16)) =
        some (.unicode acc 0 (c.toNat / 16), []) := by
      rw [step, hexDigit_round _ (by omega), Option.bind_some]
      simp
    have hsum : c.toNat / 16 * 16 + c.toNat % 16 = c.toNat := by omega
    have h₆ : step (.unicode acc 0 (c.toNat / 16)) (hexDigit (c.toNat % 16)) =
        some (.string (c :: acc), []) := by
      rw [step, hexDigit_round _ (by omega), Option.bind_some, hsum, hcode _ rfl,
        if_pos (Or.inl (by omega))]
    rw [List.cons_append, lex_step h₁, List.cons_append, lex_step h₂, List.cons_append,
      lex_step h₃, List.cons_append, lex_step h₄, List.cons_append, lex_step h₅,
      List.cons_append, lex_step h₆, List.nil_append]
  -- Any other character is written as it is.
  · rename_i hq hb _ _ _ _ _ hctl
    have h : step (.string acc) c = some (.string (c :: acc), []) := by
      rw [step, if_neg hq, if_neg hb, if_neg hctl]
    rw [List.singleton_append, lex_step h]

theorem lex_string (str : String) (rest : List Char) :
    lex .between (string str ++ rest) =
      (lex .between rest).map fun ts => .value (.string str) :: ts := by
  have hbody : ∀ cs acc, lex (.string acc) (cs.flatMap escapeChar ++ '"' :: rest) =
      (lex .between rest).map
        fun ts => .value (.string (String.ofList (acc.reverse ++ cs))) :: ts := by
    intro cs
    induction cs with
    | nil =>
        intro acc
        rw [List.flatMap_nil, List.nil_append, List.append_nil]
        exact lex_token rfl
    | cons c cs ih =>
        intro acc
        rw [List.flatMap_cons, List.append_assoc, lex_escapeChar, ih, List.reverse_cons,
          List.append_assoc, List.singleton_append]
  have hopen : step .between '"' = some (.string [], []) := rfl
  rw [string, List.cons_append, List.cons_append, lex_step hopen, List.append_assoc,
    List.singleton_append, hbody, List.reverse_nil, List.nil_append, String.ofList_toList]

/-- The decimal digits of a number. -/
theorem lex_digits (n : Nat) (rest : List Char) :
    lex .between (Nat.toDigits 10 n ++ rest) = lex (.number n) rest := by
  induction n using Nat.strongRecOn generalizing rest with
  | ind n ih =>
      by_cases hn : n < 10
      · have hnext : ∀ d < 10, step .between (Nat.digitChar d) = some (.number d, []) := by decide
        rw [Nat.toDigits_of_lt_base hn, List.singleton_append, lex_step (hnext n hn)]
      · have hd : step (.number (n / 10)) (n % 10).digitChar = some (.number n, []) := by
          have hsum : n / 10 * 10 + n % 10 = n := by omega
          rw [step, digit_round _ (by omega)]
          dsimp only
          rw [if_neg (by omega), hsum]
        rw [Nat.toDigits_of_base_le (by omega) (by omega), List.append_assoc, ih _ (by omega),
          List.singleton_append, lex_step hd]

/-- A character that ends a number or a word. -/
def Ends (c : Char) : Prop :=
  digit? c = none ∧ isLetter c = false

theorem lex_after {v : Scalar} (h : step s c = after (some v) c) :
    lex s (c :: cs) = (lex .between (c :: cs)).map fun ts => .value v :: ts := by
  rw [lex, h, lex, after, Option.bind_some, step]
  cases next c with
  | none => rfl
  | some r => simp [Function.comp_def]

theorem lex_scalar (v : Scalar) (hc : Ends c) :
    lex .between (v.text ++ c :: cs) =
      (lex .between (c :: cs)).map fun ts => .value v :: ts := by
  -- A literal is read letter by letter, and ends with the character after it.
  have hword : ∀ w v, word? w = some v → lex (.word w) (c :: cs) =
      (lex .between (c :: cs)).map fun ts => .value v :: ts := by
    intro w v hw
    refine lex_after ?_
    rw [step, hc.2, hw]
    rfl
  have hletter : ∀ w d ds, isLetter d = true → lex (.word w) (d :: ds) = lex (.word (d :: w)) ds :=
    fun w d ds hd => lex_step (by rw [step, if_pos hd])
  have hfirst : ∀ d ds, step .between d = some (.word [d], []) →
      lex .between (d :: ds) = lex (.word [d]) ds := fun d ds hd => lex_step hd
  cases v with
  | null =>
      show lex .between ('n' :: 'u' :: 'l' :: 'l' :: c :: cs) = _
      rw [hfirst 'n' _ rfl, hletter _ 'u' _ rfl, hletter _ 'l' _ rfl, hletter _ 'l' _ rfl]
      exact hword _ .null (by decide)
  | bool b =>
      cases b with
      | true =>
          show lex .between ('t' :: 'r' :: 'u' :: 'e' :: c :: cs) = _
          rw [hfirst 't' _ rfl, hletter _ 'r' _ rfl, hletter _ 'u' _ rfl, hletter _ 'e' _ rfl]
          exact hword _ (.bool true) (by decide)
      | false =>
          show lex .between ('f' :: 'a' :: 'l' :: 's' :: 'e' :: c :: cs) = _
          rw [hfirst 'f' _ rfl, hletter _ 'a' _ rfl, hletter _ 'l' _ rfl, hletter _ 's' _ rfl,
            hletter _ 'e' _ rfl]
          exact hword _ (.bool false) (by decide)
  | nat n =>
      have hend : step (.number n) c = after (some (.nat n)) c := by
        rw [step, hc.1]
      rw [Scalar.text, lex_digits, lex_after hend]
  | string str => exact lex_string str (c :: cs)

theorem lex_member (name : String) (v : Scalar) (hc : Ends c) :
    lex .between (member name v.text ++ c :: cs) = (lex .between (c :: cs)).map
      fun ts => .value (.string name) :: .colon :: .value v :: ts := by
  have hcolon : step .between ':' = some (.between, [.colon]) := rfl
  rw [member, List.append_assoc, List.cons_append, lex_string, lex_token hcolon, lex_scalar v hc,
    Option.map_map, Option.map_map]
  rfl

/-- The tokens of the members of an object, and of its closing brace. -/
def memberTokens : List (String × Scalar) → List Token
  | [] => [.close]
  | [m] => [.value (.string m.1), .colon, .value m.2, .close]
  | m :: ms => .value (.string m.1) :: .colon :: .value m.2 :: .comma :: memberTokens ms

theorem lex_members (ms : List (String × Scalar)) :
    lex .between ((List.intersperse [','] (ms.map fun m => member m.1 m.2.text)).flatten ++
      ['\x7d']) = some (memberTokens ms) := by
  have hclose : lex .between ['\x7d'] = some [.close] := by decide
  fun_induction memberTokens ms with
  | case1 => exact hclose
  | case2 m =>
      rw [List.map_singleton, List.intersperse_singleton, List.flatten_singleton,
        lex_member m.1 m.2 ⟨rfl, rfl⟩, hclose, Option.map_some]
  | case3 m ms hne ih =>
      obtain ⟨m', ms, rfl⟩ := List.exists_cons_of_ne_nil hne
      have hcomma : step .between ',' = some (.between, [.comma]) := rfl
      rw [List.map_cons] at ih
      rw [List.map_cons, List.map_cons, List.intersperse_cons_cons, List.flatten_cons,
        List.flatten_cons, List.append_assoc, List.append_assoc, List.singleton_append,
        lex_member m.1 m.2 ⟨rfl, rfl⟩, lex_token hcomma, ih, Option.map_some, Option.map_some]

theorem members_memberTokens (ms : List (String × Scalar)) (hms : ms ≠ []) :
    members (memberTokens ms) = some ms := by
  fun_induction memberTokens ms with
  | case1 => exact absurd rfl hms
  | case2 m => rfl
  | case3 m ms hne ih =>
      obtain ⟨m', ms, rfl⟩ := List.exists_cons_of_ne_nil hne
      rw [members, ih (List.cons_ne_nil _ _)]
      rfl

/-- The reader reads the compact text of an object back. -/
theorem readObject_objectText (ms : List (String × Scalar)) :
    readObject (objectText ms) = some ms := by
  have hopen : step .between '\x7b' = some (.between, [.open]) := rfl
  rw [readObject, objectText, object, List.cons_append, lex_token hopen, lex_members,
    Option.map_some, Option.bind_some]
  cases ms with
  | nil => rfl
  | cons m ms =>
      obtain ⟨ts, hts⟩ : ∃ ts, memberTokens (m :: ms) = .value (.string m.1) :: ts := by
        cases ms <;> exact ⟨_, rfl⟩
      have hread := members_memberTokens (m :: ms) (List.cons_ne_nil _ _)
      rw [hts] at hread ⊢
      exact hread

end RoundTrip

/-! ## What is printed is one line -/

section OneLine

theorem hexDigit_ne_newline (n : Nat) (hn : n < 16) : hexDigit n ≠ '\n' := by
  revert n
  decide

theorem newline_escapeChar (c : Char) : '\n' ∉ escapeChar c := by
  unfold escapeChar
  repeat' split
  all_goals simp only [List.mem_cons, List.not_mem_nil, or_false, not_or]
  all_goals try decide
  · have h₁ := hexDigit_ne_newline (c.toNat / 16) (by omega)
    have h₂ := hexDigit_ne_newline (c.toNat % 16) (by omega)
    exact ⟨by decide, by decide, by decide, by decide, Ne.symm h₁, Ne.symm h₂⟩
  · exact Ne.symm ‹¬c = '\n'›

theorem newline_string (s : String) : '\n' ∉ string s := by
  rw [string, List.mem_append, List.mem_cons, List.mem_flatMap, List.mem_singleton]
  rintro ((h | ⟨c, _, h⟩) | h)
  · cases h
  · exact newline_escapeChar c h
  · cases h

theorem newline_text (v : Scalar) : '\n' ∉ v.text := by
  cases v with
  | null => decide
  | bool b => cases b <;> decide
  | nat n =>
      intro h
      have hd := Nat.isDigit_of_mem_toDigits (b := 10) (by omega) (by omega) h
      exact absurd hd (by decide)
  | string s => exact newline_string s

/-- The compact text of an object is one line. -/
theorem newline_objectText (members : List (String × Scalar)) : '\n' ∉ objectText members := by
  have hmember : ∀ name v, '\n' ∉ member name (Scalar.text v) := by
    intro name v
    rw [member, List.mem_append, List.mem_cons]
    rintro (h | h | h)
    · exact newline_string name h
    · cases h
    · exact newline_text v h
  have hmembers : ∀ ms : List (String × Scalar),
      '\n' ∉ (List.intersperse [','] (ms.map fun m => member m.1 m.2.text)).flatten := by
    intro ms
    induction ms with
    | nil => exact nofun
    | cons m ms ih =>
        cases ms with
        | nil =>
            rw [List.map_singleton, List.intersperse_singleton, List.flatten_singleton]
            exact hmember m.1 m.2
        | cons m' ms =>
            rw [List.map_cons] at ih
            rw [List.map_cons, List.map_cons, List.intersperse_cons_cons, List.flatten_cons,
              List.flatten_cons, List.mem_append, List.mem_append, List.mem_singleton]
            rintro (h | h | h)
            · exact hmember m.1 m.2 h
            · cases h
            · exact ih h
  rw [objectText, object, List.mem_append, List.mem_cons, List.mem_singleton]
  rintro ((h | h) | h)
  · cases h
  · exact hmembers members h
  · cases h

end OneLine

end Json
end Borehole
