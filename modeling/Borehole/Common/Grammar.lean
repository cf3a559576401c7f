/-
  Borehole.Common.Grammar

  The grammar of JSON texts (RFC 8259), and what no such text looks like: the
  beginning of a compact object.

  A scan keeps the depth of brackets outside string literals.  It is back at the
  depth it began at after every JSON text, and above it inside an object, so
  that an object cut short is no JSON text.
-/

import Borehole.Common.Json

namespace Borehole.Json

/-! ## The grammar -/

/-- Insignificant whitespace. -/
def isBlank (c : Char) : Bool :=
  c = ' ' || c = '\t' || c = '\n' || c = '\r'

/-- A decimal digit. -/
def isDigit (c : Char) : Bool :=
  (digit? c).isSome

/-- A hex digit, in either case. -/
def isHexDigit (c : Char) : Bool :=
  (hexDigit? c).isSome

/-- The integer part of a number has no leading zero. -/
inductive Integer : List Char → Prop where
  | zero : Integer ['0']
  | led {c cs} : isDigit c = true → c ≠ '0' → cs.all isDigit = true → Integer (c :: cs)

/-- The fraction of a number, if there is one. -/
inductive Fraction : List Char → Prop where
  | absent : Fraction []
  | digits {c cs} : (c :: cs).all isDigit = true → Fraction ('.' :: c :: cs)

/-- The exponent of a number, if there is one. -/
inductive Exponent : List Char → Prop where
  | absent : Exponent []
  | digits {e sign c cs} : e ∈ ['e', 'E'] → sign ∈ [[], ['+'], ['-']] →
      (c :: cs).all isDigit = true → Exponent (e :: sign ++ c :: cs)

/-- A number. -/
inductive Number : List Char → Prop where
  | parts {sign integer fraction exponent} : sign ∈ [[], ['-']] → Integer integer →
      Fraction fraction → Exponent exponent → Number (sign ++ integer ++ fraction ++ exponent)

/-- The characters between the quotes of a string literal. -/
inductive Chars : List Char → Prop where
  | nil : Chars []
  | plain {c cs} : c ≠ '"' → c ≠ '\\' → 32 ≤ c.toNat → Chars cs → Chars (c :: cs)
  | escape {c cs} : c ∈ ['"', '\\', '/', 'b', 'f', 'n', 'r', 't'] → Chars cs →
      Chars ('\\' :: c :: cs)
  | unicode {a b c d cs} : [a, b, c, d].all isHexDigit = true → Chars cs →
      Chars ('\\' :: 'u' :: a :: b :: c :: d :: cs)

/-- Between quotes. -/
def quoted (cs : List Char) : List Char :=
  '"' :: cs ++ ['"']

/-- Between braces. -/
def braced (cs : List Char) : List Char :=
  '\x7b' :: cs ++ ['\x7d']

/-- Between brackets. -/
def bracketed (cs : List Char) : List Char :=
  '[' :: cs ++ [']']

/-- The nonterminals of the grammar; an element is a value with whitespace around. -/
inductive Part where
  | value
  | element
  | elements
  | member
  | members
  deriving DecidableEq

/-- What a text is a text of. -/
inductive Derives : Part → List Char → Prop where
  | literal {w} : w ∈ ["null", "true", "false"] → Derives .value w.toList
  | number {cs} : Number cs → Derives .value cs
  | string {cs} : Chars cs → Derives .value (quoted cs)
  | emptyObject {ws} : ws.all isBlank = true → Derives .value (braced ws)
  | object {cs} : Derives .members cs → Derives .value (braced cs)
  | emptyArray {ws} : ws.all isBlank = true → Derives .value (bracketed ws)
  | array {cs} : Derives .elements cs → Derives .value (bracketed cs)
  | element {ws cs ws'} : ws.all isBlank = true → Derives .value cs → ws'.all isBlank = true →
      Derives .element (ws ++ cs ++ ws')
  | lastElement {cs} : Derives .element cs → Derives .elements cs
  | elements {cs cs'} : Derives .element cs → Derives .elements cs' →
      Derives .elements (cs ++ ',' :: cs')
  | member {ws name ws' cs} : ws.all isBlank = true → Chars name → ws'.all isBlank = true →
      Derives .element cs → Derives .member (ws ++ quoted name ++ ws' ++ ':' :: cs)
  | lastMember {cs} : Derives .member cs → Derives .members cs
  | members {cs cs'} : Derives .member cs → Derives .members cs' →
      Derives .members (cs ++ ',' :: cs')

/-- A JSON text. -/
abbrev IsText (cs : List Char) : Prop :=
  Derives .element cs

/-! ## Scanning -/

/-- Where a scan stands: outside string literals, inside one, or after a backslash
    in one, and the depth of brackets around. -/
inductive Scan where
  | out (depth : Int)
  | inside (depth : Int)
  | escape (depth : Int)
  deriving DecidableEq

/-- How deep in brackets the scan is. -/
def Scan.depth : Scan → Int
  | .out d | .inside d | .escape d => d

/-- How much deeper a character leads. -/
def weight (c : Char) : Int :=
  if c = '\x7b' ∨ c = '[' then 1 else if c = '\x7d' ∨ c = ']' then -1 else 0

/-- The scan past a character. -/
def Scan.step : Scan → Char → Scan
  | .out d, c => if c = '"' then .inside d else .out (d + weight c)
  | .inside d, c => if c = '"' then .out d else if c = '\\' then .escape d else .inside d
  | .escape d, _ => .inside d

/-- The scan past a text. -/
def scan (s : Scan) (cs : List Char) : Scan :=
  cs.foldl Scan.step s

section Scanning

variable {a b cs p : List Char} {c : Char} {d : Int}

@[simp] theorem scan_nil (s : Scan) : scan s [] = s := rfl

@[simp] theorem scan_cons (s : Scan) (c : Char) (cs : List Char) :
    scan s (c :: cs) = scan (s.step c) cs := rfl

theorem scan_append (s : Scan) (a b : List Char) : scan s (a ++ b) = scan (scan s a) b :=
  List.foldl_append

/-- A character that is no bracket leaves the depth as it is. -/
theorem depth_step (s : Scan) (hc : weight c = 0) : (s.step c).depth = s.depth := by
  cases s with
  | out d =>
      rw [Scan.step, hc]
      split
      · rfl
      · exact Int.add_zero d
  | inside d =>
      rw [Scan.step]
      split
      · rfl
      · split <;> rfl
  | escape d => rfl

/-! ### Inside a string literal -/

/-- A scan that begins inside a string literal is there at the end, and has not
    left it in between. -/
def StaysInside (cs : List Char) : Prop :=
  ∀ d, scan (.inside d) cs = .inside d ∧ ∀ p, p <+: cs → (scan (.inside d) p).depth = d

theorem StaysInside.cons (hquote : c ≠ '"') (hback : c ≠ '\\') (h : StaysInside cs) :
    StaysInside (c :: cs) := by
  intro d
  have hstep : Scan.step (.inside d) c = .inside d := by
    rw [Scan.step, if_neg hquote, if_neg hback]
  obtain ⟨hend, hpre⟩ := h d
  refine ⟨by rw [scan_cons, hstep, hend], ?_⟩
  intro p hp
  obtain rfl | ⟨q, rfl, hq⟩ := List.prefix_cons_iff.mp hp
  · rfl
  · rw [scan_cons, hstep]
    exact hpre q hq

theorem StaysInside.escape (c : Char) (h : StaysInside cs) : StaysInside ('\\' :: c :: cs) := by
  intro d
  obtain ⟨hend, hpre⟩ := h d
  refine ⟨hend, ?_⟩
  intro p hp
  obtain rfl | ⟨p, rfl, hp'⟩ := List.prefix_cons_iff.mp hp
  · rfl
  · obtain rfl | ⟨q, rfl, hq⟩ := List.prefix_cons_iff.mp hp'
    · rfl
    · exact hpre q hq

theorem isHexDigit_plain (h : isHexDigit c = true) : c ≠ '"' ∧ c ≠ '\\' := by
  constructor <;> rintro rfl <;> revert h <;> decide

theorem Chars.staysInside (h : Chars cs) : StaysInside cs := by
  induction h with
  | nil =>
      intro d
      refine ⟨rfl, fun p hp => ?_⟩
      rw [List.prefix_nil.mp hp]
      rfl
  | plain hq hb _ _ ih => exact ih.cons hq hb
  | escape _ _ ih => exact ih.escape _
  | unicode hhex _ ih =>
      -- the hexadecimal digits scan as plain characters
      have hplain := fun c hc => isHexDigit_plain (List.all_eq_true.mp hhex c hc)
      simp only [List.forall_mem_cons] at hplain
      obtain ⟨ha, hb, hc, hd, -⟩ := hplain
      exact ((((ih.cons hd.1 hd.2).cons hc.1 hc.2).cons hb.1 hb.2).cons ha.1 ha.2).escape _

/-! ### Outside -/

/-- A scan that begins outside string literals is back at its depth at the end, and
    has not been below it in between. -/
structure Balanced (cs : List Char) : Prop where
  back : ∀ d, scan (.out d) cs = .out d
  above : ∀ d p, p <+: cs → d ≤ (scan (.out d) p).depth

/-- Neither a quote nor a bracket. -/
def isPlain (c : Char) : Bool :=
  c ≠ '"' && weight c = 0

theorem scan_plain (h : cs.all isPlain = true) : scan (.out d) cs = .out d := by
  induction cs with
  | nil => rfl
  | cons c cs ih =>
      rw [List.all_cons, Bool.and_eq_true] at h
      obtain ⟨hc, hcs⟩ := h
      simp only [isPlain, Bool.and_eq_true, decide_eq_true_eq] at hc
      rw [scan_cons, Scan.step, if_neg hc.1, hc.2, Int.add_zero]
      exact ih hcs

theorem Balanced.plain (h : cs.all isPlain = true) : Balanced cs where
  back _ := scan_plain h
  above d p hp := by
    have hplain : p.all isPlain = true :=
      List.all_eq_true.mpr fun c hc => List.all_eq_true.mp h c (hp.subset hc)
    rw [scan_plain hplain]
    exact Int.le_refl d

theorem Balanced.append (ha : Balanced a) (hb : Balanced b) : Balanced (a ++ b) where
  back d := by rw [scan_append, ha.back, hb.back]
  above d p hp := by
    -- the prefix ends in `a` or in `b`
    obtain hpa | ⟨q, rfl⟩ := List.prefix_or_prefix_of_prefix hp (List.prefix_append a b)
    · exact ha.above d p hpa
    · rw [scan_append, ha.back]
      exact hb.above d q ((List.prefix_append_right_inj a).mp hp)

theorem Balanced.quoted (h : Chars cs) : Balanced (quoted cs) := by
  have hback : ∀ d, scan (.out d) (Json.quoted cs) = .out d := by
    intro d
    show scan (.inside d) (cs ++ ['"']) = _
    rw [scan_append, (h.staysInside d).1]
    rfl
  refine ⟨hback, ?_⟩
  intro d p hp
  obtain rfl | hp := List.prefix_concat_iff.mp hp
  · exact Int.le_of_eq (congrArg Scan.depth (hback d)).symm
  · obtain rfl | ⟨q, rfl, hq⟩ := List.prefix_cons_iff.mp hp
    · exact Int.le_refl d
    · exact Int.le_of_eq ((h.staysInside d).2 q hq).symm

/-- Inside the brackets of a group the depth is greater. -/
theorem Balanced.within {o : Char} (ho : o ≠ '"' ∧ weight o = 1) (h : Balanced cs)
    (hp : p <+: cs) : d + 1 ≤ (scan (.out d) (o :: p)).depth := by
  rw [scan_cons, Scan.step, if_neg ho.1, ho.2]
  exact h.above (d + 1) p hp

theorem Balanced.group {o e : Char} (ho : o ≠ '"' ∧ weight o = 1) (he : e ≠ '"' ∧ weight e = -1)
    (h : Balanced cs) : Balanced (o :: cs ++ [e]) := by
  have hback : ∀ d, scan (.out d) (o :: cs ++ [e]) = .out d := by
    intro d
    have hclose : d + 1 + -1 = d := by omega
    rw [List.cons_append, scan_cons, Scan.step, if_neg ho.1, ho.2, scan_append, h.back, scan_cons,
      Scan.step, if_neg he.1, he.2, hclose, scan_nil]
  refine ⟨hback, ?_⟩
  intro d p hp
  obtain rfl | hp := List.prefix_concat_iff.mp hp
  · exact Int.le_of_eq (congrArg Scan.depth (hback d)).symm
  · obtain rfl | ⟨q, rfl, hq⟩ := List.prefix_cons_iff.mp hp
    · exact Int.le_refl d
    · have hin := h.within (d := d) ho hq
      omega

theorem Balanced.braced (h : Balanced cs) : Balanced (braced cs) :=
  h.group ⟨by decide, rfl⟩ ⟨by decide, rfl⟩

theorem Balanced.bracketed (h : Balanced cs) : Balanced (bracketed cs) :=
  h.group ⟨by decide, rfl⟩ ⟨by decide, rfl⟩

/-! ### Texts of the grammar -/

theorem isPlain_of_isBlank (h : isBlank c = true) : isPlain c = true := by
  simp only [isBlank, Bool.or_eq_true, decide_eq_true_eq] at h
  obtain ((rfl | rfl) | rfl) | rfl := h <;> rfl

theorem isPlain_of_isDigit (h : isDigit c = true) : isPlain c = true := by
  have hne : ∀ e, isDigit e = false → c ≠ e := by
    rintro e he rfl
    rw [h] at he
    cases he
  have hweight : weight c = 0 := by
    rw [weight, if_neg (not_or_intro (hne _ rfl) (hne _ rfl)),
      if_neg (not_or_intro (hne _ rfl) (hne _ rfl))]
  simp [isPlain, hweight, hne '"' rfl]

theorem all_isPlain {f : Char → Bool} (hf : ∀ c, f c = true → isPlain c = true)
    (h : cs.all f = true) : cs.all isPlain = true :=
  List.all_eq_true.mpr fun c hc => hf c (List.all_eq_true.mp h c hc)

theorem Balanced.blank (h : cs.all isBlank = true) : Balanced cs :=
  .plain (all_isPlain (fun _ => isPlain_of_isBlank) h)

theorem Integer.plain (h : Integer cs) : cs.all isPlain = true := by
  cases h with
  | zero => rfl
  | led hc _ hcs =>
      rw [List.all_cons, isPlain_of_isDigit hc]
      exact all_isPlain (fun _ => isPlain_of_isDigit) hcs

theorem Fraction.plain (h : Fraction cs) : cs.all isPlain = true := by
  cases h with
  | absent => rfl
  | digits hcs =>
      rw [List.all_cons, all_isPlain (fun _ => isPlain_of_isDigit) hcs]
      rfl

theorem Exponent.plain (h : Exponent cs) : cs.all isPlain = true := by
  cases h with
  | absent => rfl
  | @digits e sign c cs he hsign hcs =>
      have he' : isPlain e = true := by
        simp only [List.mem_cons, List.not_mem_nil, or_false] at he
        obtain rfl | rfl := he <;> rfl
      have hsign' : sign.all isPlain = true := by
        simp only [List.mem_cons, List.not_mem_nil, or_false] at hsign
        obtain rfl | rfl | rfl := hsign <;> rfl
      rw [List.cons_append, List.all_cons, he', List.all_append, hsign',
        all_isPlain (fun _ => isPlain_of_isDigit) hcs]
      rfl

theorem Number.plain (h : Number cs) : cs.all isPlain = true := by
  cases h with
  | @parts sign integer fraction exponent hsign hint hfrac hexp =>
      have hsign' : sign.all isPlain = true := by
        simp only [List.mem_cons, List.not_mem_nil, or_false] at hsign
        obtain rfl | rfl := hsign <;> rfl
      rw [List.all_append, List.all_append, List.all_append, hsign', hint.plain, hfrac.plain,
        hexp.plain]
      rfl

theorem Balanced.cons (hc : isPlain c = true) (h : Balanced cs) : Balanced (c :: cs) := by
  have hone : Balanced [c] := .plain (by rw [List.all_cons, hc]; rfl)
  exact hone.append h

/-- Whatever the grammar derives is balanced. -/
theorem Derives.balanced {part : Part} (h : Derives part cs) : Balanced cs := by
  induction h with
  | literal hw =>
      simp only [List.mem_cons, List.not_mem_nil, or_false] at hw
      obtain rfl | rfl | rfl := hw <;> exact .plain rfl
  | number hn => exact .plain hn.plain
  | string hcs => exact .quoted hcs
  | emptyObject hws => exact (Balanced.blank hws).braced
  | object _ ih => exact ih.braced
  | emptyArray hws => exact (Balanced.blank hws).bracketed
  | array _ ih => exact ih.bracketed
  | element hws _ hws' ih => exact ((Balanced.blank hws).append ih).append (.blank hws')
  | lastElement _ ih => exact ih
  | elements _ _ ih ih' => exact ih.append (ih'.cons rfl)
  | member hws hname hws' _ ih =>
      exact (((Balanced.blank hws).append (.quoted hname)).append (.blank hws')).append
        (ih.cons rfl)
  | lastMember _ ih => exact ih
  | members _ _ ih ih' => exact ih.append (ih'.cons rfl)

end Scanning

/-! ## Compact objects -/

section Compact

variable {p : List Char} {c : Char}

theorem hexDigit_isHexDigit (n : Nat) (hn : n < 16) : isHexDigit (hexDigit n) = true := by
  rw [isHexDigit, hexDigit_round n hn]
  rfl

theorem isDigit_of_char (h : c.isDigit = true) : isDigit c = true := by
  simp only [Char.isDigit, Bool.and_eq_true, decide_eq_true_eq, ge_iff_le,
    UInt32.le_iff_toNat_le] at h
  have hrange : 48 ≤ c.toNat ∧ c.toNat ≤ 57 := h
  rw [isDigit, digit?, if_pos hrange]
  rfl

/-- What serde_json prints between quotes is in the grammar. -/
theorem chars_escape (cs : List Char) : Chars (cs.flatMap escapeChar) := by
  induction cs with
  | nil => exact .nil
  | cons c cs ih =>
      rw [List.flatMap_cons]
      generalize cs.flatMap escapeChar = rest at ih ⊢
      unfold escapeChar
      split
      · exact .escape (by decide) ih
      split
      · exact .escape (by decide) ih
      split
      · exact .escape (by decide) ih
      split
      · exact .escape (by decide) ih
      split
      · exact .escape (by decide) ih
      split
      · exact .escape (by decide) ih
      split
      · exact .escape (by decide) ih
      split
      · have hhi := hexDigit_isHexDigit (c.toNat / 16) (by omega)
        have hlo := hexDigit_isHexDigit (c.toNat % 16) (by omega)
        have hzero : isHexDigit '0' = true := rfl
        refine .unicode ?_ ih
        rw [List.all_cons, List.all_cons, List.all_cons, List.all_cons, hzero, hhi, hlo]
        rfl
      · rename_i hquote hback _ _ _ _ _ hctl
        exact .plain hquote hback (Nat.le_of_not_lt hctl) ih

theorem Balanced.string (s : String) : Balanced (string s) :=
  .quoted (chars_escape s.toList)

theorem Balanced.text (v : Scalar) : Balanced v.text := by
  cases v with
  | null => exact .plain rfl
  | bool b => cases b <;> exact .plain rfl
  | nat n =>
      refine .plain (List.all_eq_true.mpr fun c hc => isPlain_of_isDigit (isDigit_of_char ?_))
      exact Nat.isDigit_of_mem_toDigits (by omega) (by omega) hc
  | string s => exact .string s

theorem Balanced.member (name : String) (v : Scalar) : Balanced (member name v.text) :=
  (Balanced.string name).append ((Balanced.text v).cons rfl)

theorem Balanced.intersperse {members : List (List Char)} (h : ∀ m ∈ members, Balanced m) :
    Balanced (List.intersperse [','] members).flatten := by
  induction members with
  | nil => exact .plain rfl
  | cons m ms ih =>
      rw [List.forall_mem_cons] at h
      cases ms with
      | nil =>
          rw [List.intersperse_singleton, List.flatten_singleton]
          exact h.1
      | cons m' ms =>
          rw [List.intersperse_cons_cons, List.flatten_cons, List.flatten_cons]
          exact h.1.append ((ih h.2).cons rfl)

/-- Up to the closing brace of a compact object the scan is inside its braces. -/
theorem depth_objectText (ms : List (String × Scalar)) (hp : p <+: objectText ms) (hne : p ≠ [])
    (hcut : p ≠ objectText ms) : 1 ≤ (scan (.out 0) p).depth := by
  obtain rfl | hp := List.prefix_concat_iff.mp hp
  · exact absurd rfl hcut
  · obtain rfl | ⟨q, rfl, hq⟩ := List.prefix_cons_iff.mp hp
    · exact absurd rfl hne
    · refine Balanced.within (d := 0) ⟨by decide, rfl⟩ (Balanced.intersperse ?_) hq
      intro m hm
      obtain ⟨⟨name, v⟩, _, rfl⟩ := List.mem_map.mp hm
      exact .member name v

/-- A compact object cut short is no JSON text, nor is it with one more character
    that is no bracket. -/
theorem cut_not_isText (ms : List (String × Scalar)) (hp : p <+: objectText ms) (hne : p ≠ [])
    (hcut : p ≠ objectText ms) (hc : weight c = 0) : ¬IsText p ∧ ¬IsText (p ++ [c]) := by
  have hdepth := depth_objectText ms hp hne hcut
  constructor <;> intro h
  · rw [h.balanced.back 0] at hdepth
    exact absurd hdepth (by decide)
  · have hend := congrArg Scan.depth (h.balanced.back 0)
    rw [scan_append, scan_cons, scan_nil, depth_step _ hc] at hend
    rw [hend] at hdepth
    exact absurd hdepth (by decide)

end Compact

/-! ## What the reader accepts -/

/-- The texts of a token. -/
inductive Spells : Token → List Char → Prop where
  | «open» : Spells .open ['\x7b']
  | close : Spells .close ['\x7d']
  | colon : Spells .colon [':']
  | comma : Spells .comma [',']
  | string {s cs} : Chars cs → Spells (.value (.string s)) (quoted cs)
  | scalar {v cs} : (∀ s, v ≠ .string s) → Derives .value cs → Spells (.value v) cs

/-- The texts of a sequence of tokens. -/
inductive Tokens : List Token → List Char → Prop where
  | nil : Tokens [] []
  | blank {c ts cs} : isBlank c = true → Tokens ts cs → Tokens ts (c :: cs)
  | token {t ts w cs} : Spells t w → Tokens ts cs → Tokens (t :: ts) (w ++ cs)

/-- The characters that the lexer has read of the token it is inside of. -/
def Lexing.Read : Lexing → List Char → Prop
  | .between, r => r = []
  | .string _, r => ∃ cs, Chars cs ∧ r = '"' :: cs
  | .escape _, r => ∃ cs, Chars cs ∧ r = '"' :: cs ++ ['\\']
  | .unicode _ more _, r =>
      ∃ cs hex, Chars cs ∧ hex.all isHexDigit = true ∧ hex.length + more = 3 ∧
        r = '"' :: cs ++ '\\' :: 'u' :: hex
  | .number n, r => Integer r ∧ (n ≠ 0 → r ≠ ['0'])
  | .word acc, r => r = acc.reverse

/-- The lexer comes to `s'` having finished `toks`: of the characters `r` since the
    last token, some spell those tokens and the others are read of the next. -/
def Splits (r : List Char) (s' : Lexing) (toks : List Token) : Prop :=
  ∃ w r', r = w ++ r' ∧ s'.Read r' ∧ ∀ ts cs, Tokens ts cs → Tokens (toks ++ ts) (w ++ cs)

section Sound

variable {s s' : Lexing} {c : Char} {r cs : List Char} {t : Token} {ts toks : List Token}
  {v : Scalar}

theorem Chars.append {cs' : List Char} (h : Chars cs) (h' : Chars cs') : Chars (cs ++ cs') := by
  induction h with
  | nil => exact h'
  | plain hq hb hc _ ih => exact .plain hq hb hc ih
  | escape hc _ ih => exact .escape hc ih
  | unicode hhex _ ih => exact .unicode hhex ih

theorem Splits.keep (h : s'.Read r) : Splits r s' [] :=
  ⟨[], r, rfl, h, fun _ _ hts => hts⟩

theorem Splits.finish (h : Spells t r) : Splits r .between [t] :=
  ⟨r, [], (List.append_nil r).symm, rfl, fun _ _ hts => .token h hts⟩

theorem next_splits (h : next c = some (s', toks)) : Splits [c] s' toks := by
  unfold next at h
  split at h
  -- `{`, `}`, `:` and `,` are tokens of one character.
  · rename_i hc
    cases h
    exact .finish (hc ▸ .open)
  split at h
  · rename_i hc
    cases h
    exact .finish (hc ▸ .close)
  split at h
  · rename_i hc
    cases h
    exact .finish (hc ▸ .colon)
  split at h
  · rename_i hc
    cases h
    exact .finish (hc ▸ .comma)
  split at h
  -- whitespace spells no token
  · rename_i hc
    have hblank : isBlank c = true := by
      obtain rfl | rfl | rfl | rfl := hc <;> rfl
    cases h
    exact ⟨[c], [], rfl, rfl, fun _ _ hts => .blank hblank hts⟩
  split at h
  · rename_i hc
    cases h
    exact .keep ⟨[], .nil, by rw [hc]⟩
  split at h
  -- A letter begins a literal.
  · cases h
    exact .keep rfl
  · obtain ⟨d, hd, hr⟩ := Option.map_eq_some_iff.mp h
    cases hr
    refine .keep ?_
    have hdigit : isDigit c = true := by rw [isDigit, hd]; rfl
    by_cases hzero : c = '0'
    · subst hzero
      have hd' : d = 0 := (Option.some.inj hd).symm
      exact ⟨.zero, fun hne => absurd hd' hne⟩
    · exact ⟨.led hdigit hzero rfl, fun _ hr => hzero (List.head_eq_of_cons_eq hr)⟩

/-- A character after a token that it ends. -/
theorem after_splits (hv : Spells (.value v) r) (h : after (some v) c = some (s', toks)) :
    Splits (r ++ [c]) s' toks := by
  obtain ⟨⟨s₁, toks₁⟩, hnext, hr⟩ := Option.map_eq_some_iff.mp h
  cases hr
  obtain ⟨w, r', hc, hread, htoks⟩ := next_splits hnext
  refine ⟨r ++ w, r', by rw [hc, List.append_assoc], hread, ?_⟩
  intro ts cs hts
  rw [List.append_assoc]
  exact .token hv (htoks ts cs hts)

theorem number_spells {n : Nat} (h : Integer r) : Spells (.value (.nat n)) r := by
  have hnum : Number ([] ++ r ++ [] ++ []) := .parts (by decide) h .absent .absent
  rw [List.nil_append, List.append_nil, List.append_nil] at hnum
  exact .scalar nofun (.number hnum)

theorem word_spells {acc : List Char} (h : word? acc = some v) : Spells (.value v) acc.reverse := by
  unfold word? at h
  split at h
  · rename_i hacc
    cases h
    exact .scalar nofun (hacc ▸ .literal (by decide))
  split at h
  · rename_i hacc
    cases h
    exact .scalar nofun (hacc ▸ .literal (by decide))
  split at h
  · rename_i hacc
    cases h
    exact .scalar nofun (hacc ▸ .literal (by decide))
  · cases h

theorem unescape_escape {e : Char} (h : unescape? c = some e) :
    c ∈ ['"', '\\', '/', 'b', 'f', 'n', 'r', 't'] := by
  unfold unescape? at h
  split at h
  · rename_i hc
    obtain rfl | rfl | rfl := hc <;> decide
  repeat'
    split at h
    · rename_i hc
      rw [hc]
      decide
  cases h

theorem Integer.snoc (h : Integer r) (hr : r ≠ ['0']) (hc : isDigit c = true) :
    Integer (r ++ [c]) := by
  cases h with
  | zero => exact absurd rfl hr
  | led hd hne hds =>
      refine .led hd hne ?_
      rw [List.append_eq, List.all_append, hds, List.all_cons, hc]
      rfl

/-- One character. -/
theorem step_splits (hr : s.Read r) (h : step s c = some (s', toks)) :
    Splits (r ++ [c]) s' toks := by
  cases s with
  | between =>
      obtain rfl := hr
      exact next_splits h
  | string acc =>
      obtain ⟨cs, hcs, rfl⟩ := hr
      rw [step] at h
      split at h
      · rename_i hc
        cases h
        rw [hc]
        exact .finish (.string hcs)
      split at h
      · rename_i hc
        cases h
        exact .keep ⟨cs, hcs, by rw [hc]⟩
      split at h
      · cases h
      · rename_i hquote hback hctl
        cases h
        have hc : Chars [c] := .plain hquote hback (Nat.le_of_not_lt hctl) .nil
        exact .keep ⟨cs ++ [c], hcs.append hc, rfl⟩
  | escape acc =>
      obtain ⟨cs, hcs, rfl⟩ := hr
      rw [step] at h
      split at h
      · rename_i hc
        cases h
        exact .keep ⟨cs, [], hcs, rfl, rfl, by simp [hc]⟩
      · obtain ⟨e, he, hr⟩ := Option.map_eq_some_iff.mp h
        cases hr
        have hesc : Chars ['\\', c] := .escape (unescape_escape he) .nil
        exact .keep ⟨cs ++ ['\\', c], hcs.append hesc, by simp⟩
  | unicode acc more value =>
      obtain ⟨cs, hex, hcs, hhex, hlen, rfl⟩ := hr
      obtain ⟨d, hd, h⟩ := Option.bind_eq_some_iff.mp h
      have hc : isHexDigit c = true := by rw [isHexDigit, hd]; rfl
      have hhex' : (hex ++ [c]).all isHexDigit = true := by
        rw [List.all_append, hhex, List.all_cons, hc]
        rfl
      cases more with
      | succ more =>
          cases h
          refine .keep ⟨cs, hex ++ [c], hcs, hhex', ?_, by simp⟩
          rw [List.length_append, List.length_singleton]
          omega
      | zero =>
          obtain ⟨-, h⟩ := Option.ite_none_right_eq_some.mp h
          cases h
          -- the fourth digit
          obtain ⟨a, b, d, rfl⟩ := List.length_eq_three.mp hlen
          have hesc : Chars ['\\', 'u', a, b, d, c] := .unicode hhex' .nil
          exact .keep ⟨cs ++ ['\\', 'u', a, b, d, c], hcs.append hesc, by simp⟩
  | number n =>
      obtain ⟨hint, hzero⟩ := hr
      rw [step] at h
      split at h
      · rename_i d hd
        have hc : isDigit c = true := by rw [isDigit, hd]; rfl
        split at h
        · cases h
        · rename_i hn
          cases h
          refine .keep ⟨hint.snoc (hzero hn) hc, fun _ he => ?_⟩
          have hlen := congrArg List.length he
          have hnil : r = [] := List.eq_nil_of_length_eq_zero (by simpa using hlen)
          subst hnil
          cases hint
      · exact after_splits (number_spells hint) h
  | word acc =>
      obtain rfl := hr
      rw [step] at h
      split at h
      · cases h
        exact .keep (List.reverse_cons).symm
      · cases hw : word? acc with
        | none => rw [hw] at h; cases h
        | some v =>
            rw [hw] at h
            exact after_splits (word_spells hw) h

theorem finish_tokens (hr : s.Read r) (h : finish s = some ts) : Tokens ts r := by
  have hlast : ∀ v, Spells (.value v) r → Tokens [.value v] r := by
    intro v hv
    have hts := Tokens.token hv .nil
    rwa [List.append_nil] at hts
  cases s with
  | between =>
      cases h
      obtain rfl := hr
      exact .nil
  | number n =>
      cases h
      exact hlast _ (number_spells hr.1)
  | word acc =>
      obtain ⟨v, hv, rfl⟩ := Option.map_eq_some_iff.mp h
      obtain rfl := hr
      exact hlast v (word_spells hv)
  | string | escape | unicode => cases h

/-- The lexer yields the tokens that the text spells. -/
theorem lex_tokens (hr : s.Read r) (h : lex s cs = some ts) : Tokens ts (r ++ cs) := by
  induction cs generalizing s r ts with
  | nil =>
      rw [List.append_nil]
      exact finish_tokens hr h
  | cons c cs ih =>
      obtain ⟨⟨s', toks⟩, hstep, h⟩ := Option.bind_eq_some_iff.mp h
      obtain ⟨ts', hlex, rfl⟩ := Option.map_eq_some_iff.mp h
      obtain ⟨w, r', hw, hread, htoks⟩ := step_splits hr hstep
      have hsplit : r ++ c :: cs = w ++ (r' ++ cs) := by
        rw [← List.append_assoc, ← hw, List.append_assoc, List.singleton_append]
      rw [hsplit]
      exact htoks ts' (r' ++ cs) (ih hread hlex)

theorem Tokens.blanks (h : Tokens [] cs) : cs.all isBlank = true := by
  generalize hts : ([] : List Token) = ts at h
  induction h with
  | nil => rfl
  | blank hc _ ih => rw [List.all_cons, hc, ih hts]; rfl
  | token => cases hts

theorem Tokens.cons (h : Tokens (t :: ts) cs) :
    ∃ ws w rest, ws.all isBlank = true ∧ Spells t w ∧ Tokens ts rest ∧ cs = ws ++ (w ++ rest) := by
  generalize hts : t :: ts = ts' at h
  induction h with
  | nil => cases hts
  | blank hc _ ih =>
      obtain ⟨ws, w, rest, hws, hw, hrest, rfl⟩ := ih hts
      exact ⟨_ :: ws, w, rest, by rw [List.all_cons, hc, hws]; rfl, hw, hrest, rfl⟩
  | token hw hrest =>
      cases hts
      exact ⟨[], _, _, rfl, hw, hrest, rfl⟩

theorem Spells.value (h : Spells (.value v) cs) : Derives .value cs := by
  cases h with
  | string hcs => exact .string hcs
  | scalar _ hd => exact hd

/-- A name, a colon and a value are a member, with any whitespace after it. -/
theorem Tokens.member {name : String}
    (h : Tokens (.value (.string name) :: .colon :: .value v :: ts) cs) :
    ∃ m rest, cs = m ++ rest ∧ Tokens ts rest ∧
      ∀ ws, ws.all isBlank = true → Derives .member (m ++ ws) := by
  obtain ⟨ws₁, w₁, rest₁, hws₁, hw₁, h₁, rfl⟩ := h.cons
  obtain ⟨ws₂, w₂, rest₂, hws₂, hw₂, h₂, rfl⟩ := h₁.cons
  obtain ⟨ws₃, w₃, rest₃, hws₃, hw₃, h₃, rfl⟩ := h₂.cons
  cases hw₂
  cases hw₁ with
  | scalar hne => exact absurd rfl (hne name)
  | @string _ body hname =>
      refine ⟨ws₁ ++ quoted body ++ ws₂ ++ ':' :: (ws₃ ++ w₃), rest₃, by simp, h₃, fun ws hws => ?_⟩
      have hm := Derives.member hws₁ hname hws₂ (.element hws₃ hw₃.value hws)
      rw [List.append_assoc, List.cons_append]
      exact hm

/-- The tokens of an object's members and its closing brace. -/
theorem members_tokens {ms : List (String × Scalar)} (hms : members ts = some ms)
    (h : Tokens ts cs) :
    ∃ inner ws, cs = inner ++ '\x7d' :: ws ∧ Derives .members inner ∧ ws.all isBlank = true := by
  fun_induction members ts generalizing cs ms with
  | case1 name v =>
      obtain ⟨m, rest, rfl, hrest, hm⟩ := h.member
      obtain ⟨ws, w, rest', hws, hw, hend, rfl⟩ := hrest.cons
      cases hw
      exact ⟨m ++ ws, rest', by simp, .lastMember (hm ws hws), hend.blanks⟩
  | case2 name v ts ih =>
      obtain ⟨ms', hms', -⟩ := Option.map_eq_some_iff.mp hms
      obtain ⟨m, rest, rfl, hrest, hm⟩ := h.member
      obtain ⟨ws, w, rest', hws, hw, hmore, rfl⟩ := hrest.cons
      cases hw
      obtain ⟨inner, ws', rfl, hinner, hws'⟩ := ih hms' hmore
      exact ⟨m ++ ws ++ ',' :: inner, ws', by simp, .members (hm ws hws) hinner, hws'⟩
  | case3 => cases hms

/-- The reader reads JSON texts only. -/
theorem readObject_isText {ms : List (String × Scalar)} (h : readObject cs = some ms) :
    IsText cs := by
  obtain ⟨ts, hlex, hobject⟩ := Option.bind_eq_some_iff.mp h
  have hts : Tokens ts cs := lex_tokens (s := .between) (r := []) rfl hlex
  split at hobject
  · obtain ⟨ws, w, rest, hws, hw, hrest, rfl⟩ := hts.cons
    obtain ⟨ws', w', rest', hws', hw', hend, rfl⟩ := hrest.cons
    cases hw
    cases hw'
    have htext := Derives.element hws (.emptyObject hws') hend.blanks
    rwa [braced, List.append_assoc, List.append_assoc] at htext
  · obtain ⟨ws, w, rest, hws, hw, hrest, rfl⟩ := hts.cons
    cases hw
    obtain ⟨inner, ws', rfl, hinner, hws'⟩ := members_tokens hobject hrest
    have htext := Derives.element hws (.object hinner) hws'
    rwa [braced, List.append_assoc, List.cons_append, List.cons_append, List.append_assoc] at htext
  · cases hobject

end Sound

end Borehole.Json
