/-
  Borehole.Cli.Login

  The hand-off of a login token from the server's redirect (`percent_encode`,
  crates/server/src/api/auth.rs) to the CLI's local callback (`parse_callback`,
  `percent_decode` and `hex_val`, crates/cli/src/main.rs).
-/

import Borehole.Common.Frames
import Mathlib.Data.List.TakeDrop

namespace Borehole.Login

/-! ## `percent_encode` -/

/-- A digit of `{:02X}`. -/
def upperHex (n : Nat) : Char :=
  if n < 10 then Char.ofNat (48 + n) else Char.ofNat (55 + n)

/-- The unreserved characters of RFC 3986. -/
def unreserved (b : UInt8) : Bool :=
  (65 ≤ b.toNat && b.toNat ≤ 90) || (97 ≤ b.toNat && b.toNat ≤ 122) ||
    (48 ≤ b.toNat && b.toNat ≤ 57) || b = 45 || b = 46 || b = 95 || b = 126

/-- A byte, percent-encoded unless it is unreserved. -/
def encodeByte (b : UInt8) : List Char :=
  if unreserved b then [Char.ofNat b.toNat]
  else ['%', upperHex (b.toNat / 16), upperHex (b.toNat % 16)]

/-- Percent-encodes a query-string value. -/
def percentEncode (input : String) : String :=
  String.ofList ((asBytes input).flatMap encodeByte)

/-! ## `percent_decode` -/

/-- Converts a single hex digit to its value. -/
def hexVal (b : UInt8) : Option UInt8 :=
  if 48 ≤ b.toNat ∧ b.toNat ≤ 57 then some (b - 48)
  else if 97 ≤ b.toNat ∧ b.toNat ≤ 102 then some (b - 97 + 10)
  else if 65 ≤ b.toNat ∧ b.toNat ≤ 70 then some (b - 65 + 10)
  else none

/-- The byte of an escape. -/
def escape? (b h l : UInt8) : Option UInt8 :=
  if b = 37 then (hexVal h).bind fun h => (hexVal l).map fun l => h * 16 + l else none

/-- A byte that starts no escape. -/
def plain (b : UInt8) : UInt8 :=
  if b = 43 then 32 else b

/-- The loop of `percent_decode`.  Fewer than three bytes hold no escape
    (`i + 2 < bytes.len()`). -/
def decodeBytes : List UInt8 → List UInt8
  | [] => []
  | [b] => [plain b]
  | [b, c] => [plain b, plain c]
  | b :: h :: l :: rest =>
      match escape? b h l with
      | some v => v :: decodeBytes rest
      | none => plain b :: decodeBytes (h :: l :: rest)

/-- Minimal `application/x-www-form-urlencoded` decoder (`%XX` and `+`). -/
def percentDecode (input : List Char) : String :=
  Utf8.fromUtf8Lossy (decodeBytes (Utf8.encode input))

/-! ## `parse_callback` -/

/-- `str::split_whitespace` -/
def splitWhitespace (s : List Char) : List (List Char) :=
  (s.splitOnP isWhitespace).filter fun w => !w.isEmpty

/-- `str::split_once` -/
def splitOnce (c : Char) (s : List Char) : Option (List Char × List Char) :=
  match s.span fun d => d != c with
  | (a, _ :: b) => some (a, b)
  | (_, []) => none

/-- One pair of the query. -/
def readPair (acc : Option String × Option String) (pair : List Char) :
    Option String × Option String :=
  match splitOnce '=' pair with
  | some (key, value) =>
      if key = "token".toList then (some (percentDecode value), acc.2)
      else if key = "expires".toList then (acc.1, some (percentDecode value))
      else acc
  | none => acc

/-- Parses the HTTP request line of the auth callback, extracting `token` and
    the optional `expires` query parameters. -/
def parseCallback (requestLine : String) : Option (String × Option String) :=
  (splitWhitespace requestLine.toList)[1]?.bind fun target =>
    let query := ((splitOnce '?' target).map Prod.snd).getD []
    let r := (query.splitOn '&').foldl readPair (none, none)
    r.1.map fun t => (t, r.2)

/-! ## Decoding -/

/-- The hexadecimal digits for a value below 16, in lower and in upper case. -/
def hexDigits (n : Nat) : List Char :=
  [if n < 10 then Char.ofNat (48 + n) else Char.ofNat (87 + n), upperHex n]

/-- The ways of writing bytes in a form-urlencoded text. -/
inductive Writes : List UInt8 → List Char → Prop where
  | nil : Writes [] []
  | escape {b bs h l cs} : h ∈ hexDigits (b.toNat / 16) → l ∈ hexDigits (b.toNat % 16) →
      Writes bs cs → Writes (b :: bs) ('%' :: h :: l :: cs)
  | plus {bs cs} : Writes bs cs → Writes (32 :: bs) ('+' :: cs)
  | literal {c bs cs} : 32 < c.toNat → c.toNat < 127 → c ≠ '%' → c ≠ '+' → c ≠ '&' →
      Writes bs cs → Writes (UInt8.ofNat c.toNat :: bs) (c :: cs)

section Decode

variable {b : UInt8} {bytes : List UInt8} {c : Char} {cs : List Char} {n : Nat}

theorem encode_cons_ascii (hc : c.toNat < 128) :
    Utf8.encode (c :: cs) = UInt8.ofNat c.toNat :: Utf8.encode cs := by
  have hle : c.val.toNat ≤ 127 := Nat.le_of_lt_succ hc
  rw [Utf8.encode, List.flatMap_cons, String.utf8EncodeChar, if_pos hle]
  rfl

theorem hexDigits_lt (hn : n < 16) (hc : c ∈ hexDigits n) : c.toNat < 128 := by
  have hall : ∀ n < 16, (hexDigits n).all (fun c => c.toNat < 128) = true := by decide
  exact of_decide_eq_true (List.all_eq_true.mp (hall n hn) c hc)

/-- `hex_val` reads either case. -/
theorem hexVal_digit (hn : n < 16) (hc : c ∈ hexDigits n) :
    hexVal (UInt8.ofNat c.toNat) = some (UInt8.ofNat n) := by
  have hall : ∀ n < 16, (hexDigits n).all
      (fun c => hexVal (UInt8.ofNat c.toNat) = some (UInt8.ofNat n)) = true := by decide
  exact of_decide_eq_true (List.all_eq_true.mp (hall n hn) c hc)

/-- An escape is read as its byte, wherever it stands. -/
theorem decodeBytes_escape {h l : Char} (hh : h ∈ hexDigits (b.toNat / 16))
    (hl : l ∈ hexDigits (b.toNat % 16)) :
    decodeBytes (37 :: UInt8.ofNat h.toNat :: UInt8.ofNat l.toNat :: bytes) =
      b :: decodeBytes bytes := by
  have hb : b.toNat < 256 := b.toNat_lt
  have hval : UInt8.ofNat (b.toNat / 16) * 16 + UInt8.ofNat (b.toNat % 16) = b := by
    apply UInt8.toNat_inj.mp
    simp
    omega
  have hesc : escape? 37 (UInt8.ofNat h.toNat) (UInt8.ofNat l.toNat) = some b := by
    rw [escape?, if_pos rfl, hexVal_digit (by omega) hh, Option.bind_some,
      hexVal_digit (by omega) hl, Option.map_some, hval]
  rw [decodeBytes, hesc]

theorem decodeBytes_plain (hb : b ≠ 37) :
    decodeBytes (b :: bytes) = plain b :: decodeBytes bytes := by
  rcases bytes with _ | ⟨h, _ | ⟨l, bytes⟩⟩
  · rfl
  · rfl
  · rw [decodeBytes, escape?, if_neg hb]

/-- Whatever way bytes are written in, they are read back. -/
theorem Writes.decode (h : Writes bytes cs) : decodeBytes (Utf8.encode cs) = bytes := by
  induction h with
  | nil => rfl
  | @escape b bs h l cs hh hl _ ih =>
      have hb : b.toNat < 256 := b.toNat_lt
      rw [encode_cons_ascii (by decide), encode_cons_ascii (hexDigits_lt (by omega) hh),
        encode_cons_ascii (hexDigits_lt (by omega) hl)]
      exact (decodeBytes_escape hh hl).trans (congrArg _ ih)
  | plus _ ih =>
      rw [encode_cons_ascii (by decide)]
      exact (decodeBytes_plain (by decide)).trans (congrArg _ ih)
  | @literal c bs cs hlow hhigh hpct hplus _ _ ih =>
      have hne : ∀ n, n < 128 → c ≠ Char.ofNat n → UInt8.ofNat c.toNat ≠ UInt8.ofNat n := by
        intro n hn hc he
        apply hc
        have hmod := congrArg UInt8.toNat he
        simp only [UInt8.toNat_ofNat'] at hmod
        have heq : c.toNat = n := by omega
        rw [← heq, Char.ofNat_toNat]
      rw [encode_cons_ascii (by omega), decodeBytes_plain (hne 37 (by omega) hpct), plain,
        if_neg (show ¬UInt8.ofNat c.toNat = 43 from hne 43 (by omega) hplus), ih]

theorem percentDecode_writes {s : String} (h : Writes (asBytes s) cs) : percentDecode cs = s := by
  have hs : asBytes s = Utf8.encode s.toList := rfl
  rw [percentDecode, h.decode, hs, Utf8.fromUtf8Lossy_encode, String.ofList_toList]

/-! ## Encoding -/

theorem upperHex_mem (n : Nat) : upperHex n ∈ hexDigits n :=
  List.mem_cons_of_mem _ (List.mem_singleton.mpr rfl)

theorem toNat_byte (hn : n < 256) : (Char.ofNat n).toNat = n := by
  have hv : n.isValidChar := Or.inl (by omega)
  rw [Char.ofNat, dif_pos hv]
  rfl

theorem unreserved_code (hb : unreserved b = true) :
    b.toNat = 45 ∨ b.toNat = 46 ∨ 48 ≤ b.toNat ∧ b.toNat ≤ 57 ∨ 65 ≤ b.toNat ∧ b.toNat ≤ 126 := by
  simp only [unreserved, Bool.or_eq_true, Bool.and_eq_true, decide_eq_true_eq] at hb
  obtain (((((hb | hb) | hb) | rfl) | rfl) | rfl) | rfl := hb
  · omega
  · omega
  · omega
  all_goals decide

theorem unreserved_char (hb : unreserved b = true) :
    32 < b.toNat ∧ b.toNat < 127 ∧ Char.ofNat b.toNat ≠ '%' ∧ Char.ofNat b.toNat ≠ '+' ∧
      Char.ofNat b.toNat ≠ '&' := by
  have hcode := unreserved_code hb
  have hval := toNat_byte b.toNat_lt
  have hne : ∀ c : Char, c.toNat < 45 → Char.ofNat b.toNat ≠ c := by
    intro c hc he
    rw [he] at hval
    omega
  exact ⟨by omega, by omega, hne _ (by decide), hne _ (by decide), hne _ (by decide)⟩

/-- The encoder's way of writing is one of them. -/
theorem writes_encode (bytes : List UInt8) : Writes bytes (bytes.flatMap encodeByte) := by
  induction bytes with
  | nil => exact .nil
  | cons b bytes ih =>
      rw [List.flatMap_cons, encodeByte]
      split
      · rename_i hb
        obtain ⟨hlow, hhigh, hpct, hplus, hamp⟩ := unreserved_char hb
        have hval := toNat_byte b.toNat_lt
        have hw := Writes.literal (c := Char.ofNat b.toNat) (by omega) (by omega) hpct hplus hamp ih
        rwa [hval, UInt8.ofNat_toNat] at hw
      · exact .escape (upperHex_mem _) (upperHex_mem _) ih

theorem percentDecode_encode (s : String) : percentDecode (percentEncode s).toList = s := by
  rw [percentEncode, String.toList_ofList]
  exact percentDecode_writes (writes_encode _)

/-- The characters that the request line is split at. -/
def separator (c : Char) : Bool :=
  isWhitespace c || c = '?' || c = '&' || c = '='

theorem separator_code (hc : c.toNat = 37 ∨ c.toNat = 45 ∨ c.toNat = 46 ∨
    48 ≤ c.toNat ∧ c.toNat ≤ 57 ∨ 65 ≤ c.toNat ∧ c.toNat ≤ 126) : separator c = false := by
  have hne : ∀ d : Char, d.toNat = 38 ∨ d.toNat = 61 ∨ d.toNat = 63 → ¬c = d := by
    rintro d hd rfl
    omega
  have hwhite : isWhitespace c = false := by
    simp only [isWhitespace, Bool.or_eq_false_iff, Bool.and_eq_false_iff, decide_eq_false_iff_not]
    omega
  rw [separator, hwhite, decide_eq_false (hne '?' (by decide)),
    decide_eq_false (hne '&' (by decide)),
    decide_eq_false (hne '=' (by decide))]
  rfl

/-- An encoded value is not cut anywhere. -/
theorem separator_encode {s : String} (hc : c ∈ (percentEncode s).toList) :
    separator c = false := by
  rw [percentEncode, String.toList_ofList, List.mem_flatMap] at hc
  obtain ⟨b, _, hc⟩ := hc
  have hdigit : ∀ n < 16, separator (upperHex n) = false := by decide
  have hb : b.toNat < 256 := b.toNat_lt
  rw [encodeByte] at hc
  split at hc
  · rename_i hu
    rw [List.mem_singleton.mp hc]
    have hcode := unreserved_code hu
    exact separator_code (by rw [toNat_byte hb]; omega)
  · simp only [List.mem_cons, List.not_mem_nil, or_false] at hc
    obtain rfl | rfl | rfl := hc
    · decide
    · exact hdigit _ (by omega)
    · exact hdigit _ (by omega)

/-! ## Splitting -/

theorem splitOnce_append {a z : List Char} (ha : c ∉ a) :
    splitOnce c (a ++ c :: z) = some (a, z) := by
  have hall : ∀ d ∈ a, (d != c) = true := by
    intro d hd
    rw [bne_iff_ne]
    rintro rfl
    exact ha hd
  rw [splitOnce, List.span_eq_takeWhile_dropWhile, List.takeWhile_append_of_pos hall,
    List.dropWhile_append_of_pos hall, List.takeWhile_cons_of_neg (by simp),
    List.dropWhile_cons_of_neg (by simp), List.append_nil]

/-- A predicate that no character of a word has, checked by evaluation. -/
theorem none_of_all {p : Char → Bool} {w : List Char} (h : w.all (fun c => !p c) = true) :
    ∀ c ∈ w, p c = false := by
  intro c hc
  exact Bool.not_eq_true' _ ▸ List.all_eq_true.mp h c hc

/-- The words of a line of three words, with white space after them. -/
theorem splitWhitespace_three {a m z eol : List Char} (ha : a ≠ []) (hm : m ≠ [])
    (ha' : ∀ c ∈ a, isWhitespace c = false) (hm' : ∀ c ∈ m, isWhitespace c = false) :
    (splitWhitespace (a ++ ' ' :: (m ++ ' ' :: z ++ eol)))[1]? = some m := by
  have hsp : isWhitespace ' ' = true := by decide
  have hne : ∀ w : List Char, w ≠ [] → (!w.isEmpty) = true := by
    intro w hw
    cases w with
    | nil => exact absurd rfl hw
    | cons => rfl
  have hz : m ++ ' ' :: z ++ eol = m ++ ' ' :: (z ++ eol) := by simp
  rw [splitWhitespace, List.splitOnP_append_cons _ _ hsp, List.splitOnP_eq_singleton ha', hz,
    List.splitOnP_append_cons _ _ hsp, List.splitOnP_eq_singleton hm', List.filter_append,
    List.filter_append, List.filter_singleton, List.filter_singleton, hne a ha, hne m hm]
  rfl

end Decode

/-- The request line of the redirect, with the line ending that is read with it. -/
def requestLine (jwt expires eol : String) : String :=
  "GET /?token=" ++ percentEncode jwt ++ "&expires=" ++ percentEncode expires ++ " HTTP/1.1" ++ eol

theorem requestLine_toList (jwt expires eol : String) :
    (requestLine jwt expires eol).toList = "GET".toList ++ ' ' ::
      ('/' :: '?' :: ("token".toList ++ '=' :: (percentEncode jwt).toList ++ '&' ::
        ("expires".toList ++ '=' :: (percentEncode expires).toList)) ++
          ' ' :: "HTTP/1.1".toList ++ eol.toList) := by
  delta requestLine
  simp

/-- A parameter written without separators has no `&` and no white space in it. -/
theorem parameter_chars {name value : List Char} {c : Char}
    (hname : ∀ c ∈ name, separator c = false) (hvalue : ∀ c ∈ value, separator c = false)
    (hc : c ∈ name ++ '=' :: value) : (c == '&') = false ∧ isWhitespace c = false := by
  have hor : c = '=' ∨ separator c = false := by
    rw [List.mem_append, List.mem_cons] at hc
    obtain h | h | h := hc
    · exact Or.inr (hname c h)
    · exact Or.inl h
    · exact Or.inr (hvalue c h)
  obtain rfl | h := hor
  · decide
  · simp only [separator, Bool.or_eq_false_iff, decide_eq_false_iff_not] at h
    exact ⟨beq_eq_false_iff_ne.mpr h.1.2, h.1.1.1⟩

theorem splitOn_parameters {a z : List Char} (ha : ∀ c ∈ a, (c == '&') = false)
    (hz : ∀ c ∈ z, (c == '&') = false) : (a ++ '&' :: z).splitOn '&' = [a, z] := by
  rw [List.splitOn, List.splitOnP_append_cons _ _ (by decide), List.splitOnP_eq_singleton ha,
    List.splitOnP_eq_singleton hz]
  rfl

theorem parseCallback_requestLine (jwt expires eol : String) :
    parseCallback (requestLine jwt expires eol) = some (jwt, some expires) := by
  have hline := requestLine_toList jwt expires eol
  have hdj : percentDecode (percentEncode jwt).toList = jwt := percentDecode_encode jwt
  have hde : percentDecode (percentEncode expires).toList = expires := percentDecode_encode expires
  have hj : ∀ c ∈ (percentEncode jwt).toList, separator c = false := fun _ => separator_encode
  have he : ∀ c ∈ (percentEncode expires).toList, separator c = false := fun _ => separator_encode
  generalize (percentEncode jwt).toList = j at hline hdj hj
  generalize (percentEncode expires).toList = e at hline hde he
  have hname : (∀ c ∈ "token".toList, separator c = false) ∧
      ∀ c ∈ "expires".toList, separator c = false :=
    ⟨none_of_all (by decide), none_of_all (by decide)⟩
  have hfirst := fun c => parameter_chars (c := c) hname.1 hj
  have hsecond := fun c => parameter_chars (c := c) hname.2 he
  have htoken : splitOnce '=' ("token".toList ++ '=' :: j) = some ("token".toList, j) :=
    splitOnce_append (by decide)
  have hexpires : splitOnce '=' ("expires".toList ++ '=' :: e) = some ("expires".toList, e) :=
    splitOnce_append (by decide)
  generalize "token".toList ++ '=' :: j = first at hline hfirst htoken
  generalize "expires".toList ++ '=' :: e = second at hline hsecond hexpires
  -- The line has three words, and the target is the second.
  have htarget : (splitWhitespace (requestLine jwt expires eol).toList)[1]? =
      some ('/' :: '?' :: (first ++ '&' :: second)) := by
    rw [hline]
    refine splitWhitespace_three (by decide) (List.cons_ne_nil _ _) (none_of_all (by decide)) ?_
    intro c hc
    simp only [List.mem_cons, List.mem_append] at hc
    obtain rfl | rfl | h | rfl | h := hc
    · decide
    · decide
    · exact (hfirst c h).2
    · decide
    · exact (hsecond c h).2
  -- The query is what follows the `?`, and has two parameters.
  have hquery : splitOnce '?' ('/' :: '?' :: (first ++ '&' :: second)) =
      some (['/'], first ++ '&' :: second) := splitOnce_append (a := ['/']) (by decide)
  have hpairs : (first ++ '&' :: second).splitOn '&' = [first, second] :=
    splitOn_parameters (fun c hc => (hfirst c hc).1) (fun c hc => (hsecond c hc).1)
  have hne : "expires".toList ≠ "token".toList := by decide
  rw [parseCallback, htarget, Option.bind_some, hquery, Option.map_some, Option.getD_some]
  simp only [hpairs, List.foldl_cons, List.foldl_nil, readPair, htoken, hexpires, if_pos,
    if_neg hne,
    hdj, hde, Option.map_some]

/-- The callback delivers what the redirect was made from, and whatever way the
    bytes of a text are written in, it is decoded to the text. -/
theorem login_handoff :
    (∀ jwt expires eol, parseCallback ("GET /?token=" ++ percentEncode jwt ++ "&expires=" ++
      percentEncode expires ++ " HTTP/1.1" ++ eol) = some (jwt, some expires)) ∧
    ∀ (s : String) (text : List Char), Writes (asBytes s) text → percentDecode text = s :=
  ⟨parseCallback_requestLine, fun _ _ => percentDecode_writes⟩

/-- An accented letter in both cases, a space both ways, an escape at the end. -/
theorem login_handoff_ways : percentDecode "%C3%a9+~%20%26".toList = "é ~ &" := by
  refine login_handoff.2 "é ~ &" _ ?_
  have hbytes : asBytes "é ~ &" = [195, 169, 32, 126, 32, 38] := by decide
  rw [hbytes]
  exact .escape (by decide) (by decide) (.escape (by decide) (by decide) (.plus
    (.literal (c := '~') (by decide) (by decide) (by decide) (by decide) (by decide)
      (.escape (by decide) (by decide) (.escape (by decide) (by decide) .nil)))))

example : percentDecode "a%2Bb+c".toList = "a+b c" := by decide

example : parseCallback "GET /?foo=bar HTTP/1.1" = none := by decide

end Borehole.Login
