/-
  Borehole.Common.Base64

  Base64 between bytes and characters: the unpadded URL-safe encoding, and the
  forgiving decoder of browsers (`atob`), which yields one character for each byte.

  Reading bytes as characters maps the UTF-8 text of a JSON object to the text of
  an object again: every character beyond ASCII stands inside a string literal and
  becomes two to four characters there.
-/

import Borehole.Common.Json
import Borehole.Common.Utf8

namespace Borehole
namespace Base64

/-! ## Sextets -/

/-- Bytes cut into groups of six bits, the last of them filled up with zeros. -/
def sextets : List UInt8 → List Nat
  | [] => []
  | [a] => [a.toNat / 4, a.toNat % 4 * 16]
  | [a, b] => [a.toNat / 4, a.toNat % 4 * 16 + b.toNat / 16, b.toNat % 16 * 4]
  | a :: b :: c :: rest =>
      a.toNat / 4 :: (a.toNat % 4 * 16 + b.toNat / 16) :: (b.toNat % 16 * 4 + c.toNat / 64) ::
        (c.toNat % 64) :: sextets rest

/-- The bytes in groups of six bits.  Left-over bits are dropped, and a single
    group holds no byte. -/
def octets : List Nat → Option (List UInt8)
  | [] => some []
  | [_] => none
  | [p, q] => some [UInt8.ofNat (p * 4 + q / 16)]
  | [p, q, r] => some [UInt8.ofNat (p * 4 + q / 16), UInt8.ofNat (q % 16 * 16 + r / 4)]
  | p :: q :: r :: s :: rest =>
      (octets rest).map fun bytes =>
        UInt8.ofNat (p * 4 + q / 16) :: UInt8.ofNat (q % 16 * 16 + r / 4) ::
          UInt8.ofNat (r % 4 * 64 + s) :: bytes

theorem sextets_lt (bytes : List UInt8) : ∀ n ∈ sextets bytes, n < 64 := by
  have hb : ∀ b : UInt8, b.toNat < 256 := fun b => b.toNat_lt
  fun_induction sextets bytes with
  | case1 => exact List.forall_mem_nil _
  | case2 a =>
      have ha := hb a
      simp only [List.forall_mem_cons]
      exact ⟨by omega, by omega, List.forall_mem_nil _⟩
  | case3 a b =>
      have ha := hb a
      have hb := hb b
      simp only [List.forall_mem_cons]
      exact ⟨by omega, by omega, by omega, List.forall_mem_nil _⟩
  | case4 a b c rest ih =>
      have ha := hb a
      have hc := hb c
      have hb := hb b
      simp only [List.forall_mem_cons]
      exact ⟨by omega, by omega, by omega, by omega, ih⟩

/-- Two bytes are equal if their numbers are. -/
theorem ofNat_eq {n : Nat} {b : UInt8} (h : n = b.toNat) : UInt8.ofNat n = b := by
  rw [h, UInt8.ofNat_toNat]

theorem octets_sextets (bytes : List UInt8) : octets (sextets bytes) = some bytes := by
  have hb : ∀ b : UInt8, b.toNat < 256 := fun b => b.toNat_lt
  fun_induction sextets bytes with
  | case1 => rfl
  | case2 a =>
      have ha := hb a
      rw [octets, ofNat_eq (b := a) (by omega)]
  | case3 a b =>
      have ha := hb a
      have hb := hb b
      rw [octets, ofNat_eq (b := a) (by omega), ofNat_eq (b := b) (by omega)]
  | case4 a b c rest ih =>
      have ha := hb a
      have hc := hb c
      have hb := hb b
      rw [octets, ih, Option.map_some, ofNat_eq (b := a) (by omega), ofNat_eq (b := b) (by omega),
        ofNat_eq (b := c) (by omega)]

/-! ## Alphabets -/

/-- A digit of the URL-safe alphabet. -/
def urlDigit (n : Nat) : Char :=
  if n < 26 then Char.ofNat (65 + n)
  else if n < 52 then Char.ofNat (71 + n)
  else if n < 62 then Char.ofNat (n - 4)
  else if n = 62 then '-'
  else '_'

/-- A digit of the standard alphabet. -/
def value? (c : Char) : Option Nat :=
  if 65 ≤ c.toNat ∧ c.toNat ≤ 90 then some (c.toNat - 65)
  else if 97 ≤ c.toNat ∧ c.toNat ≤ 122 then some (c.toNat - 71)
  else if 48 ≤ c.toNat ∧ c.toNat ≤ 57 then some (c.toNat + 4)
  else if c = '+' then some 62
  else if c = '/' then some 63
  else none

/-- Letters and digits, `-` and `_`. -/
def isUrlDigit (c : Char) : Bool :=
  c.isAlphanum || c = '-' || c = '_'

/-- The URL-safe encoding without padding. -/
def encodeUrl (bytes : List UInt8) : List Char :=
  (sextets bytes).map urlDigit

theorem isUrlDigit_encodeUrl {bytes : List UInt8} {c : Char} (h : c ∈ encodeUrl bytes) :
    isUrlDigit c = true := by
  have hall : ∀ n < 64, isUrlDigit (urlDigit n) = true := by decide
  obtain ⟨n, hn, rfl⟩ := List.mem_map.mp h
  exact hall n (sextets_lt bytes n hn)

/-! ## `atob` -/

/-- ASCII whitespace. -/
def isSpace (c : Char) : Bool :=
  c = ' ' || c = '\t' || c = '\n' || c = '\r' || c.toNat = 12

/-- Drops one `=` from the end. -/
def dropPad (s : List Char) : List Char :=
  if s.getLast? = some '=' then s.dropLast else s

/-- `atob`, the bytes as numbers: `none` where it throws. -/
def atob (s : List Char) : Option (List UInt8) :=
  let s := s.filter fun c => !isSpace c
  let s := if s.length % 4 = 0 then dropPad (dropPad s) else s
  (s.mapM value?).bind octets

/-- From the URL-safe alphabet to the standard one. -/
def standard (c : Char) : Char :=
  if c = '-' then '+' else if c = '_' then '/' else c

theorem dropPad_eq {s : List Char} (h : '=' ∉ s) : dropPad s = s := by
  rw [dropPad, if_neg]
  intro hlast
  exact h (List.mem_of_getLast? hlast)

theorem mapM_value {α : Type} {f : α → Char} {g : α → Nat} {xs : List α}
    (h : ∀ x ∈ xs, value? (f x) = some (g x)) : (xs.map f).mapM value? = some (xs.map g) := by
  induction xs with
  | nil => rfl
  | cons x xs ih =>
      obtain ⟨hx, hxs⟩ := List.forall_mem_cons.mp h
      rw [List.map_cons, List.mapM_cons, hx, ih hxs]
      rfl

/-- What has been encoded for a URL is decoded in the standard alphabet. -/
theorem atob_encodeUrl (bytes : List UInt8) :
    atob ((encodeUrl bytes).map standard) = some bytes := by
  have hall : ∀ n < 64, value? (standard (urlDigit n)) = some n ∧
      isSpace (standard (urlDigit n)) = false ∧ standard (urlDigit n) ≠ '=' := by decide
  have hdigit := fun n hn => hall n (sextets_lt bytes n hn)
  have hfilter : ((encodeUrl bytes).map standard).filter (fun c => !isSpace c) =
      (encodeUrl bytes).map standard := by
    rw [List.filter_eq_self, encodeUrl, List.map_map]
    intro c hc
    obtain ⟨n, hn, rfl⟩ := List.mem_map.mp hc
    show (!isSpace (standard (urlDigit n))) = true
    rw [(hdigit n hn).2.1]
    rfl
  have hpad : '=' ∉ (encodeUrl bytes).map standard := by
    rw [encodeUrl, List.map_map]
    intro hc
    obtain ⟨n, hn, he⟩ := List.mem_map.mp hc
    exact (hdigit n hn).2.2 he
  have hvalues : ((encodeUrl bytes).map standard).mapM value? = some (sextets bytes) := by
    rw [encodeUrl, List.map_map]
    exact (mapM_value (g := id) fun n hn => (hdigit n hn).1).trans (by rw [List.map_id])
  simp only [atob, hfilter, dropPad_eq hpad, ite_self, hvalues]
  exact octets_sextets bytes

example : atob "TWFu".toList = some [77, 97, 110] := by decide

example : atob "TWE=".toList = some [77, 97] := by decide

/-! ## Binary strings -/

/-- One character for each byte. -/
def binary (bytes : List UInt8) : List Char :=
  bytes.map Char.ofUInt8

/-- The UTF-8 bytes of a text, read as one character each. -/
def mojibake (cs : List Char) : List Char :=
  binary (Utf8.encode cs)

theorem mojibake_append (cs cs' : List Char) :
    mojibake (cs ++ cs') = mojibake cs ++ mojibake cs' := by
  rw [mojibake, Utf8.encode, List.flatMap_append, binary, List.map_append]
  rfl

theorem mojibake_cons (c : Char) (cs : List Char) :
    mojibake (c :: cs) = mojibake [c] ++ mojibake cs :=
  mojibake_append [c] cs

/-- ASCII is left alone. -/
theorem mojibake_ascii {cs : List Char} (h : ∀ c ∈ cs, c.toNat < 128) : mojibake cs = cs := by
  induction cs with
  | nil => rfl
  | cons c cs ih =>
      obtain ⟨hc, hcs⟩ := List.forall_mem_cons.mp h
      have hle : c.val.toNat ≤ 127 := Nat.le_of_lt_succ hc
      have hone : mojibake [c] = [c] := by
        rw [mojibake, Utf8.encode, List.flatMap_cons, List.flatMap_nil, String.utf8EncodeChar,
          if_pos hle]
        show [Char.ofUInt8 (UInt8.ofNat c.toNat)] = [c]
        congr 1
        apply Char.toNat_inj.mp
        show (UInt8.ofNat c.toNat).toNat = c.toNat
        simp
        omega
      rw [mojibake_cons, hone, ih hcs]
      rfl

/-- A character beyond ASCII becomes such characters. -/
theorem mojibake_beyond {c d : Char} (hc : 128 ≤ c.toNat) (hd : d ∈ mojibake [c]) :
    128 ≤ d.toNat := by
  rw [mojibake, binary, Utf8.encode, List.flatMap_cons, List.flatMap_nil, List.append_nil] at hd
  obtain ⟨b, hb, rfl⟩ := List.mem_map.mp hd
  show 128 ≤ b.toNat
  by_contra hsmall
  have heq := Utf8.mem_encodeChar (by omega) hb
  have hcv : c.val.toNat = c.toNat := rfl
  omega

end Base64

/-! ## Objects -/

namespace Json

open Base64

theorem escapeChar_beyond {c : Char} (h : 128 ≤ c.toNat) : escapeChar c = [c] := by
  have hne : ∀ d : Char, d.toNat < 128 → c ≠ d := by
    rintro d hd rfl
    omega
  rw [escapeChar, if_neg (hne _ (by decide)), if_neg (hne _ (by decide)), if_neg (by omega),
    if_neg (by omega), if_neg (hne _ (by decide)), if_neg (hne _ (by decide)),
    if_neg (hne _ (by decide)), if_neg (by omega)]

theorem escapeChar_ascii {c : Char} (h : c.toNat < 128) : ∀ d ∈ escapeChar c, d.toNat < 128 := by
  have hall : (List.range 128).all (fun n =>
      (escapeChar (Char.ofNat n)).all fun d => d.toNat < 128) = true := by decide +kernel
  have hc := List.all_eq_true.mp hall c.toNat (List.mem_range.mpr h)
  rw [Char.ofNat_toNat] at hc
  intro d hd
  exact of_decide_eq_true (List.all_eq_true.mp hc d hd)

/-- Escaping a character and reading the bytes commute. -/
theorem mojibake_escape (cs : List Char) :
    mojibake (cs.flatMap escapeChar) = (mojibake cs).flatMap escapeChar := by
  induction cs with
  | nil => rfl
  | cons c cs ih =>
      rw [List.flatMap_cons, mojibake_append, ih, mojibake_cons c cs, List.flatMap_append]
      congr 1
      by_cases hc : c.toNat < 128
      · have hone : mojibake [c] = [c] := mojibake_ascii fun d hd => List.mem_singleton.mp hd ▸ hc
        rw [mojibake_ascii (escapeChar_ascii hc), hone, List.flatMap_cons, List.flatMap_nil,
          List.append_nil]
      · rw [escapeChar_beyond (by omega)]
        have hself : ∀ ds : List Char, (∀ d ∈ ds, 128 ≤ d.toNat) → ds.flatMap escapeChar = ds := by
          intro ds hds
          induction ds with
          | nil => rfl
          | cons d ds ih =>
              obtain ⟨hd, hds⟩ := List.forall_mem_cons.mp hds
              rw [List.flatMap_cons, escapeChar_beyond hd, ih hds]
              rfl
        exact (hself _ fun d hd => mojibake_beyond (by omega) hd).symm

/-- A string, read byte by byte. -/
def garble (s : String) : String :=
  String.ofList (mojibake s.toList)

/-- A value as `atob` leaves it. -/
def Scalar.garble : Scalar → Scalar
  | .string s => .string (Json.garble s)
  | v => v

theorem mojibake_string (s : String) : mojibake (string s) = string (garble s) := by
  have hquote : ∀ cs, mojibake ('"' :: cs) = '"' :: mojibake cs := by
    intro cs
    rw [mojibake_cons]
    rfl
  rw [string, string, List.cons_append, hquote, mojibake_append, mojibake_escape, garble,
    String.toList_ofList, List.cons_append]
  rfl

theorem mojibake_text (v : Scalar) : mojibake v.text = v.garble.text := by
  cases v with
  | null => decide
  | bool b =>
      cases b with
      | true => decide
      | false => decide
  | nat n =>
      refine mojibake_ascii fun c hc => ?_
      have hdigit := Nat.isDigit_of_mem_toDigits (by decide) (by decide) hc
      simp only [Char.isDigit, Bool.and_eq_true, decide_eq_true_eq] at hdigit
      have hle : c.val.toNat ≤ 57 := hdigit.2
      have hv : c.val.toNat = c.toNat := rfl
      omega
  | string s => exact mojibake_string s

theorem mojibake_member (name : String) (v : Scalar) :
    mojibake (member name v.text) = member (garble name) v.garble.text := by
  rw [member, member, mojibake_append, mojibake_string, mojibake_cons, mojibake_text]
  rfl

/-- The bytes of an object's text, read as characters, are the text of an object
    with the same members, their strings read so. -/
theorem mojibake_objectText (ms : List (String × Scalar)) :
    mojibake (objectText ms) = objectText (ms.map fun m => (garble m.1, m.2.garble)) := by
  have hcomma : mojibake [','] = [','] := by decide
  have hbody : mojibake (List.intersperse [','] (ms.map fun m => member m.1 m.2.text)).flatten =
      (List.intersperse [','] (ms.map fun m => member (garble m.1) m.2.garble.text)).flatten := by
    induction ms with
    | nil => rfl
    | cons m ms ih =>
        cases ms with
        | nil =>
            simp only [List.map_cons, List.map_nil, List.intersperse_singleton,
              List.flatten_singleton]
            exact mojibake_member m.1 m.2
        | cons m' ms =>
            rw [List.map_cons, List.map_cons] at ih
            simp only [List.map_cons, List.intersperse_cons_cons, List.flatten_cons,
              mojibake_append, hcomma, mojibake_member] at ih ⊢
            rw [ih]
  rw [objectText, objectText, object, object, List.map_map, List.cons_append, mojibake_cons,
    mojibake_append, hbody]
  rfl

end Json
end Borehole
