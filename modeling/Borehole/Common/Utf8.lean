/-
  Borehole.Common.Utf8

  Decoding UTF-8 one byte at a time.

  The decoder yields a character, or a mark for an invalid sequence: the longest
  run of bytes that a valid sequence could have started with, or a single byte
  that none starts with.  `from_utf8` refuses a text with such a mark, and
  `from_utf8_lossy` puts U+FFFD in its place.
-/

import Mathlib.Data.List.Basic

namespace Borehole.Utf8

/-- Where the decoder stands: between characters, or inside one, with the bits so
    far, how many bytes come after the next one, and the range of the next one. -/
inductive State where
  | start
  | inside (value more lower upper : Nat)
  deriving DecidableEq, Repr

/-- The first byte of a sequence. -/
def first (b : Nat) : State × List (Option Char) :=
  if b ≤ 0x7f then (.start, [some (Char.ofNat b)])
  else if 0xc2 ≤ b ∧ b ≤ 0xdf then (.inside (b - 0xc0) 0 0x80 0xbf, [])
  else if 0xe0 ≤ b ∧ b ≤ 0xef then
    (.inside (b - 0xe0) 1 (if b = 0xe0 then 0xa0 else 0x80) (if b = 0xed then 0x9f else 0xbf), [])
  else if 0xf0 ≤ b ∧ b ≤ 0xf4 then
    (.inside (b - 0xf0) 2 (if b = 0xf0 then 0x90 else 0x80) (if b = 0xf4 then 0x8f else 0xbf), [])
  else (.start, [none])

/-- One byte: where it leads and what it yields.  A byte that does not continue a
    sequence ends it as invalid and is read again as a first byte. -/
def step : State → Nat → State × List (Option Char)
  | .start, b => first b
  | .inside value more lower upper, b =>
      if lower ≤ b ∧ b ≤ upper then
        match more with
        | 0 => (.start, [some (Char.ofNat (value * 64 + (b - 0x80)))])
        | more + 1 => (.inside (value * 64 + (b - 0x80)) more 0x80 0xbf, [])
      else ((first b).1, none :: (first b).2)

/-- What the bytes yield up to their end. -/
def decode : State → List UInt8 → List (Option Char)
  | .start, [] => []
  | .inside _ _ _ _, [] => [none]
  | s, b :: bytes => (step s b.toNat).2 ++ decode (step s b.toNat).1 bytes

/-- `String::from_utf8` -/
def fromUtf8 (bytes : List UInt8) : Option String :=
  ((decode .start bytes).mapM id).map String.ofList

/-- `String::from_utf8_lossy` -/
def fromUtf8Lossy (bytes : List UInt8) : String :=
  String.ofList ((decode .start bytes).map fun c => c.getD '\uFFFD')

/-- The UTF-8 bytes of a text. -/
def encode (cs : List Char) : List UInt8 :=
  cs.flatMap String.utf8EncodeChar

/-! ## What is encoded is decoded -/

section RoundTrip

variable {bytes : List UInt8} {value more lower upper : Nat} {n : Nat}

theorem decode_first (hn : n < 256) (bytes : List UInt8) :
    decode .start (UInt8.ofNat n :: bytes) = (first n).2 ++ decode (first n).1 bytes := by
  have hb : (UInt8.ofNat n).toNat = n := by simp; omega
  rw [decode, hb]
  rfl

/-- A byte in the range of the next one. -/
theorem decode_next (hn : n < 256) (hl : lower ≤ n) (hu : n ≤ upper) :
    decode (.inside value (more + 1) lower upper) (UInt8.ofNat n :: bytes) =
      decode (.inside (value * 64 + (n - 0x80)) more 0x80 0xbf) bytes := by
  have hb : (UInt8.ofNat n).toNat = n := by simp; omega
  rw [decode, hb, step, if_pos ⟨hl, hu⟩]
  rfl

theorem decode_last (hn : n < 256) (hl : lower ≤ n) (hu : n ≤ upper) :
    decode (.inside value 0 lower upper) (UInt8.ofNat n :: bytes) =
      some (Char.ofNat (value * 64 + (n - 0x80))) :: decode .start bytes := by
  have hb : (UInt8.ofNat n).toNat = n := by simp; omega
  rw [decode, hb, step, if_pos ⟨hl, hu⟩]
  rfl

/-- The decoder reads an encoded character back and is between characters again. -/
theorem decode_encodeChar (c : Char) (bytes : List UInt8) :
    decode .start (String.utf8EncodeChar c ++ bytes) = some c :: decode .start bytes := by
  have hc : Char.ofNat c.val.toNat = c := Char.ofNat_toNat c
  -- a character is no surrogate and below 0x110000
  have hv : c.val.toNat < 0xd800 ∨ 0xdfff < c.val.toNat ∧ c.val.toNat < 0x110000 := c.valid
  unfold String.utf8EncodeChar
  generalize c.val.toNat = v at hc hv
  dsimp only
  by_cases h1 : v ≤ 0x7f
  · rw [if_pos h1, List.cons_append, decode_first (by omega), first, if_pos h1, hc]
    rfl
  rw [if_neg h1]
  by_cases h2 : v ≤ 0x7ff
  · have hsum : (v / 64 % 32 + 192 - 192) * 64 + (v % 64 + 128 - 128) = v := by omega
    rw [if_pos h2, List.cons_append, decode_first (by omega), first, if_neg (by omega),
      if_pos (by omega), List.nil_append, List.cons_append, decode_last (by omega) (by omega)
      (by omega), hsum, hc]
    rfl
  rw [if_neg h2]
  by_cases h3 : v ≤ 0xffff
  · have hsum : ((v / 4096 % 16 + 224 - 224) * 64 + (v / 64 % 64 + 128 - 128)) * 64 +
        (v % 64 + 128 - 128) = v := by omega
    rw [if_pos h3, List.cons_append, decode_first (by omega), first, if_neg (by omega),
      if_neg (by omega), if_pos (by omega), List.nil_append, List.cons_append,
      decode_next (by omega) (by split <;> omega) (by split <;> omega), List.cons_append,
      decode_last (by omega) (by omega) (by omega), hsum, hc]
    rfl
  rw [if_neg h3]
  have hsum : (((v / 262144 % 8 + 240 - 240) * 64 + (v / 4096 % 64 + 128 - 128)) * 64 +
      (v / 64 % 64 + 128 - 128)) * 64 + (v % 64 + 128 - 128) = v := by omega
  rw [List.cons_append, decode_first (by omega), first, if_neg (by omega), if_neg (by omega),
    if_neg (by omega), if_pos (by omega), List.nil_append, List.cons_append,
    decode_next (by omega) (by split <;> omega) (by split <;> omega), List.cons_append,
    decode_next (by omega) (by omega) (by omega), List.cons_append,
    decode_last (by omega) (by omega) (by omega), hsum, hc]
  rfl

theorem decode_encode (cs : List Char) : decode .start (encode cs) = cs.map some := by
  induction cs with
  | nil => rfl
  | cons c cs ih =>
      rw [encode, List.flatMap_cons, decode_encodeChar, ← encode, ih, List.map_cons]

/-- Strict decoding reads an encoded text back. -/
theorem fromUtf8_encode (cs : List Char) : fromUtf8 (encode cs) = some (String.ofList cs) := by
  have hid : (cs.map some).mapM id = some cs := by
    induction cs with
    | nil => rfl
    | cons c cs ih => rw [List.map_cons, List.mapM_cons, ih]; rfl
  rw [fromUtf8, decode_encode, hid, Option.map_some]

/-- Lossy decoding loses nothing of an encoded text. -/
theorem fromUtf8Lossy_encode (cs : List Char) : fromUtf8Lossy (encode cs) = String.ofList cs := by
  rw [fromUtf8Lossy, decode_encode, List.map_map]
  congr 1
  exact List.map_id cs

/-- A byte below 128 is only in the encoding of its own character. -/
theorem mem_encodeChar {c : Char} {b : UInt8} (hb : b.toNat < 128)
    (h : b ∈ String.utf8EncodeChar c) : c.val.toNat = b.toNat := by
  have hv : c.val.toNat < 0xd800 ∨ 0xdfff < c.val.toNat ∧ c.val.toNat < 0x110000 := c.valid
  unfold String.utf8EncodeChar at h
  generalize c.val.toNat = v at h hv ⊢
  dsimp only at h
  have hof : ∀ n, n < 256 → b = UInt8.ofNat n → b.toNat = n := by
    rintro n hn rfl
    simp
    omega
  split at h
  · rw [List.mem_singleton] at h
    rw [hof v (by omega) h]
  · split at h
    · simp only [List.mem_cons, List.not_mem_nil, or_false] at h
      obtain h | h := h <;> have := hof _ (by omega) h <;> omega
    · split at h
      · simp only [List.mem_cons, List.not_mem_nil, or_false] at h
        obtain h | h | h := h <;> have := hof _ (by omega) h <;> omega
      · simp only [List.mem_cons, List.not_mem_nil, or_false] at h
        obtain h | h | h | h := h <;> have := hof _ (by omega) h <;> omega

end RoundTrip

/-! ## What is cut short -/

section Cut

variable {bytes : List UInt8} {value more lower upper : Nat} {n : Nat} {c : Char} {cs : List Char}

/-- A proper beginning of a list: its first element and some of the others. -/
theorem take_of_cut {α : Type} {x : α} {xs p : List α} (hp : p <+: x :: xs) (hne : p ≠ [])
    (hcut : p ≠ x :: xs) : ∃ k < xs.length, p = x :: xs.take k := by
  obtain hnil | ⟨q, heq, hq⟩ := List.prefix_cons_iff.mp hp
  · exact absurd hnil hne
  · have hqx : q ≠ xs := fun h => hcut (by rw [heq, h])
    have hlt : q.length < xs.length :=
      Nat.lt_of_le_of_ne hq.length_le fun hlen => hqx (hq.eq_of_length hlen)
    exact ⟨q.length, hlt, by rw [heq, ← List.prefix_iff_eq_take.mp hq]⟩

/-- A character of more than one byte, cut short, is one invalid sequence. -/
theorem decode_cutChar (hp : bytes <+: String.utf8EncodeChar c) (hne : bytes ≠ [])
    (hcut : bytes ≠ String.utf8EncodeChar c) : decode .start bytes = [none] := by
  have hv : c.val.toNat < 0xd800 ∨ 0xdfff < c.val.toNat ∧ c.val.toNat < 0x110000 := c.valid
  unfold String.utf8EncodeChar at hp hcut
  generalize c.val.toNat = v at hp hcut hv
  dsimp only at hp hcut
  -- One byte cannot be cut short.
  by_cases h1 : v ≤ 0x7f
  · rw [if_pos h1] at hp hcut
    obtain ⟨k, hk, -⟩ := take_of_cut hp hne hcut
    exact absurd hk (Nat.not_lt_zero k)
  rw [if_neg h1] at hp hcut
  -- Two bytes: the first alone.
  by_cases h2 : v ≤ 0x7ff
  · rw [if_pos h2] at hp hcut
    obtain ⟨k, hk, rfl⟩ := take_of_cut hp hne hcut
    obtain rfl : k = 0 := Nat.lt_one_iff.mp hk
    rw [decode_first (by omega), first, if_neg (by omega), if_pos (by omega)]
    rfl
  rw [if_neg h2] at hp hcut
  -- Three: the first narrows the range of the second to what is no surrogate.
  by_cases h3 : v ≤ 0xffff
  · rw [if_pos h3] at hp hcut
    obtain ⟨k, hk, rfl⟩ := take_of_cut hp hne hcut
    have hfirst : ∀ bytes, decode .start (UInt8.ofNat (v / 4096 % 16 + 224) :: bytes) =
        decode (.inside (v / 4096 % 16 + 224 - 224) 1
          (if v / 4096 % 16 + 224 = 0xe0 then 0xa0 else 0x80)
          (if v / 4096 % 16 + 224 = 0xed then 0x9f else 0xbf)) bytes := by
      intro bytes
      rw [decode_first (by omega), first, if_neg (by omega), if_neg (by omega), if_pos (by omega),
        List.nil_append]
    rw [hfirst]
    obtain rfl | rfl : k = 0 ∨ k = 1 := Nat.le_one_iff_eq_zero_or_eq_one.mp (Nat.le_of_lt_succ hk)
    · rfl
    · rw [List.take_succ_cons, decode_next (by omega) (by split <;> omega) (by split <;> omega)]
      rfl
  rw [if_neg h3] at hp hcut
  obtain ⟨k, hk, rfl⟩ := take_of_cut hp hne hcut
  have hfirst : ∀ bytes, decode .start (UInt8.ofNat (v / 262144 % 8 + 240) :: bytes) =
      decode (.inside (v / 262144 % 8 + 240 - 240) 2
        (if v / 262144 % 8 + 240 = 0xf0 then 0x90 else 0x80)
        (if v / 262144 % 8 + 240 = 0xf4 then 0x8f else 0xbf)) bytes := by
    intro bytes
    rw [decode_first (by omega), first, if_neg (by omega), if_neg (by omega), if_neg (by omega),
      if_pos (by omega), List.nil_append]
  rw [hfirst]
  cases k with
  | zero => rfl
  | succ k =>
      rw [List.take_succ_cons, decode_next (by omega) (by split <;> omega) (by split <;> omega)]
      obtain rfl | rfl : k = 0 ∨ k = 1 :=
        Nat.le_one_iff_eq_zero_or_eq_one.mp (Nat.le_of_lt_succ (Nat.lt_of_succ_lt_succ hk))
      · rfl
      · rw [List.take_succ_cons, decode_next (by omega) (by omega) (by omega)]
        rfl

theorem encode_nil : encode [] = [] := rfl

theorem encode_cons (c : Char) (cs : List Char) :
    encode (c :: cs) = String.utf8EncodeChar c ++ encode cs :=
  List.flatMap_cons

/-- The beginning of an encoded text: some of its characters, and perhaps a part of
    the next one. -/
theorem decode_prefix (hp : bytes <+: encode cs) :
    (∃ q, q <+: cs ∧ bytes = encode q) ∨
    ∃ q c, q ++ [c] <+: cs ∧ 1 < (String.utf8EncodeChar c).length ∧
      decode .start bytes = q.map some ++ [none] := by
  induction cs generalizing bytes with
  | nil =>
      rw [encode_nil] at hp
      exact Or.inl ⟨[], List.nil_prefix, List.prefix_nil.mp hp⟩
  | cons c cs ih =>
      rw [encode_cons] at hp
      obtain hchar | ⟨bytes, rfl⟩ :=
        List.prefix_or_prefix_of_prefix hp (List.prefix_append _ (encode cs))
      · by_cases hne : bytes = []
        · exact Or.inl ⟨[], List.nil_prefix, hne⟩
        by_cases hcut : bytes = String.utf8EncodeChar c
        · refine Or.inl ⟨[c], List.prefix_cons_inj c |>.mpr List.nil_prefix, ?_⟩
          rw [hcut, encode_cons, encode_nil, List.append_nil]
        · refine Or.inr ⟨[], c, List.prefix_cons_inj c |>.mpr List.nil_prefix, ?_,
            decode_cutChar hchar hne hcut⟩
          have hlt : bytes.length < (String.utf8EncodeChar c).length :=
            Nat.lt_of_le_of_ne hchar.length_le fun hlen => hcut (hchar.eq_of_length hlen)
          have hpos : 0 < bytes.length := List.length_pos_of_ne_nil hne
          omega
      · rw [List.prefix_append_right_inj] at hp
        obtain ⟨q, hq, rfl⟩ | ⟨q, d, hq, hlen, hdec⟩ := ih hp
        · exact Or.inl ⟨c :: q, List.prefix_cons_inj c |>.mpr hq, (encode_cons c q).symm⟩
        · refine Or.inr ⟨c :: q, d, List.prefix_cons_inj c |>.mpr hq, hlen, ?_⟩
          rw [decode_encodeChar, hdec]
          rfl

/-- Lossy decoding of the beginning of an encoded text puts U+FFFD in the place of
    the part of a character at its end. -/
theorem fromUtf8Lossy_prefix (hp : bytes <+: encode cs) :
    ∃ q, q <+: cs ∧ (bytes = encode q ∧ fromUtf8Lossy bytes = String.ofList q ∨
      (∃ c, q ++ [c] <+: cs ∧ 1 < (String.utf8EncodeChar c).length) ∧
        fromUtf8Lossy bytes = String.ofList (q ++ ['\uFFFD'])) := by
  obtain ⟨q, hq, rfl⟩ | ⟨q, c, hq, hlen, hdec⟩ := decode_prefix hp
  · exact ⟨q, hq, Or.inl ⟨rfl, fromUtf8Lossy_encode q⟩⟩
  · refine ⟨q, (List.prefix_append q [c]).trans hq, Or.inr ⟨⟨c, hq, hlen⟩, ?_⟩⟩
    rw [fromUtf8Lossy, hdec, List.map_append, List.map_map]
    congr 2
    exact List.map_id q

end Cut

end Borehole.Utf8
