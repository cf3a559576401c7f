/-
  Borehole.Common.Cut

  Frames cut short: what `read_frame` and `from_line` make of a stream that ends
  before the JSON of a message does.

  `read_frame` returns what it has read when the stream ends, newline or not, so
  that it is up to `from_line` to refuse it.  Of `serde_json::from_str` we use
  that it accepts JSON texts only.
-/

import Borehole.Common.Frames
import Borehole.Common.Grammar
import Mathlib.Data.List.TakeWhile

namespace Borehole

/-- `serde_json::from_str` fails on what is no JSON text. -/
def ReadsJson (fromStr : String → Option Message) : Prop :=
  ∀ text m, fromStr text = some m → Json.IsText text.toList

theorem fromStr_readsJson : ReadsJson fromStr := by
  intro text m h
  obtain ⟨ms, hms, -⟩ := Option.bind_eq_some_iff.mp h
  exact Json.readObject_isText hms

section Cut

variable {fromStr : String → Option Message} {m : Message} {bytes json : List UInt8}
  {p q t : List Char}

/-- Trimming a text that begins without white space leaves a beginning of it. -/
theorem trim_cons {a : Char} (ha : isWhitespace a = false) (cs : List Char) :
    ∃ p, p <+: cs ∧ trim (String.ofList (a :: cs)) = String.ofList (a :: p) := by
  have hfront : (a :: cs).dropWhile isWhitespace = a :: cs :=
    List.dropWhile_cons_of_neg (by rw [ha]; exact Bool.false_ne_true)
  have hpre : ((a :: cs).reverse.dropWhile isWhitespace).reverse <+: a :: cs := by
    rw [← List.reverse_suffix, List.reverse_reverse]
    exact List.dropWhile_suffix _
  have hne : (a :: cs).reverse.dropWhile isWhitespace ≠ [] := by
    intro hnil
    have hall := List.dropWhile_eq_nil_iff.mp hnil a (by simp)
    rw [ha] at hall
    cases hall
  rw [trim, String.toList_ofList, hfront]
  obtain hnil | ⟨p, hp, hcs⟩ := List.prefix_cons_iff.mp hpre
  · exact absurd (List.reverse_eq_nil_iff.mp hnil) hne
  · exact ⟨p, hcs, by rw [hp]⟩

theorem json_cons (m : Message) : ∃ cs, m.json = '\x7b' :: cs := ⟨_, rfl⟩

/-- No beginning of a message's JSON is a JSON text, and neither is one of a proper
    beginning and a replacement character. -/
theorem cut_json_not_isText (hq : q <+: m.json) (hcut : q ≠ m.json)
    (ht : t = q ∨ t = q ++ ['\uFFFD']) (hqne : q ≠ []) (hp : p <+: t) (hpne : p ≠ []) :
    ¬Json.IsText p := by
  have htext : ∀ p, p <+: q → p ≠ [] → ¬Json.IsText p ∧ ¬Json.IsText (p ++ ['\uFFFD']) := by
    intro p hp hpne
    have hpcut : p ≠ m.json := fun h => hcut (hq.eq_of_length_le (h ▸ hp.length_le))
    have hpre : p <+: m.json := hp.trans hq
    rw [Message.json_eq] at hpcut hpre
    exact Json.cut_not_isText _ hpre hpne hpcut (by decide)
  obtain rfl | rfl := ht
  · exact (htext p hp hpne).1
  · obtain rfl | hp := List.prefix_concat_iff.mp hp
    · exact (htext q (List.prefix_refl q) hqne).2
    · exact (htext p hp hpne).1

/-- `from_line` fails on the lossy decoding of a proper beginning of a message. -/
theorem fromLine_cut (hjson : ReadsJson fromStr) (hp : bytes <+: Utf8.encode m.json)
    (hcut : bytes ≠ Utf8.encode m.json) (hne : bytes ≠ []) :
    fromLine fromStr (Utf8.fromUtf8Lossy bytes) = none := by
  obtain ⟨body, hbody⟩ := json_cons m
  -- what is left of the text: whole characters, perhaps with a replacement character
  obtain ⟨q, t, hq, hqcut, hqne, ht, hlossy⟩ : ∃ q t, q <+: m.json ∧ q ≠ m.json ∧ q ≠ [] ∧
      (t = q ∨ t = q ++ ['\uFFFD']) ∧ Utf8.fromUtf8Lossy bytes = String.ofList t := by
    obtain ⟨q, hq, ⟨rfl, hlossy⟩ | ⟨⟨c, hc, hlen⟩, hlossy⟩⟩ := Utf8.fromUtf8Lossy_prefix hp
    · refine ⟨q, q, hq, fun h => hcut (by rw [h]), fun h => hne (by rw [h]; rfl), Or.inl rfl,
        hlossy⟩
    · refine ⟨q, _, hq, ?_, ?_, Or.inr rfl, hlossy⟩
      · rintro rfl
        have hle := hc.length_le
        rw [List.length_append, List.length_singleton] at hle
        omega
      -- the brace at the beginning is a single byte
      · rintro rfl
        rw [hbody, List.nil_append] at hc
        obtain hnil | ⟨_, hcons, -⟩ := List.prefix_cons_iff.mp hc
        · cases hnil
        · rw [List.head_eq_of_cons_eq hcons] at hlen
          exact absurd hlen (by decide)
  obtain ⟨rest, hrest⟩ : ∃ rest, t = '\x7b' :: rest := by
    obtain hnil | ⟨q', hcons, -⟩ := List.prefix_cons_iff.mp (hbody ▸ hq)
    · exact absurd hnil hqne
    · obtain rfl | rfl := ht
      · exact ⟨q', hcons⟩
      · exact ⟨q' ++ ['\uFFFD'], by rw [hcons]; rfl⟩
  obtain ⟨p, hp, htrim⟩ := trim_cons (a := '\x7b') rfl rest
  rw [fromLine, hlossy, hrest, htrim, Option.eq_none_iff_forall_ne_some]
  intro m' hm'
  have htext := hjson _ m' hm'
  rw [String.toList_ofList] at htext
  have hpre : '\x7b' :: p <+: t := by
    rw [hrest]
    exact (List.prefix_cons_inj _).mpr hp
  exact cut_json_not_isText hq hqcut ht hqne hpre (List.cons_ne_nil _ _) htext

/-- `read_frame` on a stream without a newline. -/
theorem readFrameLoop_end (fails : Bool) (buf : List UInt8) (h : (10 : UInt8) ∉ bytes) :
    readFrameLoop fails buf bytes =
      (if fails then .error .connection
        else .ok (if buf ++ bytes = [] then none else some (Utf8.fromUtf8Lossy (buf ++ bytes))),
       []) := by
  induction bytes generalizing buf with
  | nil => rw [readFrameLoop, List.append_nil]
  | cons b bytes ih =>
      rw [List.mem_cons, not_or] at h
      rw [readFrameLoop, if_neg (Ne.symm h.1), ih _ h.2, List.append_assoc, List.singleton_append]

/-- Of a frame cut short `read_frame` returns nothing, if nothing of it has come,
    or a line that `from_line` fails on. -/
theorem readFrame_cut (hjson : ReadsJson fromStr) (hm : sendBytes m = some (json ++ [10]))
    (hp : bytes <+: json) (hcut : bytes ≠ json) :
    bytes = [] ∧ (readFrame ⟨bytes, false⟩).1 = .ok none ∨
    ∃ line, (readFrame ⟨bytes, false⟩).1 = .ok (some line) ∧ fromLine fromStr line = none := by
  obtain ⟨hbytes, hnl⟩ := sendBytes_eq m
  rw [hbytes, Option.some.injEq, List.append_left_inj] at hm
  subst hm
  have hread := readFrameLoop_end false [] fun h => hnl (hp.subset h)
  rw [List.nil_append, if_neg Bool.false_ne_true] at hread
  by_cases hne : bytes = []
  · subst hne
    exact Or.inl ⟨rfl, rfl⟩
  · refine Or.inr ⟨Utf8.fromUtf8Lossy bytes, ?_, fromLine_cut hjson hp hcut hne⟩
    rw [readFrame, hread, if_neg hne]

end Cut

end Borehole
