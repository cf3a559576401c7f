/-
  Borehole.Common.Lines

  The lines of a control stream, from bytes to what a session makes of them.

  A session reads with `read_line` and decodes with `from_line`.  A line that is not
  valid UTF-8 is an error of `read_line`, and to the session the same as the end of
  the stream.
-/

import Borehole.Common.Frames
import Borehole.Conc.Reader

namespace Borehole

open Conc

/-- A newline-terminated line of arbitrary bytes, without its newline. -/
structure ControlLine where
  bytes : List UInt8
  noNewline : (10 : UInt8) ∉ bytes

namespace ControlLine

/-- The line as it is sent. -/
def sent (l : ControlLine) : List UInt8 :=
  l.bytes ++ [10]

/-- The line is text. -/
def validUtf8 (l : ControlLine) : Bool :=
  (Utf8.fromUtf8 l.sent).isSome

end ControlLine

/-- A connection on which the lines arrive and nothing after them. -/
def controlStream (lines : List ControlLine) (fails : Bool) : ByteStream :=
  ⟨lines.flatMap ControlLine.sent, fails⟩

/-- What a session makes of a read: `none` for `Ok(0) | Err(_)`, or else the decoded
    line. -/
def lineOf (fromStr : String → Option Message) :
    Except ReadError (Option String) → Option (Option Message)
  | .ok (some line) => some (fromLine fromStr line)
  | _ => none

/-- What a session makes of the next `n` reads. -/
def lineReads (fromStr : String → Option Message) : Nat → ByteStream →
    List (Option (Option Message))
  | 0, _ => []
  | n + 1, s =>
      let r := readLineOpt s
      lineOf fromStr r.1 :: lineReads fromStr n r.2

/-- The reads of a session are what it makes of the stream. -/
def ReadsStream (fromStr : String → Option Message) (s : ByteStream)
    (reads : List (Option (Option Message))) : Prop :=
  lineReads fromStr reads.length s = reads

section Lines

variable (fromStr : String → Option Message)

/-- What a session makes of a line. -/
def ControlLine.read (l : ControlLine) : Option (Option Message) :=
  lineOf fromStr (finishLine l.sent)

/-- The lines that decode to a message that is wanted. -/
def wantedLines (wanted : Option Message → Bool) (lines : List ControlLine) :
    List ControlLine :=
  lines.filter fun l => (l.read fromStr).any wanted

variable {fromStr} {l : ControlLine} {lines : List ControlLine} {fails : Bool}

theorem ControlLine.read_eq (l : ControlLine) :
    l.read fromStr = (Utf8.fromUtf8 l.sent).map (fromLine fromStr) := by
  have hne : l.sent ≠ [] := by simp [sent]
  rw [read, finishLine, if_neg hne]
  cases Utf8.fromUtf8 l.sent <;> rfl

theorem ControlLine.read_eq_none : l.read fromStr = none ↔ l.validUtf8 = false := by
  rw [read_eq, Option.map_eq_none_iff, validUtf8, ← Option.not_isSome_iff_eq_none,
    Bool.not_eq_true]

theorem none_not_mem_reads (h : ∀ l ∈ lines, l.validUtf8 = true) :
    none ∉ lines.map (ControlLine.read fromStr) := by
  intro hmem
  obtain ⟨l, hl, hread⟩ := List.mem_map.mp hmem
  rw [ControlLine.read_eq_none, h l hl] at hread
  cases hread

/-- Results without the absence of an item are items. -/
theorem exists_items {α : Type} {results : List (Option α)} (h : none ∉ results) :
    ∃ items : List α, results = items.map some := by
  induction results with
  | nil => exact ⟨[], rfl⟩
  | cons r results ih =>
      obtain ⟨items, hitems⟩ := ih fun hmem => h (List.mem_cons_of_mem _ hmem)
      cases r with
      | none => exact absurd List.mem_cons_self h
      | some item => exact ⟨item :: items, by rw [hitems, List.map_cons]⟩

/-- Lines that are not all text have a first that is not. -/
theorem exists_first_invalid (h : ¬ ∀ l ∈ lines, l.validUtf8 = true) :
    ∃ before l after, lines = before ++ l :: after ∧
      (∀ l ∈ before, l.validUtf8 = true) ∧ l.validUtf8 = false := by
  induction lines with
  | nil => exact absurd (List.forall_mem_nil _) h
  | cons l lines ih =>
      cases hl : l.validUtf8 with
      | false => exact ⟨[], l, lines, rfl, List.forall_mem_nil _, hl⟩
      | true =>
          have hrest : ¬ ∀ l ∈ lines, l.validUtf8 = true := fun hall =>
            h (List.forall_mem_cons.mpr ⟨hl, hall⟩)
          obtain ⟨before, l', after, rfl, hbefore, hl'⟩ := ih hrest
          exact ⟨l :: before, l', after, rfl, List.forall_mem_cons.mpr ⟨hl, hbefore⟩, hl'⟩

/-- The first read of a line reads the line, and the rest is left. -/
theorem readLineOpt_cons :
    readLineOpt (controlStream (l :: lines) fails) =
      (finishLine l.sent, controlStream lines fails) := by
  rw [readLineOpt, controlStream, List.flatMap_cons, ControlLine.sent, List.append_assoc,
    List.singleton_append]
  simp only [readLineLoop_line fails [] _ l.noNewline, List.nil_append]
  rfl

/-- After the lines nothing is read any more. -/
theorem lineOf_nil : lineOf fromStr (readLineOpt (controlStream [] fails)).1 = none := by
  cases fails <;> rfl

theorem readLineOpt_nil :
    (readLineOpt (controlStream [] fails)).2 = controlStream [] fails := rfl

theorem lineReads_nil (n : Nat) :
    lineReads fromStr n (controlStream [] fails) = List.replicate n none := by
  induction n with
  | zero => rfl
  | succ n ih => rw [lineReads, lineOf_nil, readLineOpt_nil, ih, List.replicate_succ]

/-- The reads of a session are the first of its lines, and then the end. -/
theorem readsStream_iff {reads : List (Option (Option Message))} :
    ReadsStream fromStr (controlStream lines fails) reads ↔
      Reader.Fed (lines.map (ControlLine.read fromStr)) reads := by
  rw [ReadsStream]
  induction lines generalizing reads with
  | nil =>
      rw [lineReads_nil, List.map_nil]
      constructor
      · intro h
        refine ⟨reads.length, [], ?_⟩
        rw [List.append_nil, List.nil_append, h]
      · rintro ⟨k, hk⟩
        rw [List.nil_append] at hk
        refine (List.eq_replicate_iff.mpr ⟨rfl, fun r hr => ?_⟩).symm
        exact List.eq_of_mem_replicate (hk.subset hr)
  | cons l lines ih =>
      cases reads with
      | nil => exact iff_of_true rfl ⟨0, List.nil_prefix⟩
      | cons r reads =>
          rw [List.length_cons, lineReads, readLineOpt_cons, List.cons_eq_cons, ih, List.map_cons]
          constructor
          · rintro ⟨rfl, k, hk⟩
            exact ⟨k, List.cons_prefix_cons.mpr ⟨rfl, hk⟩⟩
          · rintro ⟨k, hk⟩
            obtain ⟨hr, hk⟩ := List.cons_prefix_cons.mp hk
            exact ⟨hr.symm, k, hk⟩

end Lines

/-! ## Sessions -/

section Sessions

variable {State Label : Type} {L : Lts State Label} {R : Reader L (Option Message)} {s : State}
  {fromStr : String → Option Message} {lines : List ControlLine} {fails : Bool}

/-- Of lines that are text, the reads that a session acts on are those of the lines
    that it wants. -/
theorem filter_reads (h : ∀ l ∈ lines, l.validUtf8 = true) :
    (lines.map (ControlLine.read fromStr)).filter R.keeps =
      (wantedLines fromStr R.wanted lines).map (ControlLine.read fromStr) := by
  rw [List.filter_map, wantedLines]
  congr 1
  refine List.filter_congr fun l hl => ?_
  rw [Function.comp_apply]
  cases hread : l.read fromStr with
  | none =>
      rw [ControlLine.read_eq_none, h l hl] at hread
      cases hread
  | some item => rfl

/-- A session that reads lines of text skips those that it does not want. -/
theorem skips_lines (hat : R.At s) (hup : R.Up s) (h : ∀ l ∈ lines, l.validUtf8 = true) :
    R.Skips s (ReadsStream fromStr (controlStream lines fails))
      (ReadsStream fromStr (controlStream (wantedLines fromStr R.wanted lines) fails))
      lines.length := by
  have hitems : none ∉ lines.map (ControlLine.read fromStr) := none_not_mem_reads h
  have hskips := Reader.skips_of_items hat hup hitems
  rw [filter_reads h, List.length_map] at hskips
  intro ls s' hr hreads
  obtain ⟨hdown, hkept, hfed⟩ := hskips ls s' hr (readsStream_iff.mp hreads)
  exact ⟨hdown, hkept, readsStream_iff.mpr hfed⟩

/-- A session that can come back after any line does not skip one that is not
    text. -/
theorem valid_of_skips {fed' : List (Option (Option Message)) → Prop}
    (hback : ∀ item, ∃ ls, L.runFrom s ls = some s ∧ R.reads ls = [some item])
    (hend : ∃ l s', L.step s l = some s' ∧ R.read? l = some none ∧ ¬ R.Up s')
    (h : R.Skips s (ReadsStream fromStr (controlStream lines fails)) fed' lines.length) :
    ∀ l ∈ lines, l.validUtf8 = true := by
  by_contra hinvalid
  obtain ⟨before, l, after, rfl, hbefore, hl⟩ := exists_first_invalid hinvalid
  have hitems : none ∉ before.map (ControlLine.read fromStr) := none_not_mem_reads hbefore
  obtain ⟨items, hitems⟩ := exists_items hitems
  obtain ⟨ls, s', hr, hreads, hdown⟩ := Reader.exists_reads hback hend items
  have hfed : ReadsStream fromStr (controlStream (before ++ l :: after) fails) (R.reads ls) := by
    rw [readsStream_iff, hreads, ← hitems, List.map_append, List.map_cons,
      ControlLine.read_eq_none.mpr hl]
    exact ⟨0, by simp⟩
  have hlt := (h ls s' hr hfed).1 hdown
  rw [hreads, ← hitems] at hlt
  simp only [List.length_append, List.length_cons, List.length_map, List.length_nil] at hlt
  omega

end Sessions

end Borehole
