/-
  Borehole.World.Announcement

  The announcement on a data connection: the frame that the CLI writes, and that
  the endpoint reads one byte at a time.

  At every time what the endpoint has read, what is on the connection and what is
  left to write are the frame and the bytes behind it.  So the endpoint reads the
  frame and nothing else, unless something ends the stream before.
-/

import Borehole.World.DataPlane

namespace Borehole.DataPlane

open Conc

/-! ## The frame and the bytes behind it -/

/-- What follows the first newline. -/
def afterFrame (bs : List UInt8) : List UInt8 :=
  (bs.dropWhile (· ≠ 10)).tail

section AfterFrame

variable {bs xs : List UInt8} {b : UInt8}

theorem afterFrame_newline : afterFrame (10 :: bs) = bs := rfl

theorem afterFrame_cons (hb : b ≠ 10) : afterFrame (b :: bs) = afterFrame bs := by
  rw [afterFrame, List.dropWhile_cons_of_pos (by simpa using hb)]
  rfl

theorem afterFrame_none (h : (10 : UInt8) ∉ bs) : afterFrame bs = [] := by
  induction bs with
  | nil => rfl
  | cons b bs ih =>
      rw [List.mem_cons, not_or] at h
      rw [afterFrame_cons (Ne.symm h.1), ih h.2]

theorem afterFrame_append (h : (10 : UInt8) ∈ bs) :
    afterFrame (bs ++ xs) = afterFrame bs ++ xs := by
  induction bs with
  | nil => cases h
  | cons b bs ih =>
      by_cases hb : b = 10
      · rw [hb]
        rfl
      · have hmem : (10 : UInt8) ∈ bs := (List.mem_cons.mp h).resolve_left (Ne.symm hb)
        rw [List.cons_append, afterFrame_cons hb, afterFrame_cons hb, ih hmem]

/-- No more than the frame, its newline included. -/
theorem afterFrame_within (h : (10 : UInt8) ∉ bs) (hx : xs <+: bs ++ [10]) :
    afterFrame xs = [] := by
  rcases List.prefix_concat_iff.mp hx with rfl | hx
  · clear hx
    induction bs with
    | nil => rfl
    | cons b bs ih =>
        rw [List.mem_cons, not_or] at h
        exact (afterFrame_cons (Ne.symm h.1)).trans (ih h.2)
  · exact afterFrame_none fun hmem => h (hx.subset hmem)

theorem length_afterFrame : (afterFrame bs).length ≤ bs.length := by
  rw [afterFrame, List.length_tail]
  exact (Nat.sub_le _ _).trans (List.dropWhile_sublist _).length_le

/-- What a loss leaves of the bytes behind the frame. -/
theorem afterFrame_take (n : Nat) : ∃ m, afterFrame (bs.take n) = (afterFrame bs).take m := by
  induction bs generalizing n with
  | nil => exact ⟨0, by rw [List.take_nil]; rfl⟩
  | cons b bs ih =>
      cases n with
      | zero => exact ⟨0, rfl⟩
      | succ n =>
          rw [List.take_succ_cons]
          by_cases hb : b = 10
          · exact ⟨n, by rw [hb]; rfl⟩
          · rw [afterFrame_cons hb, afterFrame_cons hb]
            exact ih n

end AfterFrame

/-- The frame is a line. -/
theorem frame_line (connId : String) :
    ∃ line, frame connId = line ++ [10] ∧ (10 : UInt8) ∉ line := by
  obtain ⟨hbytes, hline⟩ := sendBytes_eq (.dataConn ⟨connId⟩)
  exact ⟨_, by rw [frame, hbytes, Option.getD_some], hline⟩

/-- The endpoint finds the visitor that the frame is for. -/
theorem opened_frame {σ : Type} {copier : Lts σ (Dir × Call UInt8)}
    {fromStr : String → Option Message} {connId : String} {line : List UInt8}
    (hserde : ReadsCompact fromStr) (hf : frame connId = line ++ [10]) (s : Conf copier) :
    opened fromStr connId (Utf8.fromUtf8Lossy line) s = { s with endpoint := .piping } := by
  obtain ⟨hbytes, _⟩ := sendBytes_eq (.dataConn ⟨connId⟩)
  rw [frame, hbytes, Option.getD_some] at hf
  obtain ⟨rfl, _⟩ := List.append_inj' hf rfl
  have hread := fromLine_json hserde (.dataConn ⟨connId⟩) [] (List.forall_mem_nil _)
  rw [List.append_nil] at hread
  rw [opened, Utf8.fromUtf8Lossy_encode, if_pos hread]

/-! ## The announcement -/

section Announcement

variable {σ : Type} {copier : Lts σ (Dir × Call UInt8)} {fromStr : String → Option Message}
  {connId : String} {s s' : Conf copier} {op : Op} {d : Dir}

/-- How far the announcement is. -/
inductive Announced (connId : String) (s : Conf copier) : Prop where
  | writing {rest buf : List UInt8} (hd : s.dialer = .announcing rest)
      (he : s.endpoint = .reading buf) (hrest : rest ≠ []) (hopen : s.down.data.fin = false)
      (hf : buf ++ s.down.data.items ++ rest = frame connId)
  | written {buf : List UInt8} (hd : ∀ rest, s.dialer ≠ .announcing rest)
      (he : s.endpoint = .reading buf) (hbuf : (10 : UInt8) ∉ buf)
      (hf : frame connId <+: buf ++ s.down.data.items)
  | read (hd : ∀ rest, s.dialer ≠ .announcing rest) (he : s.endpoint = .piping)

theorem Announced.congr (h : Announced connId s) (hd : s'.dialer = s.dialer)
    (he : s'.endpoint = s.endpoint) (hdata : s'.down.data = s.down.data) : Announced connId s' := by
  cases h with
  | writing hd' he' hrest hopen hf =>
      exact .writing (hd.trans hd') (he.trans he') hrest (by rw [hdata, hopen]) (by rw [hdata, hf])
  | written hd' he' hbuf hf =>
      exact .written (by rwa [hd]) (he.trans he') hbuf (by rwa [hdata])
  | read hd' he' => exact .read (by rwa [hd]) (he.trans he')

/-- A part of the frame that is not all of it holds no newline. -/
theorem newline_frame {xs rest : List UInt8} (hf : xs ++ rest = frame connId) (hrest : rest ≠ []) :
    (10 : UInt8) ∉ xs := by
  obtain ⟨line, hline, hnl⟩ := frame_line connId
  rw [hline] at hf
  have hx : xs <+: line := by
    have hp : xs <+: line ++ [10] := ⟨rest, hf⟩
    rcases List.prefix_concat_iff.mp hp with rfl | hp
    · exact absurd (List.append_right_eq_self.mp hf) hrest
    · exact hp
  exact fun h => hnl (hx.subset h)

/-- Nothing behind the frame while a part of it is there. -/
theorem afterFrame_part {buf xs rest : List UInt8} (hf : buf ++ xs ++ rest = frame connId) :
    afterFrame xs = [] := by
  rcases List.eq_nil_or_concat xs with rfl | ⟨ys, b, rfl⟩
  · rfl
  · rw [List.concat_eq_append] at hf ⊢
    by_cases hrest : rest = []
    · obtain ⟨line, hline, hnl⟩ := frame_line connId
      rw [hrest, List.append_nil, ← List.append_assoc, hline] at hf
      obtain ⟨rfl, hb⟩ := List.append_inj' hf rfl
      rw [hb]
      exact afterFrame_within (fun h => hnl (List.mem_append_right _ h)) List.prefix_rfl
    · exact afterFrame_none fun h => newline_frame hf hrest (List.mem_append_right _ h)

/-- Up to its first newline, what begins with the frame is the frame. -/
theorem frame_read {buf rest : List UInt8} (hbuf : (10 : UInt8) ∉ buf)
    (hf : frame connId <+: buf ++ 10 :: rest) : frame connId = buf ++ [10] := by
  obtain ⟨line, hline, hnl⟩ := frame_line connId
  obtain ⟨tail, ht⟩ := hf
  rw [hline, List.append_assoc, List.singleton_append] at ht
  have heq : line = buf := by
    have htake : ∀ xs ys : List UInt8, (10 : UInt8) ∉ xs →
        (xs ++ 10 :: ys).takeWhile (· ≠ 10) = xs := by
      intro xs ys hx
      have hne : ∀ b ∈ xs, decide (b ≠ 10) = true := by
        intro b hb
        rw [decide_eq_true_eq]
        rintro rfl
        exact hx hb
      rw [List.takeWhile_append_of_pos hne, List.takeWhile_cons_of_neg (by simp), List.append_nil]
    rw [← htake line tail hnl, ht, htake buf rest hbuf]
  rw [hline, heq]

/-- The end of the frame has arrived and is not read yet. -/
theorem newline_arrived {buf rest : List UInt8} (hbuf : (10 : UInt8) ∉ buf)
    (hf : frame connId <+: buf ++ rest) : (10 : UInt8) ∈ rest := by
  obtain ⟨line, hline, _⟩ := frame_line connId
  have hmem : (10 : UInt8) ∈ buf ++ rest := hf.subset (by rw [hline]; simp)
  exact (List.mem_append.mp hmem).resolve_left hbuf

theorem Announced.announce {n : Nat} {rest : List UInt8} {a : Hop UInt8}
    (ha : Announced connId s) (hd : s.dialer = .announcing rest)
    (hput : s.down.data.put (rest.take n) = some a) :
    Announced connId { s with
      dialer := if rest.drop n = [] then .dialing else .announcing (rest.drop n)
      down := { s.down with data := a } } := by
  obtain ⟨hopen, rfl⟩ := Transit.put_some hput
  cases ha with
  | @writing rest' buf hd' he hrest _ hf =>
      cases hd.symm.trans hd'
      have hf' : buf ++ (s.down.data.items ++ rest.take n) ++ rest.drop n = frame connId := by
        rw [← hf]
        simp
      by_cases hdrop : rest.drop n = []
      · refine .written ?_ he ?_ ?_
        · rw [if_pos hdrop]
          nofun
        · rw [List.append_assoc] at hf
          exact newline_frame hf (by simp [hrest])
        · rw [← hf', hdrop, List.append_nil]
      · exact .writing (if_neg hdrop) he hdrop hopen hf'
  | written hd' | read hd' => exact absurd hd (hd' rest)

theorem Announced.frameByte {buf : List UInt8} (ha : Announced connId s)
    (he : s.endpoint = .reading buf) (hread : readByte fromStr connId buf s = some s')
    (hserde : ReadsCompact fromStr) : Announced connId s' := by
  cases ha with
  | @writing rest buf' hd he' hrest hopen hf =>
      cases he.symm.trans he'
      have hnl := newline_frame hf hrest
      rcases readByte_cases hread with ⟨_, hitems, _⟩ | ⟨b, left, hitems, hb, rfl⟩ | ⟨_, hfin, _⟩
      · rw [hitems] at hnl
        simp at hnl
      · refine .writing hd rfl hrest hopen ?_
        rw [← hf, hitems]
        show buf ++ [b] ++ left ++ rest = _
        simp
      · rw [hopen] at hfin
        cases hfin
  | @written buf' hd he' hbuf hf =>
      cases he.symm.trans he'
      rcases readByte_cases hread with ⟨_, hitems, rfl⟩ | ⟨b, left, hitems, hb, rfl⟩ |
          ⟨hitems, _, _⟩
      · -- the newline ends the frame, which names the visitor
        rw [hitems] at hf
        rw [opened_frame hserde (frame_read hbuf hf)]
        exact .read hd rfl
      · refine .written hd rfl ?_ ?_
        · rw [List.mem_append, List.mem_singleton, not_or]
          exact ⟨hbuf, Ne.symm hb⟩
        · rw [hitems] at hf
          show frame connId <+: buf ++ [b] ++ left
          rwa [List.append_assoc, List.singleton_append]
      · have hnl := newline_arrived hbuf hf
        rw [hitems] at hnl
        cases hnl
  | read _ he' => cases he.symm.trans he'

/-- The copying of the one task begins behind the frame, and that of the other once it
    has been read. -/
theorem Announced.copy {h : Half} {c : Call UInt8} {p : Hop UInt8 × Hop UInt8} {l : Loop copier}
    (ha : Announced connId s) (hcopies : s.copies (h.task d) = true)
    (hexec : c.exec ((s.conns d).streams h).1 ((s.conns d).streams h).2 = some p) :
    Announced connId ((s.setConns d ((s.conns d).setStreams h p)).setLoop (h.task d) l) := by
  have hd : ((s.setConns d ((s.conns d).setStreams h p)).setLoop (h.task d) l).dialer =
      s.dialer := by
    simp
  have he : ((s.setConns d ((s.conns d).setStreams h p)).setLoop (h.task d) l).endpoint =
      s.endpoint := by
    simp
  cases d with
  | up => exact ha.congr hd he (by cases h <;> rfl)
  | down =>
      cases h with
      | far =>
          have hpiping : s.dialer = .piping := of_decide_eq_true hcopies
          cases ha with
          | writing hd' => cases hpiping.symm.trans hd'
          | written hd' he' hbuf hf =>
              obtain ⟨_, ⟨more, hmore⟩, _⟩ := call_streams hexec
              refine .written (by rwa [hd]) (he.trans he') hbuf ?_
              show frame connId <+: _ ++ p.2.items
              rw [← hmore, ← List.append_assoc]
              exact hf.trans (List.prefix_append _ _)
          | read hd' he' => exact .read (by rwa [hd]) (he.trans he')
      | near =>
          have hpiping : s.endpoint = .piping := of_decide_eq_true hcopies
          cases ha with
          | writing _ he' | written _ he' => cases hpiping.symm.trans he'
          | read hd' => exact .read (by rwa [hd]) (he.trans hpiping)

/-- The announcement goes on, unless it fails. -/
theorem Announced.step (ha : Announced connId s) (hs : Step fromStr connId s op s')
    (hserde : ReadsCompact fromStr) :
    Announced connId s' ∨ op.fails = true ∧ s'.down.data.fin = true := by
  have hdialed : ∀ d : Dialer, s.dialer = .dialing → (∀ rest, d ≠ .announcing rest) →
      Announced connId { s with dialer := d } := by
    intro d hd hd'
    cases ha with
    | writing hd'' => cases hd.symm.trans hd''
    | written _ he hbuf hf => exact .written hd' he hbuf hf
    | read _ he => exact .read hd' he
  cases hs with
  | @write d | @shutdown d | @read d => cases d <;> exact Or.inl (ha.congr rfl rfl rfl)
  | readEof => exact Or.inl ha
  | dial hd | dialError hd => exact Or.inl (hdialed _ hd nofun)
  | @copy d half c p l hcopies hexec hcall => exact Or.inl (ha.copy hcopies hexec)
  | announce hd _ hput => exact Or.inl (ha.announce hd hput)
  | frameByte he hread => exact Or.inl (ha.frameByte he hread hserde)
  | frameError => exact Or.inr ⟨rfl, rfl⟩
  | @stop t => cases t <;> exact Or.inl (ha.congr rfl rfl rfl)
  | @cut d i n w hcut =>
      cases d with
      | up => exact Or.inl (ha.congr rfl rfl rfl)
      | down =>
          rcases cut_data hcut with hdata | ⟨_, rfl⟩
          · exact Or.inl (ha.congr rfl rfl hdata)
          · exact Or.inr ⟨rfl, rfl⟩

end Announcement

/-! ## Runs -/

section Runs

variable {σ : Type} {copier : Lts σ (Dir × Call UInt8)} {fromStr : String → Option Message}
  {connId : String} {capacity : Nat} {s s' : Conf copier} {ls : List Op} {op : Op} {d : Dir}

theorem whole_snoc : Whole (ls ++ [op]) ↔ Whole ls ∧ op.fails = false := by
  simp [Whole, or_imp, forall_and]

/-- The announcement is on its way, unless something has ended its stream. -/
def Opening (connId : String) (ls : List Op) (s : Conf copier) : Prop :=
  Announced connId s ∨ ¬ Whole ls ∧ s.down.data.fin = true

theorem Opening.announced (ho : Opening connId ls s) (hw : Whole ls) : Announced connId s :=
  ho.resolve_right fun h => h.1 hw

theorem announced_start : Announced connId (start copier connId capacity) := by
  obtain ⟨line, hline, _⟩ := frame_line connId
  have hne : frame connId ≠ [] := by
    rw [hline]
    exact List.append_ne_nil_of_right_ne_nil _ (List.cons_ne_nil _ _)
  have hitems : (start copier connId capacity).down.data.items = [] := rfl
  have hf : [] ++ (start copier connId capacity).down.data.items ++ frame connId =
      frame connId := by
    rw [hitems, List.append_nil, List.nil_append]
  have hd : (start copier connId capacity).dialer = .announcing (frame connId) := rfl
  have he : (start copier connId capacity).endpoint = .reading [] := rfl
  exact .writing hd he hne rfl hf

theorem Opening.step (ho : Opening connId ls s) (hs : Step fromStr connId s op s')
    (hserde : ReadsCompact fromStr) : Opening connId (ls ++ [op]) s' := by
  rcases ho with ha | ⟨hw, hfin⟩
  · rcases ha.step hs hserde with ha | ⟨hf, hfin⟩
    · exact Or.inl ha
    · refine Or.inr ⟨fun hw => ?_, hfin⟩
      rw [(whole_snoc.mp hw).2] at hf
      cases hf
  · exact Or.inr ⟨fun h => hw (whole_snoc.mp h).1, hs.severed .down .far hfin⟩

theorem opening (h : (dataPlane fromStr copier connId capacity).Run ls s)
    (hserde : ReadsCompact fromStr) :
    Opening connId ls s :=
  Lts.Run.induct (Or.inl announced_start) (fun _ _ _ _ _ ho hs => ho.step (exec_step hs) hserde) h

end Runs

end Borehole.DataPlane
