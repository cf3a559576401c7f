/-
  Borehole.World.Progress

  The data plane gets everything across.

  Without anything new being written the two tasks take finitely many steps: each
  passes bytes on towards the receiver, ends a buffer, or is one of the
  announcement.  When none is left the announcement has been read, both copy
  loops run, and all buffers are empty.
-/

import Borehole.World.Transfer

namespace Borehole.DataPlane

open Conc

/-! ## Progress -/

section Progress

variable {σ : Type} {copier : Lts σ (Dir × Call UInt8)} {fromStr : String → Option Message}
  {connId : String} {capacity : Nat} {s s' : Conf copier} {ls : List Op} {op : Op} {d : Dir}

/-- How many steps the announcement takes at most: every byte of it is written
    and read. -/
def Conf.handshake (s : Conf copier) : Nat :=
  (match s.dialer with
    | .announcing rest => 2 * rest.length + 2
    | .dialing => 1
    | _ => 0) +
  match s.endpoint with
    | .reading _ => s.down.data.items.length - (afterFrame s.down.data.items).length + 1
    | _ => 0

/-- How many steps are left without anything new being written. -/
def Conf.remaining (s : Conf copier) : Nat :=
  Transit.work (s.seen .up).hops + Transit.work (s.seen .down).hops + s.handshake

theorem work_lt {w w' : Way} {f : Transit UInt8} (hf : f.Inner)
    (h : Transit.exec w.hops f = some w'.hops) : Transit.work w'.hops < Transit.work w.hops :=
  (Transit.exec_step h).work_lt hf

/-- One direction goes on, and the other one stands still. -/
theorem remaining_lt (hown : Transit.work (s'.seen d).hops < Transit.work (s.seen d).hops)
    (hother : ∀ d', d ≠ d' → s'.seen d' = s.seen d') (hshake : s'.handshake = s.handshake) :
    s'.remaining < s.remaining := by
  rw [Conf.remaining, Conf.remaining, hshake]
  cases d with
  | up =>
      rw [hother .down nofun]
      omega
  | down =>
      rw [hother .up nofun]
      omega

theorem Step.dialer (hs : Step fromStr connId s op s') (hf : op.fails = false)
    (hd : s.dialer ≠ .failed) : s'.dialer ≠ .failed := by
  cases hs with
  | @write d | @shutdown d | @read d => cases d <;> exact hd
  | copy =>
      rw [Conf.dialer_setLoop, Conf.dialer_setConns]
      exact hd
  | readEof => exact hd
  | announce _ _ _ =>
      show (if _ then Dialer.dialing else .announcing _) ≠ _
      split <;> nofun
  | dial => nofun
  | frameByte he hread =>
      obtain ⟨_, _, rfl, _⟩ := readByte_frame hread
      exact hd
  | dialError | frameError | stop | cut => cases hf

/-- What a task copies changes by its calls, and by its ending early. -/
theorem Step.loop (hs : Step fromStr connId s op s') (t : Task) :
    s'.loop t = s.loop t ∨
    (∃ d h c p l, h.task d = t ∧
      c.exec ((s.conns d).streams h).1 ((s.conns d).streams h).2 = some p ∧
      (s.loop t).call d c = some l ∧ s'.loop t = l ∧
      s'.conns d = (s.conns d).setStreams h p) ∨
    op = .stop t ∧ s'.loop t = (s.loop t).stop := by
  cases hs with
  | write | shutdown | read | cut => exact Or.inl Conf.loop_setConns
  | readEof => exact Or.inl rfl
  | @copy d half c p l hcopies hexec hcall =>
      by_cases ht : half.task d = t
      · subst ht
        refine Or.inr (Or.inl ⟨d, half, c, p, l, rfl, hexec, hcall, Conf.loop_setLoop, ?_⟩)
        rw [Conf.conns_setLoop, Conf.conns_setConns]
      · left
        rw [Conf.loop_setOther ht, Conf.loop_setConns]
  | announce | dial | dialError | frameError => exact Or.inl (by cases t <;> rfl)
  | frameByte he hread =>
      obtain ⟨_, _, rfl, _⟩ := readByte_frame hread
      exact Or.inl (by cases t <;> rfl)
  | @stop t' hcopies =>
      by_cases ht : t' = t
      · subst ht
        exact Or.inr (Or.inr ⟨rfl, Conf.loop_setLoop⟩)
      · exact Or.inl (Conf.loop_setOther ht)

/-- Without a failure no task ends early. -/
theorem Step.running (hs : Step fromStr connId s op s') (hf : op.fails = false)
    (h : ∀ t, (s.loop t).stopped = false) : ∀ t, (s'.loop t).stopped = false := by
  intro t
  rcases hs.loop t with hsame | ⟨d, half, c, p, l, _, _, hcall, hl, _⟩ | ⟨rfl, _⟩
  · rw [hsame]
    exact h t
  · rw [hl]
    exact (Loop.call_some hcall).2.2.2
  · cases hf

/-- What a task has shut down is at its end. -/
def Closes (s : Conf copier) : Prop :=
  ∀ d h, .shutdown ∈ Call.along d (s.loop (h.task d)).calls → ((s.conns d).streams h).2.fin = true

theorem Closes.step (hclosed : Closes s) (hs : Step fromStr connId s op s') : Closes s' := by
  intro d h hmem
  by_cases hold : .shutdown ∈ Call.along d (s.loop (h.task d)).calls
  · exact hs.severed d h (hclosed d h hold)
  rcases hs.loop (h.task d) with hsame | ⟨d', h', c, p, l, ht, hexec, hcall, hl, hconns⟩ | ⟨_, hl⟩
  · rw [hsame] at hmem
    exact absurd hmem hold
  · rw [hl, (Loop.call_some hcall).2.2.1, Call.along_snoc] at hmem
    have hnew := (List.mem_append.mp hmem).resolve_left hold
    by_cases hd : d' = d
    · -- the side is shut down by this very call
      subst hd
      rw [if_pos rfl, List.mem_singleton] at hnew
      subst hnew
      have hh : h' = h := by
        cases d' <;> cases h' <;> cases h <;> first | rfl | cases ht
      subst hh
      obtain ⟨a, ha, rfl⟩ := Option.map_eq_some_iff.mp hexec
      obtain ⟨_, rfl⟩ := Transit.end_some ha
      rw [hconns]
      cases h' <;> rfl
    · rw [if_neg hd] at hnew
      cases hnew
  · rw [hl] at hmem
    exact absurd hmem hold

theorem whole_along (h : (dataPlane fromStr copier connId capacity).Run ls s) (hw : Whole ls) :
    (dataPlane fromStr copier connId capacity).Along (fun _ op => op.fails = false) ls :=
  h.along fun _ op _ _ he _ => hw op (by rw [he]; simp)

theorem running (h : (dataPlane fromStr copier connId capacity).Run ls s) (hw : Whole ls) :
    ∀ t, (s.loop t).stopped = false := by
  refine Lts.Run.induct_along (P := fun _ s => ∀ t, (s.loop t).stopped = false) ?_
    (fun _ _ _ _ _ ih hok hs => (exec_step hs).running hok ih) h (whole_along h hw)
  intro t
  cases t <;> rfl

theorem closes (h : (dataPlane fromStr copier connId capacity).Run ls s) : Closes s := by
  refine Lts.Run.induct (P := fun _ s => Closes s) ?_
    (fun _ _ _ _ _ ih hs => ih.step (exec_step hs)) h
  intro d h hmem
  cases d <;> cases h <;> cases hmem

/-- When nothing is left to do both tasks are past the announcement. -/
theorem Settled.piping (hset : Settled fromStr connId s) (ha : Announced connId s)
    (hfailed : s.dialer ≠ .failed) (hroom : ∀ n ∈ s.down.data.room, 0 < n) :
    s.endpoint = .piping ∧ s.dialer = .piping := by
  have hread : ∀ buf b rest, s.endpoint = .reading buf → s.down.data.items = b :: rest → False := by
    intro buf b rest he hitems
    have hnone := hset .frameByte rfl
    rw [exec, he] at hnone
    simp only [readByte, hitems] at hnone
    cases hnone
  cases ha with
  | @writing rest buf hd he hrest hopen hf =>
      cases hitems : s.down.data.items with
      | cons b items => exact (hread buf b items he hitems).elim
      | nil =>
          -- there is room for a byte of the frame
          have hpos : 1 ≤ rest.length := List.length_pos_iff.mpr hrest
          have hput : s.down.data.fin = false ∧ ∀ n ∈ s.down.data.room,
              s.down.data.items.length + (rest.take 1).length ≤ n := by
            rw [hitems, List.length_take_of_le hpos]
            exact ⟨hopen, hroom⟩
          have hnone := hset (.announce 1) rfl
          rw [exec, hd] at hnone
          simp only [Nat.one_pos, hpos, and_self, if_true, Hop.put, if_pos hput] at hnone
          cases hnone
  | @written buf hd he hbuf hf =>
      have hnl := newline_arrived hbuf hf
      cases hitems : s.down.data.items with
      | nil =>
          rw [hitems] at hnl
          cases hnl
      | cons b items => exact (hread buf b items he hitems).elim
  | read hd he =>
      refine ⟨he, ?_⟩
      cases hdialer : s.dialer with
      | announcing rest => exact absurd hdialer (hd rest)
      | dialing =>
          have hnone := hset .dial rfl
          rw [exec, if_pos hdialer] at hnone
          cases hnone
      | piping => rfl
      | failed => exact absurd hdialer hfailed

/-- The steps of a path by itself: those of copying, and reading. -/
theorem inner_transit {f : Transit UInt8} (hf : f.Inner) :
    (∃ h c, f = Half.transit h c) ∨ (∃ bs, f = .take bs) ∨
      ∀ w : Way, Transit.exec w.hops f = none := by
  cases f with
  | pass i n =>
      -- any bytes stand for `n` of them
      have hlen : (List.replicate n (0 : UInt8)).length = n := List.length_replicate
      rcases i with _ | _ | _ | _ | i
      · exact Or.inl ⟨.near, .write (List.replicate n 0), by rw [Half.transit, hlen]⟩
      · exact Or.inl ⟨.near, .read (List.replicate n 0), by rw [Half.transit, hlen]⟩
      · exact Or.inl ⟨.far, .write (List.replicate n 0), by rw [Half.transit, hlen]⟩
      · exact Or.inl ⟨.far, .read (List.replicate n 0), by rw [Half.transit, hlen]⟩
      · exact Or.inr (Or.inr fun w => by cases i <;> simp [Transit.exec, Transit.between, Way.hops])
  | shut i =>
      rcases i with _ | _ | _ | _ | i
      · exact Or.inl ⟨.near, .shutdown, rfl⟩
      · exact Or.inl ⟨.near, .readEof, rfl⟩
      · exact Or.inl ⟨.far, .shutdown, rfl⟩
      · exact Or.inl ⟨.far, .readEof, rfl⟩
      · exact Or.inr (Or.inr fun w => by cases i <;> simp [Transit.exec, Transit.between, Way.hops])
  | take bs => exact Or.inr (Or.inl ⟨bs, rfl⟩)
  | send | close | eof | cut => exact hf.elim

/-- Where the path of a direction goes on by a call, so does the task. -/
theorem copy_goes_on (hc : Copies copier) (hstopped : ∀ t, (s.loop t).stopped = false)
    (hclosed : Closes s) {h : Half} {c : Call UInt8} {w : Way} (hcopy : (s.way d).copy h c = some w)
    (hempty : (h.transit c).IntoEmpty (s.way d).hops) (hcopies : s.copies (h.task d) = true) :
    ∃ c', (exec fromStr connId s (.copy d h c')).isSome := by
  have hgoes : ∃ c' : Call UInt8,
      (c'.exec ((s.conns d).streams h).1 ((s.conns d).streams h).2).isSome ∧
        ((s.loop (h.task d)).call d c').isSome := by
    cases h with
    | far | near =>
        obtain ⟨p, hp, _⟩ := Option.map_eq_some_iff.mp hcopy
        refine Loop.goes_on hc (hstopped _) (hclosed d _) (Option.isSome_iff_exists.mpr ⟨p, hp⟩) ?_
        cases c <;> exact hempty _ rfl
  obtain ⟨c', hexec, hcall⟩ := hgoes
  obtain ⟨p, hp⟩ := Option.isSome_iff_exists.mp hexec
  refine ⟨c', ?_⟩
  rw [exec, if_pos hcopies, hp, Option.bind_some, Option.isSome_map]
  exact hcall

theorem Settled.still (hset : Settled fromStr connId s) (hc : Copies copier)
    (hstopped : ∀ t, (s.loop t).stopped = false) (hclosed : Closes s)
    (he : s.endpoint = .piping) (hd : s.dialer = .piping) (d : Dir) :
    Transit.Still (s.seen d).hops := by
  have hway : s.seen d = s.way d := by
    cases d with
    | up => rfl
    | down => exact seen_other (by rw [he]; nofun)
  rw [hway]
  intro f hf hempty
  rcases inner_transit hf with ⟨h, c, rfl⟩ | ⟨bs, rfl⟩ | hnone
  · rw [exec_copy, Option.map_eq_none_iff]
    by_contra hne
    obtain ⟨w, hw⟩ := Option.ne_none_iff_exists'.mp hne
    have hcopies : s.copies (h.task d) = true := by
      cases d <;> cases h <;> simp [Conf.copies, Half.task, he, hd]
    obtain ⟨c', hgoes⟩ : ∃ c', (exec fromStr connId s (.copy d h c')).isSome :=
      copy_goes_on hc hstopped hclosed hw hempty hcopies
    rw [hset (.copy d h c') rfl] at hgoes
    cases hgoes
  · have hnone := hset (.read d bs) rfl
    have hcan : s.canRead d = true := by
      cases d <;> simp [Conf.canRead, hd]
    rw [exec, if_pos hcan, Option.map_eq_none_iff] at hnone
    rw [exec_take]
    show Option.map _ ((s.conns d).target.take bs) = none
    rw [hnone]
    rfl
  · exact hnone _

/-- The service has answered while the frame was being read. -/
def answered : List Op :=
  [.announce 35, .dial, .frameByte, .write .down [10, 20, 30], .shutdown .down]

end Progress

end Borehole.DataPlane
