/-
  Borehole.World.Transfer

  Each direction of the data plane is a path through five buffers.

  While the endpoint reads the frame, only what comes behind it counts for the
  visitor; the copy loop of the CLI writes nothing before the frame is written.
-/

import Borehole.World.Announcement

namespace Borehole.DataPlane

open Conc

/-! ## The path of a direction -/

/-- What the bytes of one direction pass through: the connections, and what the two
    tasks hold of it. -/
structure Way where
  source : Hop UInt8
  far : Hop UInt8
  data : Hop UInt8
  near : Hop UInt8
  target : Hop UInt8
  deriving DecidableEq

namespace Way

/-- Nothing has been written yet. -/
def new (capacity : Nat) : Way where
  source := Hop.empty (some capacity)
  far := Hop.empty none
  data := Hop.empty (some capacity)
  near := Hop.empty none
  target := Hop.empty (some capacity)

/-- The receiver's buffer first. -/
def hops (w : Way) : List (Hop UInt8) :=
  [w.target, w.near, w.data, w.far, w.source]

/-- A call of the copying there. -/
def copy (w : Way) : Half → Call UInt8 → Option Way
  | .far, c => (c.carry w.source w.far w.data).map fun p =>
      { w with source := p.1, far := p.2.1, data := p.2.2 }
  | .near, c => (c.carry w.data w.near w.target).map fun p =>
      { w with data := p.1, near := p.2.1, target := p.2.2 }

/-- The first `n` bytes of buffer `i` are kept, counted from the receiver. -/
def cut (w : Way) (n : Nat) : Nat → Option Way
  | 0 => some { w with target := w.target.cut n }
  | 1 => some { w with near := w.near.cut n }
  | 2 => some { w with data := w.data.cut n }
  | 3 => some { w with far := w.far.cut n }
  | 4 => some { w with source := w.source.cut n }
  | _ => none

/-- What is on its way but for the frame. -/
def behind (w : Way) : Way :=
  { w with data := { w.data with items := afterFrame w.data.items } }

end Way

/-- The way of a direction, frame included. -/
def Conf.way {σ : Type} {copier : Lts σ (Dir × Call UInt8)} (s : Conf copier) (d : Dir) : Way where
  source := (s.conns d).source
  far := (s.loop (Half.far.task d)).held d
  data := (s.conns d).data
  near := (s.loop (Half.near.task d)).held d
  target := (s.conns d).target

section Paths

variable {w : Way}

/-- What a call is on the path. -/
def Half.transit : Half → Call UInt8 → Transit UInt8
  | .far, .read xs => .pass 3 xs.length
  | .far, .write xs => .pass 2 xs.length
  | .far, .readEof => .shut 3
  | .far, .shutdown => .shut 2
  | .near, .read xs => .pass 1 xs.length
  | .near, .write xs => .pass 0 xs.length
  | .near, .readEof => .shut 1
  | .near, .shutdown => .shut 0

/-- Where on the path a task holds bytes of a direction. -/
def Task.place : Task → Dir → Nat
  | .visitor, .up | .cli, .down => 3
  | .visitor, .down | .cli, .up => 1

theorem exec_send (bs : List UInt8) : Transit.exec w.hops (.send bs) =
    (w.source.put bs).map fun a => Way.hops { w with source := a } := by
  simp [Transit.exec, Way.hops, Transit.atLast, Option.map_map, Function.comp_def]

theorem exec_close : Transit.exec w.hops .close =
    w.source.end.map fun a => Way.hops { w with source := a } := by
  simp [Transit.exec, Way.hops, Transit.atLast, Option.map_map, Function.comp_def]

theorem exec_take (bs : List UInt8) : Transit.exec w.hops (.take bs) =
    (w.target.take bs).map fun a => Way.hops { w with target := a } := rfl

theorem exec_eof (h : w.target.fin = true ∧ w.target.items = []) :
    Transit.exec w.hops .eof = some w.hops := by
  rw [Transit.exec, Way.hops, Transit.atFirst, if_pos h]
  rfl

theorem exec_copy (h : Half) (c : Call UInt8) :
    Transit.exec w.hops (h.transit c) = (w.copy h c).map Way.hops := by
  cases h <;> cases c <;>
    simp [Transit.exec, Way.hops, Half.transit, Way.copy, Call.carry, Transit.between,
      Option.map_map, Function.comp_def]

theorem exec_cut (n i : Nat) : Transit.exec w.hops (.cut i n) = (w.cut n i).map Way.hops := by
  rcases i with _ | _ | _ | _ | _ | i <;> simp [Transit.exec, Transit.at', Way.hops, Way.cut]

end Paths

section Ways

variable {σ : Type} {copier : Lts σ (Dir × Call UInt8)} {s : Conf copier} {d d' : Dir} {h : Half}
  {c : Call UInt8} {p : Hop UInt8 × Hop UInt8} {l : Loop copier} {t : Task}

/-- What a call does to the streams and to what the task holds is a step of the path. -/
theorem way_copy (hc : Copies copier)
    (hexec : c.exec ((s.conns d).streams h).1 ((s.conns d).streams h).2 = some p)
    (hcall : (s.loop (h.task d)).call d c = some l) :
    (s.way d).copy h c =
      some (((s.setConns d ((s.conns d).setStreams h p)).setLoop (h.task d) l).way d) := by
  have hcarry := Loop.call_carry hc hcall hexec
  cases h <;> cases d <;> exact congrArg (Option.map _) hcarry

/-- The other direction stands still. -/
theorem way_copyOther (hd : d' ≠ d) {w : Conns} (hcall : (s.loop t).call d' c = some l) :
    ((s.setConns d' w).setLoop t l).way d = s.way d := by
  have hheld : ∀ t', (((s.setConns d' w).setLoop t l).loop t').held d = (s.loop t').held d := by
    intro t'
    by_cases ht : t = t'
    · subst ht
      rw [Conf.loop_setLoop]
      exact Loop.call_other hcall hd
    · rw [Conf.loop_setOther ht, Conf.loop_setConns]
  rw [Conf.way, Conf.way, hheld, hheld, Conf.conns_setLoop, Conf.conns_setOther hd]

theorem way_stop : (s.way d).cut 0 (t.place d) = some ((s.setLoop t (s.loop t).stop).way d) := by
  cases d <;> cases t <;> rfl

end Ways

/-! ## What a step is on the paths -/

/-- What is on its way in a direction: as long as the endpoint reads the frame,
    only what comes behind it. -/
def Conf.seen {σ : Type} {copier : Lts σ (Dir × Call UInt8)} (s : Conf copier) : Dir → Way
  | .up => s.way .up
  | .down =>
      match s.endpoint with
      | .reading _ => (s.way .down).behind
      | _ => s.way .down

/-- The direction an operation belongs to; the announcement and the end of a task belong
    to none. -/
def Op.dir? : Op → Option Dir
  | .write d _ | .shutdown d | .read d _ | .readEof d | .copy d _ _ | .cut d _ _ => some d
  | _ => none

/-- What an operation is on the path of direction `d`. -/
inductive Moves (d : Dir) : Op → List (Transit UInt8) → Prop where
  | write {bs : List UInt8} : Moves d (.write d bs) [.send bs]
  | shutdown : Moves d (.shutdown d) [.close]
  | read {bs : List UInt8} : Moves d (.read d bs) [.take bs]
  | readEof : Moves d (.readEof d) [.eof]
  | copy {h : Half} {c : Call UInt8} : Moves d (.copy d h c) [h.transit c]
  /-- Every other buffer is that of a connection. -/
  | cut {i n m : Nat} : Moves d (.cut d i n) [.cut (2 * i) m]
  /-- The data connection is dropped, or what a task holds. -/
  | drop {op : Op} {i n : Nat} (h : op.dir? = none) : Moves d op [.cut i n]
  | other {op : Op} (h : op.dir? ≠ some d) : Moves d op []

/-- The transits `fs` are what the operations `ls` are in direction `d`. -/
structure Shows (d : Dir) (ls : List Op) (fs : List (Transit UInt8)) : Prop where
  sent : Transit.sent fs = written d ls
  got : Transit.got fs = received d ls
  close : .close ∈ fs ↔ .shutdown d ∈ ls
  eof : .eof ∈ fs ↔ .readEof d ∈ ls

section Shows

variable {d : Dir} {ls : List Op} {fs fs' : List (Transit UInt8)} {op : Op}

theorem written_snoc : written d (ls ++ [op]) = written d ls ++
    match op with | .write d' bs => if d' = d then bs else [] | _ => [] := by
  rw [written, List.flatMap_append, List.flatMap_singleton]
  rfl

theorem received_snoc : received d (ls ++ [op]) = received d ls ++
    match op with | .read d' bs => if d' = d then bs else [] | _ => [] := by
  rw [received, List.flatMap_append, List.flatMap_singleton]
  rfl

theorem Half.transit_cases (h : Half) (c : Call UInt8) :
    (∃ i n, h.transit c = .pass i n) ∨ ∃ i, h.transit c = .shut i := by
  cases h <;> cases c <;> simp [Half.transit]

/-- An operation outside the direction leaves no trace in it. -/
theorem traceless (ls : List Op) (hd : op.dir? ≠ some d) :
    written d (ls ++ [op]) = written d ls ∧ received d (ls ++ [op]) = received d ls ∧
      op ≠ .shutdown d ∧ op ≠ .readEof d := by
  rw [written_snoc, received_snoc]
  cases op <;> simp_all [Op.dir?]

theorem Shows.snoc (h : Shows d ls fs) (hm : Moves d op fs') :
    Shows d (ls ++ [op]) (fs ++ fs') := by
  have hsent : ∀ f, Transit.sent (fs ++ [f]) = written d ls ++ _ := fun f => by
    rw [Transit.sent_snoc, h.sent]
  have hgot : ∀ f, Transit.got (fs ++ [f]) = received d ls ++ _ := fun f => by
    rw [Transit.got_snoc, h.got]
  cases hm with
  | write | shutdown | read | readEof | cut =>
      constructor <;> simp [hsent, hgot, written_snoc, received_snoc, h.close, h.eof]
  | @copy half c =>
      rcases half.transit_cases c with ⟨i, n, ht⟩ | ⟨i, ht⟩ <;> rw [ht] <;>
        constructor <;> simp [hsent, hgot, written_snoc, received_snoc, h.close, h.eof]
  | drop hd =>
      have hd' : op.dir? ≠ some d := by
        rw [hd]
        exact nofun
      obtain ⟨hw, hr, hs, he⟩ := traceless ls hd'
      constructor <;> simp [hsent, hgot, hw, hr, h.close, h.eof, Ne.symm hs, Ne.symm he]
  | other hd =>
      obtain ⟨hw, hr, hs, he⟩ := traceless ls hd
      constructor <;> simp [h.sent, h.got, hw, hr, h.close, h.eof, Ne.symm hs, Ne.symm he]

end Shows

/-! ## Each direction is a path -/

section Runs

variable {σ : Type} {copier : Lts σ (Dir × Call UInt8)} {fromStr : String → Option Message}
  {connId : String} {capacity : Nat} {s s' : Conf copier} {ls : List Op} {op : Op} {d : Dir}

theorem seen_reading {buf : List UInt8} (he : s.endpoint = .reading buf) :
    s.seen .down = (s.way .down).behind := by
  rw [Conf.seen, he]

theorem seen_other (he : ∀ buf, s.endpoint ≠ .reading buf) : s.seen .down = s.way .down := by
  rw [Conf.seen]
  split
  · exact absurd (by assumption) (he _)
  · rfl

/-- The frame is no part of the receiver's connection, nor of the sender's. -/
theorem seen_target : (s.seen d).target = (s.conns d).target := by
  cases d with
  | up => rfl
  | down => cases he : s.endpoint <;> simp [Conf.seen, he, Conf.way, Way.behind]

theorem seen_source : (s.seen d).source = (s.conns d).source := by
  cases d with
  | up => rfl
  | down => cases he : s.endpoint <;> simp [Conf.seen, he, Conf.way, Way.behind]

theorem seen_setSource (a : Hop UInt8) :
    (s.setConns d { s.conns d with source := a }).seen d = { s.seen d with source := a } := by
  cases d with
  | up => rfl
  | down => cases he : s.endpoint <;> simp [Conf.seen, he, Conf.way, Way.behind]

theorem seen_setTarget (a : Hop UInt8) :
    (s.setConns d { s.conns d with target := a }).seen d = { s.seen d with target := a } := by
  cases d with
  | up => rfl
  | down => cases he : s.endpoint <;> simp [Conf.seen, he, Conf.way, Way.behind]

/-- What is seen of a direction depends on its way and on the endpoint. -/
theorem seen_congr (hway : s'.way d = s.way d) (he : s'.endpoint = s.endpoint) :
    s'.seen d = s.seen d := by
  cases d with
  | up => exact hway
  | down => rw [Conf.seen, Conf.seen, he, hway]

theorem way_setOther {w : Conns} {d' : Dir} (hd : d' ≠ d) : (s.setConns d' w).way d = s.way d := by
  rw [Conf.way, Conf.way, Conf.conns_setOther hd, Conf.loop_setConns, Conf.loop_setConns]

theorem seen_setOther {w : Conns} {d' : Dir} (hd : d' ≠ d) :
    (s.setConns d' w).seen d = s.seen d :=
  seen_congr (way_setOther hd) Conf.endpoint_setConns

theorem seen_copyOther {d' : Dir} {w : Conns} {t : Task} {c : Call UInt8} {l : Loop copier}
    (hd : d' ≠ d) (hcall : (s.loop t).call d' c = some l) :
    ((s.setConns d' w).setLoop t l).seen d = s.seen d := by
  refine seen_congr (way_copyOther hd hcall) ?_
  rw [Conf.endpoint_setLoop, Conf.endpoint_setConns]

/-- The copying at the far end does not see the frame: it comes before all that it
    writes. -/
theorem copy_behind {w w' : Way} {c : Call UInt8} (h : w.copy .far c = some w')
    (hnl : w.data.fin = false → (10 : UInt8) ∈ w.data.items) :
    w.behind.copy .far c = some w'.behind := by
  obtain ⟨p, hp, rfl⟩ := Option.map_eq_some_iff.mp h
  cases c with
  | read xs | readEof =>
      obtain ⟨q, hq, rfl⟩ := Option.map_eq_some_iff.mp hp
      simp only [Way.copy, Call.carry, Way.behind, hq, Option.map_some]
  | write xs =>
      obtain ⟨q, hq, rfl⟩ := Option.map_eq_some_iff.mp hp
      obtain ⟨hn, hq⟩ := Option.ite_none_right_eq_some.mp hq
      obtain ⟨a, ha, rfl⟩ := Option.map_eq_some_iff.mp hq
      obtain ⟨⟨hopen, hroom⟩, ha⟩ := Option.ite_none_right_eq_some.mp ha
      rw [← Option.some.inj ha]
      have hle : (afterFrame w.data.items).length ≤ w.data.items.length := length_afterFrame
      have hput : w.data.fin = false ∧ ∀ m ∈ w.data.room,
          (afterFrame w.data.items).length + (w.far.items.take xs.length).length ≤ m :=
        ⟨hopen, fun m hm => (Nat.add_le_add_right hle _).trans (hroom m hm)⟩
      have hpass : Hop.pass xs.length w.behind.data w.far = some
          ({ w.data with items := afterFrame w.data.items ++ w.far.items.take xs.length },
            { w.far with items := w.far.items.drop xs.length }) := by
        rw [Hop.pass, if_pos hn, Hop.put, Way.behind, if_pos hput]
        rfl
      show (Option.map _ (Hop.pass xs.length w.behind.data w.far)).map _ = _
      rw [hpass, ← afterFrame_append (hnl hopen)]
      rfl
  | shutdown =>
      obtain ⟨q, hq, rfl⟩ := Option.map_eq_some_iff.mp hp
      obtain ⟨hfar, hq⟩ := Option.ite_none_right_eq_some.mp hq
      obtain ⟨a, ha, rfl⟩ := Option.map_eq_some_iff.mp hq
      obtain ⟨hopen, ha⟩ := Option.ite_none_right_eq_some.mp ha
      rw [← Option.some.inj ha]
      have hshut : Hop.shut w.behind.data w.far = some
          ({ w.data with items := afterFrame w.data.items, fin := true }, w.far) := by
        rw [Hop.shut, if_pos hfar, Hop.end, Way.behind, if_pos hopen]
        rfl
      show (Option.map _ (Hop.shut w.behind.data w.far)).map _ = _
      rw [hshut]
      rfl

theorem run_single {new hs hs' : List (Hop UInt8)} {f : Transit UInt8}
    (h : Transit.exec hs f = some hs') : (Transit.path new).runFrom hs [f] = some hs' := by
  show (Transit.exec hs f).bind _ = _
  rw [h]
  rfl

/-- What a step is on the path of a direction. -/
structure Seen (d : Dir) (op : Op) (whole : Prop) (s s' : Conf copier)
    (fs : List (Transit UInt8)) : Prop where
  moves : Moves d op fs
  run : ∀ new, (Transit.path new).runFrom (s.seen d).hops fs = some (s'.seen d).hops
  whole : whole → Transit.Whole fs

theorem Seen.none {whole : Prop} (hd : op.dir? ≠ some d) (hs : s'.seen d = s.seen d) :
    Seen d op whole s s' [] where
  moves := .other hd
  run := fun _ => by rw [hs]; rfl
  whole := fun _ _ _ => List.not_mem_nil

theorem Seen.one {whole : Prop} {f : Transit UInt8} (hm : Moves d op [f])
    (hs : Transit.exec (s.seen d).hops f = some (s'.seen d).hops)
    (hf : whole → ∀ i n, f ≠ .cut i n) : Seen d op whole s s' [f] where
  moves := hm
  run := fun _ => run_single hs
  whole := fun hw i n hmem => hf hw i n (List.mem_singleton.mp hmem).symm

theorem seen_copy {h : Half} {c : Call UInt8} {p : Hop UInt8 × Hop UInt8} {l : Loop copier}
    (hc : Copies copier) (ho : Opening connId ls s) (hcopies : s.copies (h.task d) = true)
    (hexec : c.exec ((s.conns d).streams h).1 ((s.conns d).streams h).2 = some p)
    (hcall : (s.loop (h.task d)).call d c = some l) :
    (s.seen d).copy h c =
      some (((s.setConns d ((s.conns d).setStreams h p)).setLoop (h.task d) l).seen d) := by
  have hcopy := way_copy hc hexec hcall
  have he' : ((s.setConns d ((s.conns d).setStreams h p)).setLoop (h.task d) l).endpoint =
      s.endpoint := by
    rw [Conf.endpoint_setLoop, Conf.endpoint_setConns]
  cases d with
  | up => exact hcopy
  | down =>
      cases he : s.endpoint with
      | reading buf =>
          rw [seen_reading he, seen_reading (he'.trans he)]
          cases h with
          | near =>
              have hpiping : s.endpoint = .piping := of_decide_eq_true hcopies
              cases he.symm.trans hpiping
          | far =>
              have hpiping : s.dialer = .piping := of_decide_eq_true hcopies
              refine copy_behind hcopy fun hopen => ?_
              rcases ho with ha | ⟨_, hfin⟩
              · cases ha with
                | writing hd => cases hd.symm.trans hpiping
                | written _ he' hbuf hf => exact newline_arrived hbuf hf
                | read _ he' => cases he.symm.trans he'
              · exact absurd (hfin.symm.trans hopen) nofun
      | piping | dropped =>
          rw [seen_other (by rw [he]; nofun), seen_other (by rw [he', he]; nofun)]
          exact hcopy

theorem behind_items {w : Way} {bs : List UInt8} (h : afterFrame bs = afterFrame w.data.items) :
    Way.behind { w with data := { w.data with items := bs } } = w.behind := by
  rw [Way.behind, Way.behind, h]

theorem seen_announce {n : Nat} {rest : List UInt8} {a : Hop UInt8} (ho : Opening connId ls s)
    (hd : s.dialer = .announcing rest) (hput : s.down.data.put (rest.take n) = some a)
    (dialer : Dialer) :
    ({ s with dialer := dialer, down := { s.down with data := a } } : Conf copier).seen d =
      s.seen d := by
  obtain ⟨hopen, rfl⟩ := Transit.put_some hput
  cases d with
  | up => rfl
  | down =>
      rcases ho with ha | ⟨_, hfin⟩
      · cases ha with
        | @writing rest' buf hd' he _ _ hf =>
            cases hd.symm.trans hd'
            have hold : afterFrame s.down.data.items = [] := afterFrame_part hf
            have hnew : afterFrame (s.down.data.items ++ rest.take n) = [] := by
              have hf' : buf ++ (s.down.data.items ++ rest.take n) ++ rest.drop n =
                  frame connId := by
                rw [← hf]
                simp
              exact afterFrame_part hf'
            rw [seen_reading (s := s) he, seen_reading]
            · exact behind_items (w := s.way .down) (hnew.trans hold.symm)
            · exact he
        | written hd' | read hd' => exact absurd hd (hd' rest)
      · rw [hopen] at hfin
        cases hfin

/-- Without its connection the endpoint has nothing to read. -/
theorem seen_drop {buf : List UInt8} (he : s.endpoint = .reading buf) :
    (s.seen .down).cut 0 2 = some (s.drop.seen .down) := by
  rw [seen_reading he, seen_other (s := s.drop) nofun]
  rfl

theorem seen_leave {buf : List UInt8} {b : UInt8} {rest : List UInt8}
    (he : s.endpoint = .reading buf) (hitems : s.down.data.items = b :: rest) (hb : b ≠ 10) :
    ({ s.leave rest with endpoint := .reading (buf ++ [b]) } : Conf copier).seen .down =
      s.seen .down := by
  rw [seen_reading he, seen_reading rfl]
  refine behind_items (w := s.way .down) ?_
  show afterFrame rest = afterFrame s.down.data.items
  rw [hitems, afterFrame_cons hb]

theorem seen_frameByte {buf : List UInt8} (he : s.endpoint = .reading buf)
    (hread : readByte fromStr connId buf s = some s') :
    s'.seen .down = s.seen .down ∨
      s'.endpoint = .dropped ∧ (s.seen .down).cut 0 2 = some (s'.seen .down) := by
  -- the visitor's task goes on behind the frame, or what is there is lost
  have hopened : ∀ (t : Conf copier) line, t.way .down = (s.way .down).behind →
      s' = opened fromStr connId line t →
      s'.seen .down = s.seen .down ∨
        s'.endpoint = .dropped ∧ (s.seen .down).cut 0 2 = some (s'.seen .down) := by
    intro t line hdown ho
    rw [seen_reading he, ← hdown, ho]
    rcases opened_cases line t with ho | ho <;> rw [ho]
    · exact Or.inl (seen_other nofun)
    · rw [seen_other (s := t.drop) nofun]
      exact Or.inr ⟨rfl, rfl⟩
  have hbehind : ∀ bs, afterFrame s.down.data.items = bs →
      { s.way .down with data := { s.down.data with items := bs } } = (s.way .down).behind := by
    rintro bs rfl
    rfl
  rcases readByte_cases hread with ⟨rest, hitems, ho⟩ | ⟨b, rest, hitems, hb, rfl⟩ |
    ⟨hitems, _, rfl | ho⟩
  · refine hopened (s.leave rest) _ (hbehind rest ?_) ho
    rw [hitems, afterFrame_newline]
  · exact Or.inl (seen_leave he hitems hb)
  · exact Or.inr ⟨rfl, seen_drop he⟩
  · refine hopened s _ ?_ ho
    rw [← hbehind s.down.data.items (by rw [hitems]; rfl)]
    rfl

theorem cut_behind {n i : Nat} {w w' : Way} (h : w.cut n i = some w') :
    ∃ m, w.behind.cut m i = some w'.behind := by
  by_cases hi : i = 2
  · subst hi
    obtain ⟨m, hm⟩ : ∃ m, afterFrame (w.data.items.take n) = (afterFrame w.data.items).take m :=
      afterFrame_take n
    refine ⟨m, ?_⟩
    rw [← Option.some.inj h]
    simp only [Way.cut, Way.behind, Hop.cut, hm]
  · refine ⟨n, ?_⟩
    rw [Way.cut.eq_def] at h ⊢
    split at h <;> first | contradiction | rw [← Option.some.inj h]; rfl

theorem way_cut {n i : Nat} {w : Conns} (hcut : (s.conns d).cut n i = some w) :
    (s.way d).cut n (2 * i) = some ((s.setConns d w).way d) := by
  rcases i with _ | _ | _ | i <;> cases hcut <;> cases d <;> rfl

/-- What is lost of a direction is lost of what is seen of it. -/
theorem cut_seen {n i : Nat} (hcut : (s.way d).cut n i = some (s'.way d))
    (he : s'.endpoint = s.endpoint) : ∃ m, (s.seen d).cut m i = some (s'.seen d) := by
  cases d with
  | up => exact ⟨n, hcut⟩
  | down =>
      by_cases hr : ∃ buf, s.endpoint = .reading buf
      · obtain ⟨buf, hbuf⟩ := hr
        rw [seen_reading hbuf, seen_reading (he.trans hbuf)]
        exact cut_behind hcut
      · have hbuf : ∀ buf, s.endpoint ≠ .reading buf := fun buf hbuf => hr ⟨buf, hbuf⟩
        rw [seen_other hbuf, seen_other (by rwa [he])]
        exact ⟨n, hcut⟩

theorem Step.seen (hs : Step fromStr connId s op s') (hc : Copies copier)
    (ho : Opening connId ls s) (hserde : ReadsCompact fromStr) (d : Dir) :
    ∃ fs, Seen d op (Whole (ls ++ [op])) s s' fs := by
  have hown : ∀ {d' w}, d' ≠ d → op.dir? = some d' →
      Seen d op (Whole (ls ++ [op])) s (s.setConns d' w) [] := by
    intro d' w hne hd
    exact .none (by rw [hd]; simpa using hne) (seen_setOther hne)
  cases hs with
  | @write d' bs a hput =>
      by_cases hd : d' = d
      · subst hd
        refine ⟨_, .one .write ?_ fun _ => nofun⟩
        rw [exec_send, seen_source, hput, seen_setSource]
        rfl
      · exact ⟨_, hown hd rfl⟩
  | @shutdown d' a hend =>
      by_cases hd : d' = d
      · subst hd
        refine ⟨_, .one .shutdown ?_ fun _ => nofun⟩
        rw [exec_close, seen_source, hend, seen_setSource]
        rfl
      · exact ⟨_, hown hd rfl⟩
  | @read d' bs a htake =>
      by_cases hd : d' = d
      · subst hd
        refine ⟨_, .one .read ?_ fun _ => nofun⟩
        rw [exec_take, seen_target, htake, seen_setTarget]
        rfl
      · exact ⟨_, hown hd rfl⟩
  | @readEof d' hend =>
      by_cases hd : d' = d
      · subst hd
        rw [← seen_target] at hend
        exact ⟨_, .one .readEof (exec_eof hend) fun _ => nofun⟩
      · exact ⟨_, .none (by simpa [Op.dir?] using hd) rfl⟩
  | @copy d' half c p l hcopies hexec hcall =>
      by_cases hd : d' = d
      · subst hd
        refine ⟨_, .one .copy ?_ fun _ i n hf => ?_⟩
        · rw [exec_copy, seen_copy hc ho hcopies hexec hcall]
          rfl
        · rcases half.transit_cases c with ⟨_, _, ht⟩ | ⟨_, ht⟩ <;> rw [ht] at hf <;> cases hf
      · exact ⟨_, .none (by simpa [Op.dir?] using hd) (seen_copyOther hd hcall)⟩
  | announce hd _ hput => exact ⟨_, .none nofun (seen_announce ho hd hput _)⟩
  | dial | dialError => exact ⟨_, .none nofun (by cases d <;> rfl)⟩
  | @frameByte buf _ he hread =>
      cases d with
      | up =>
          obtain ⟨_, _, rfl, _⟩ := readByte_frame hread
          exact ⟨_, .none nofun rfl⟩
      | down =>
          rcases seen_frameByte he hread with heq | ⟨hdrop, hcut⟩
          · exact ⟨_, .none nofun heq⟩
          · refine ⟨[.cut 2 0], .one (.drop rfl) ?_ ?_⟩
            · rw [exec_cut, hcut]
              rfl
            · intro hw
              have ha := (ho.announced (whole_snoc.mp hw).1).frameByte he hread hserde
              cases ha with
              | writing _ he' | written _ he' | read _ he' => cases hdrop.symm.trans he'
  | frameError he =>
      cases d with
      | up => exact ⟨_, .none nofun rfl⟩
      | down =>
          refine ⟨[.cut 2 0], .one (.drop rfl) ?_ ?_⟩
          · rw [exec_cut, seen_drop he]
            rfl
          · intro hw
            cases (whole_snoc.mp hw).2
  | @stop t =>
      obtain ⟨m, hm⟩ := cut_seen (d := d) way_stop Conf.endpoint_setLoop
      refine ⟨[.cut (t.place d) m], .one (.drop rfl) ?_ fun hw => ?_⟩
      · rw [exec_cut, hm]
        rfl
      · cases (whole_snoc.mp hw).2
  | @cut d' i n w hcut =>
      by_cases hd : d' = d
      · subst hd
        obtain ⟨m, hm⟩ := cut_seen (way_cut hcut) Conf.endpoint_setConns
        refine ⟨[.cut (2 * i) m], .one .cut ?_ fun hw => ?_⟩
        · rw [exec_cut, hm]
          rfl
        · cases (whole_snoc.mp hw).2
      · exact ⟨_, hown hd rfl⟩

end Runs

end Borehole.DataPlane
