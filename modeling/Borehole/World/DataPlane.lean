/-
  Borehole.World.DataPlane

  The bytes of one visitor, from the public port to the local service and back
  (crates/server/src/proxy.rs, crates/node/src/proxy.rs, and `handle_data_conn`
  and `read_frame` in crates/server/src/control.rs, crates/node/src/main.rs and
  crates/cli/src/tunnel.rs).

  The visitor is connected to the server, or to a node.  For it the CLI opens a
  data connection, announces on it which visitor it is for, dials the local
  service and copies both ways.  The server reads the announcement one byte at
  a time, finds the visitor, and copies both ways as well.

  `copy_bidirectional` is any copier that does what is documented of it (see
  `Borehole.Conc.Copying`).  What fails ends a stream early: a connection that is
  reset or a task that returns drops what is on its way there.
-/

import Borehole.Common.Frames
import Borehole.Conc.Copying

namespace Borehole.DataPlane

open Conc

/-- From the visitor up to the service, or from the service down to the visitor. -/
inductive Dir where
  | up
  | down
  deriving DecidableEq, Repr

/-- The copying on the way that is next to the sender, or to the receiver. -/
inductive Half where
  | far
  | near
  deriving DecidableEq, Repr

/-- The two tasks that copy: `proxy::run` for the visitor, on the server or the node,
    and `handle_data_conn` of the CLI. -/
inductive Task where
  | visitor
  | cli
  deriving DecidableEq, Repr

/-- The server is next to the visitor, the CLI next to the service. -/
def Half.task : Half → Dir → Task
  | .far, .up | .near, .down => .visitor
  | .near, .up | .far, .down => .cli

/-- The connections that the bytes of one direction pass through. -/
structure Conns where
  /-- The sender's. -/
  source : Hop UInt8
  data : Hop UInt8
  /-- The receiver's. -/
  target : Hop UInt8
  deriving DecidableEq

namespace Conns

/-- Up to `capacity` bytes fit into the buffers of a connection. -/
def new (capacity : Nat) : Conns where
  source := Hop.empty (some capacity)
  data := Hop.empty (some capacity)
  target := Hop.empty (some capacity)

/-- The stream that is read there, and the one that is written. -/
def streams (w : Conns) : Half → Hop UInt8 × Hop UInt8
  | .far => (w.source, w.data)
  | .near => (w.data, w.target)

/-- Both of them, as a call leaves them. -/
def setStreams (w : Conns) : Half → Hop UInt8 × Hop UInt8 → Conns
  | .far, p => { w with source := p.1, data := p.2 }
  | .near, p => { w with data := p.1, target := p.2 }

/-- The first `n` bytes on connection `i` are kept, counted from the receiver. -/
def cut (w : Conns) (n : Nat) : Nat → Option Conns
  | 0 => some { w with target := w.target.cut n }
  | 1 => some { w with data := w.data.cut n }
  | 2 => some { w with source := w.source.cut n }
  | _ => none

end Conns

/-- `handle_data_conn` of the server or the node, and then the visitor's task. -/
inductive Endpoint where
  /-- In `read_frame`, with the bytes it has read. -/
  | reading (buf : List UInt8)
  /-- The visitor's task has the connection and copies. -/
  | piping
  /-- The connection is dropped. -/
  | dropped
  deriving DecidableEq, Repr

/-- `handle_data_conn` of the CLI. -/
inductive Dialer where
  /-- In `write_all`, with what is left of the frame. -/
  | announcing (rest : List UInt8)
  /-- Connecting to the local service. -/
  | dialing
  | piping
  /-- The local service cannot be reached. -/
  | failed
  deriving DecidableEq, Repr

section Steps

variable {σ : Type} (fromStr : String → Option Message) (copier : Lts σ (Dir × Call UInt8))
  (connId : String)

/-- Where the two tasks are, what each copies, and the connections. -/
structure Conf where
  endpoint : Endpoint
  dialer : Dialer
  visitor : Loop copier
  cli : Loop copier
  up : Conns
  down : Conns

/-- What an end, a task or the network does. -/
inductive Op where
  /-- The sender of a direction writes. -/
  | write (d : Dir) (bs : List UInt8)
  /-- The sender shuts down its side. -/
  | shutdown (d : Dir)
  /-- The receiver reads. -/
  | read (d : Dir) (bs : List UInt8)
  /-- The receiver's read returns no bytes. -/
  | readEof (d : Dir)
  /-- `copy_bidirectional` makes a call on its streams. -/
  | copy (d : Dir) (h : Half) (c : Call UInt8)
  /-- `n` more bytes of the frame are written. -/
  | announce (n : Nat)
  /-- The local service is connected, or cannot be reached. -/
  | dial
  | dialError
  /-- `read_frame` reads a byte, or none at the end of the stream. -/
  | frameByte
  | frameError
  /-- A task that copies returns early: what it has read and not written is lost. -/
  | stop (t : Task)
  /-- What is on its way on a connection is lost but for `n` bytes; `i` counts from
      the receiver. -/
  | cut (d : Dir) (i n : Nat)
  deriving DecidableEq

namespace Conf

variable {copier}

/-- The connections of a direction. -/
def conns (s : Conf copier) : Dir → Conns
  | .up => s.up
  | .down => s.down

/-- The same, but for the connections of a direction. -/
def setConns (s : Conf copier) : Dir → Conns → Conf copier
  | .up, w => { s with up := w }
  | .down, w => { s with down := w }

/-- What a task copies. -/
def loop (s : Conf copier) : Task → Loop copier
  | .visitor => s.visitor
  | .cli => s.cli

/-- The same, but for what a task copies. -/
def setLoop (s : Conf copier) : Task → Loop copier → Conf copier
  | .visitor, l => { s with visitor := l }
  | .cli, l => { s with cli := l }

section Fields

variable {s : Conf copier} {d d' : Dir} {t t' : Task} {w : Conns} {l : Loop copier}

@[simp] theorem conns_setConns : (s.setConns d w).conns d = w := by
  cases d <;> rfl

theorem conns_setOther (hd : d' ≠ d) : (s.setConns d' w).conns d = s.conns d := by
  cases d <;> cases d' <;> first | rfl | exact absurd rfl hd

@[simp] theorem conns_setLoop : (s.setLoop t l).conns d = s.conns d := by
  cases t <;> cases d <;> rfl

@[simp] theorem loop_setConns : (s.setConns d w).loop t = s.loop t := by
  cases d <;> cases t <;> rfl

@[simp] theorem loop_setLoop : (s.setLoop t l).loop t = l := by
  cases t <;> rfl

theorem loop_setOther (ht : t' ≠ t) : (s.setLoop t' l).loop t = s.loop t := by
  cases t <;> cases t' <;> first | rfl | exact absurd rfl ht

@[simp] theorem endpoint_setConns : (s.setConns d w).endpoint = s.endpoint := by
  cases d <;> rfl

@[simp] theorem endpoint_setLoop : (s.setLoop t l).endpoint = s.endpoint := by
  cases t <;> rfl

@[simp] theorem dialer_setConns : (s.setConns d w).dialer = s.dialer := by
  cases d <;> rfl

@[simp] theorem dialer_setLoop : (s.setLoop t l).dialer = s.dialer := by
  cases t <;> rfl

end Fields

/-- Both ends of a direction are connected: the service only once it is dialed. -/
def canWrite (s : Conf copier) : Dir → Bool
  | .up => true
  | .down => s.dialer = .piping

/-- The receiver of a direction is connected. -/
def canRead (s : Conf copier) : Dir → Bool
  | .up => s.dialer = .piping
  | .down => true

/-- `bs` is left to read of the data connection. -/
def leave (s : Conf copier) (bs : List UInt8) : Conf copier :=
  { s with down := { s.down with data := { s.down.data with items := bs } } }

/-- The data connection is dropped without a visitor: what is on it is lost. -/
def drop (s : Conf copier) : Conf copier :=
  { s with endpoint := .dropped, down := { s.down with data := s.down.data.cut 0 } }

/-- The task has come to its `copy_bidirectional`. -/
def copies (s : Conf copier) : Task → Bool
  | .visitor => s.endpoint = .piping
  | .cli => s.dialer = .piping

end Conf

variable {copier}

/-- Who waits for a connection that opens with `line`: the visitor with the
    `conn_id` in it. -/
def opened (line : String) (s : Conf copier) : Conf copier :=
  if fromLine fromStr line = some (.dataConn ⟨connId⟩) then { s with endpoint := .piping }
  else s.drop

/-- One read of `read_frame`, with what it has read so far. -/
def readByte (buf : List UInt8) (s : Conf copier) : Option (Conf copier) :=
  match s.down.data.items with
  | b :: rest =>
      some (if b = 10 then opened fromStr connId (Utf8.fromUtf8Lossy buf) (s.leave rest)
        else { s.leave rest with endpoint := .reading (buf ++ [b]) })
  | [] =>
      if s.down.data.fin = true then
        some (if buf = [] then s.drop else opened fromStr connId (Utf8.fromUtf8Lossy buf) s)
      else none

/-- What a step does, where it is possible. -/
def exec (s : Conf copier) : Op → Option (Conf copier)
  | .write d bs =>
      if s.canWrite d then
        ((s.conns d).source.put bs).map fun a => s.setConns d { s.conns d with source := a }
      else none
  | .shutdown d =>
      if s.canWrite d then
        (s.conns d).source.end.map fun a => s.setConns d { s.conns d with source := a }
      else none
  | .read d bs =>
      if s.canRead d then
        ((s.conns d).target.take bs).map fun a => s.setConns d { s.conns d with target := a }
      else none
  | .readEof d =>
      if s.canRead d ∧ (s.conns d).target.fin = true ∧ (s.conns d).target.items = [] then some s
      else none
  | .copy d h c =>
      if s.copies (h.task d) then
        (c.exec ((s.conns d).streams h).1 ((s.conns d).streams h).2).bind fun p =>
          ((s.loop (h.task d)).call d c).map fun l =>
            (s.setConns d ((s.conns d).setStreams h p)).setLoop (h.task d) l
      else none
  | .announce n =>
      match s.dialer with
      | .announcing rest =>
          if 0 < n ∧ n ≤ rest.length then
            (s.down.data.put (rest.take n)).map fun a =>
              { s with
                dialer := if rest.drop n = [] then .dialing else .announcing (rest.drop n)
                down := { s.down with data := a } }
          else none
      | _ => none
  | .dial => if s.dialer = .dialing then some { s with dialer := .piping } else none
  | .dialError => if s.dialer = .dialing then some { s with dialer := .failed } else none
  | .frameByte =>
      match s.endpoint with
      | .reading buf => readByte fromStr connId buf s
      | _ => none
  | .frameError =>
      match s.endpoint with
      | .reading _ => some s.drop
      | _ => none
  | .stop t => if s.copies t then some (s.setLoop t (s.loop t).stop) else none
  | .cut d i n => ((s.conns d).cut n i).map (s.setConns d)

/-- The `DataConn` frame of the visitor. -/
def frame : List UInt8 :=
  (sendBytes (.dataConn ⟨connId⟩)).getD []

variable (copier)

/-- The visitor is accepted, the CLI has dialed, and nothing is written yet. -/
def start (capacity : Nat) : Conf copier where
  endpoint := .reading []
  dialer := .announcing (frame connId)
  visitor := Loop.new
  cli := Loop.new
  up := Conns.new capacity
  down := Conns.new capacity

/-- Every order of the steps of the two ends, the two tasks and the network. -/
def dataPlane (capacity : Nat) : Lts (Conf copier) Op where
  init := start copier connId capacity
  step := exec fromStr connId

end Steps

/-- What the sender of a direction has written. -/
def written (d : Dir) (ls : List Op) : List UInt8 :=
  ls.flatMap fun
    | .write d' bs => if d' = d then bs else []
    | _ => []

/-- What the receiver of a direction has read. -/
def received (d : Dir) (ls : List Op) : List UInt8 :=
  ls.flatMap fun
    | .read d' bs => if d' = d then bs else []
    | _ => []

/-- A step by which something fails. -/
def Op.fails : Op → Bool
  | .cut .. | .stop _ | .frameError | .dialError => true
  | _ => false

/-- Nothing has failed. -/
def Whole (ls : List Op) : Prop :=
  ∀ op ∈ ls, op.fails = false

instance (ls : List Op) : Decidable (Whole ls) :=
  inferInstanceAs (Decidable (∀ op ∈ ls, op.fails = false))

/-- What the two tasks do, and the reading of the ends: all that does not wait
    for an end to write. -/
def Op.inner : Op → Bool
  | .read .. | .copy .. | .announce _ | .dial | .frameByte => true
  | _ => false

/-- Nothing is left to do for the two tasks, and the ends have read what has
    arrived. -/
def Settled {σ : Type} {copier : Lts σ (Dir × Call UInt8)} (fromStr : String → Option Message)
    (connId : String) (s : Conf copier) : Prop :=
  ∀ op : Op, op.inner = true → exec fromStr connId s op = none

/-! ## The steps -/

/-- What a step does. -/
inductive Step {σ : Type} {copier : Lts σ (Dir × Call UInt8)} (fromStr : String → Option Message)
    (connId : String) (s : Conf copier) : Op → Conf copier → Prop where
  | write {d : Dir} {bs : List UInt8} {a : Hop UInt8}
      (hput : (s.conns d).source.put bs = some a) :
      Step fromStr connId s (.write d bs) (s.setConns d { s.conns d with source := a })
  | shutdown {d : Dir} {a : Hop UInt8} (hend : (s.conns d).source.end = some a) :
      Step fromStr connId s (.shutdown d) (s.setConns d { s.conns d with source := a })
  | read {d : Dir} {bs : List UInt8} {a : Hop UInt8}
      (htake : (s.conns d).target.take bs = some a) :
      Step fromStr connId s (.read d bs) (s.setConns d { s.conns d with target := a })
  | readEof {d : Dir} (hend : (s.conns d).target.fin = true ∧ (s.conns d).target.items = []) :
      Step fromStr connId s (.readEof d) s
  | copy {d : Dir} {h : Half} {c : Call UInt8} {p : Hop UInt8 × Hop UInt8} {l : Loop copier}
      (hcopies : s.copies (h.task d) = true)
      (hexec : c.exec ((s.conns d).streams h).1 ((s.conns d).streams h).2 = some p)
      (hcall : (s.loop (h.task d)).call d c = some l) :
      Step fromStr connId s (.copy d h c)
        ((s.setConns d ((s.conns d).setStreams h p)).setLoop (h.task d) l)
  | announce {n : Nat} {rest : List UInt8} {a : Hop UInt8} (hd : s.dialer = .announcing rest)
      (hn : 0 < n ∧ n ≤ rest.length) (hput : s.down.data.put (rest.take n) = some a) :
      Step fromStr connId s (.announce n)
        { s with
          dialer := if rest.drop n = [] then .dialing else .announcing (rest.drop n)
          down := { s.down with data := a } }
  | dial (hd : s.dialer = .dialing) : Step fromStr connId s .dial { s with dialer := .piping }
  | dialError (hd : s.dialer = .dialing) :
      Step fromStr connId s .dialError { s with dialer := .failed }
  | frameByte {buf : List UInt8} {s' : Conf copier} (he : s.endpoint = .reading buf)
      (hread : readByte fromStr connId buf s = some s') : Step fromStr connId s .frameByte s'
  | frameError {buf : List UInt8} (he : s.endpoint = .reading buf) :
      Step fromStr connId s .frameError s.drop
  | stop {t : Task} (hcopies : s.copies t = true) :
      Step fromStr connId s (.stop t) (s.setLoop t (s.loop t).stop)
  | cut {d : Dir} {i n : Nat} {w : Conns} (hcut : (s.conns d).cut n i = some w) :
      Step fromStr connId s (.cut d i n) (s.setConns d w)

section Inversion

variable {σ : Type} {copier : Lts σ (Dir × Call UInt8)} {fromStr : String → Option Message}
  {connId : String} {s s' : Conf copier} {op : Op}

theorem exec_step (h : exec fromStr connId s op = some s') : Step fromStr connId s op s' := by
  cases op with
  | write d bs =>
      obtain ⟨_, h⟩ := Option.ite_none_right_eq_some.mp h
      obtain ⟨a, ha, rfl⟩ := Option.map_eq_some_iff.mp h
      exact .write ha
  | shutdown d =>
      obtain ⟨_, h⟩ := Option.ite_none_right_eq_some.mp h
      obtain ⟨a, ha, rfl⟩ := Option.map_eq_some_iff.mp h
      exact .shutdown ha
  | read d bs =>
      obtain ⟨_, h⟩ := Option.ite_none_right_eq_some.mp h
      obtain ⟨a, ha, rfl⟩ := Option.map_eq_some_iff.mp h
      exact .read ha
  | readEof d =>
      obtain ⟨hend, h⟩ := Option.ite_none_right_eq_some.mp h
      rw [← Option.some.inj h]
      exact .readEof hend.2
  | copy d half c =>
      obtain ⟨hcopies, h⟩ := Option.ite_none_right_eq_some.mp h
      obtain ⟨p, hp, h⟩ := Option.bind_eq_some_iff.mp h
      obtain ⟨l, hl, rfl⟩ := Option.map_eq_some_iff.mp h
      exact .copy hcopies hp hl
  | announce n =>
      rw [exec] at h
      split at h
      · rename_i rest hd
        obtain ⟨hn, h⟩ := Option.ite_none_right_eq_some.mp h
        obtain ⟨a, ha, rfl⟩ := Option.map_eq_some_iff.mp h
        exact .announce hd hn ha
      · cases h
  | dial =>
      obtain ⟨hd, h⟩ := Option.ite_none_right_eq_some.mp h
      rw [← Option.some.inj h]
      exact .dial hd
  | dialError =>
      obtain ⟨hd, h⟩ := Option.ite_none_right_eq_some.mp h
      rw [← Option.some.inj h]
      exact .dialError hd
  | frameByte =>
      rw [exec] at h
      split at h
      · exact .frameByte (by assumption) h
      · cases h
  | frameError =>
      rw [exec] at h
      split at h
      · rw [← Option.some.inj h]
        exact .frameError (by assumption)
      · cases h
  | stop t =>
      obtain ⟨hcopies, h⟩ := Option.ite_none_right_eq_some.mp h
      rw [← Option.some.inj h]
      exact .stop hcopies
  | cut d i n =>
      obtain ⟨w, hw, rfl⟩ := Option.map_eq_some_iff.mp h
      exact .cut hw

theorem readByte_cases {buf : List UInt8} (h : readByte fromStr connId buf s = some s') :
    (∃ rest, s.down.data.items = 10 :: rest ∧
      s' = opened fromStr connId (Utf8.fromUtf8Lossy buf) (s.leave rest)) ∨
    (∃ b rest, s.down.data.items = b :: rest ∧ b ≠ 10 ∧
      s' = { s.leave rest with endpoint := .reading (buf ++ [b]) }) ∨
    s.down.data.items = [] ∧ s.down.data.fin = true ∧
      (s' = s.drop ∨ s' = opened fromStr connId (Utf8.fromUtf8Lossy buf) s) := by
  rw [readByte] at h
  split at h
  · rename_i b rest hitems
    rw [← Option.some.inj h]
    by_cases hb : b = 10
    · rw [if_pos hb]
      exact Or.inl ⟨rest, hb ▸ hitems, rfl⟩
    · rw [if_neg hb]
      exact Or.inr (Or.inl ⟨b, rest, hitems, hb, rfl⟩)
  · rename_i hitems
    obtain ⟨hfin, h⟩ := Option.ite_none_right_eq_some.mp h
    refine Or.inr (Or.inr ⟨hitems, hfin, ?_⟩)
    rw [← Option.some.inj h]
    split
    · exact Or.inl rfl
    · exact Or.inr rfl

theorem opened_cases (line : String) (s : Conf copier) :
    opened fromStr connId line s = { s with endpoint := .piping } ∨
      opened fromStr connId line s = s.drop := by
  rw [opened]
  split
  · exact Or.inl rfl
  · exact Or.inr rfl

/-- Reading the frame takes nothing but bytes of the data connection, which it may
    drop. -/
theorem readByte_frame {buf : List UInt8} (h : readByte fromStr connId buf s = some s') :
    ∃ endpoint data, s' = { s with endpoint := endpoint, down := { s.down with data := data } } ∧
      (s.down.data.fin = true → data.fin = true) := by
  have hopened :
      ∀ (line : String) (t : Conf copier), ∃ endpoint data, opened fromStr connId line t =
      { t with endpoint := endpoint, down := { t.down with data := data } } ∧
        (t.down.data.fin = true → data.fin = true) := by
    intro line t
    rcases opened_cases line t with ho | ho <;> rw [ho]
    · exact ⟨_, t.down.data, rfl, id⟩
    · exact ⟨_, t.down.data.cut 0, rfl, fun _ => rfl⟩
  rcases readByte_cases h with ⟨rest, _, rfl⟩ | ⟨_, _, _, _, rfl⟩ | ⟨_, _, rfl | rfl⟩
  · exact hopened _ (s.leave rest)
  · exact ⟨_, _, rfl, id⟩
  · exact ⟨_, _, rfl, fun _ => rfl⟩
  · exact hopened _ s

/-- A call adds to the stream that it writes, if it does anything there, and ends
    neither of them but that one. -/
theorem call_streams {src dst : Hop UInt8} {p : Hop UInt8 × Hop UInt8} {c : Call UInt8}
    (h : c.exec src dst = some p) :
    p.1.fin = src.fin ∧ dst.items <+: p.2.items ∧ (dst.fin = true → p.2.fin = true) := by
  cases c with
  | read xs =>
      obtain ⟨a, ha, rfl⟩ := Option.map_eq_some_iff.mp h
      obtain ⟨_, ha⟩ := Option.ite_none_right_eq_some.mp ha
      rw [← Option.some.inj ha]
      exact ⟨rfl, List.prefix_rfl, id⟩
  | readEof =>
      obtain ⟨_, hp⟩ := Option.ite_none_right_eq_some.mp h
      rw [← Option.some.inj hp]
      exact ⟨rfl, List.prefix_rfl, id⟩
  | write xs =>
      obtain ⟨_, h⟩ := Option.ite_none_right_eq_some.mp h
      obtain ⟨a, ha, rfl⟩ := Option.map_eq_some_iff.mp h
      obtain ⟨_, rfl⟩ := Transit.put_some ha
      exact ⟨rfl, List.prefix_append _ _, id⟩
  | shutdown =>
      obtain ⟨a, ha, rfl⟩ := Option.map_eq_some_iff.mp h
      obtain ⟨_, rfl⟩ := Transit.end_some ha
      exact ⟨rfl, List.prefix_rfl, fun _ => rfl⟩

theorem setStreams_fin {w : Conns} {p : Hop UInt8 × Hop UInt8} (half half' : Half)
    (hsrc : p.1.fin = (w.streams half').1.fin)
    (hdst : (w.streams half').2.fin = true → p.2.fin = true)
    (h : (w.streams half).2.fin = true) :
    ((w.setStreams half' p).streams half).2.fin = true := by
  cases half with
  | far =>
      cases half' with
      | far => exact hdst h
      | near => exact hsrc.trans h
  | near =>
      cases half' with
      | far => exact h
      | near => exact hdst h

/-- A loss ends the connection it is on, and changes no other. -/
theorem cut_streams {w w' : Conns} {n i : Nat} (h : w.cut n i = some w') (half : Half)
    (hfin : (w.streams half).2.fin = true) : (w'.streams half).2.fin = true := by
  rcases i with _ | _ | _ | i <;> cases h <;> cases half <;> first | exact hfin | rfl

theorem cut_data {w w' : Conns} {n i : Nat} (h : w.cut n i = some w') :
    w'.data = w.data ∨ i = 1 ∧ w' = { w with data := w.data.cut n } := by
  rcases i with _ | _ | _ | i <;> cases h
  · exact Or.inl rfl
  · exact Or.inr ⟨rfl, rfl⟩
  · exact Or.inl rfl

/-- A stream that is ended stays so. -/
theorem Step.severed (hs : Step fromStr connId s op s') (d : Dir) (half : Half)
    (h : ((s.conns d).streams half).2.fin = true) :
    ((s'.conns d).streams half).2.fin = true := by
  cases hs with
  | @write d' bs a hput | @shutdown d' a hend =>
      cases d <;> cases d' <;> cases half <;> exact h
  | @read d' bs a htake =>
      obtain ⟨_, ha⟩ := Option.ite_none_right_eq_some.mp htake
      rw [← Option.some.inj ha]
      cases d <;> cases d' <;> cases half <;> exact h
  | readEof | dial | dialError => exact h
  | @copy d' half' c p l _ hexec _ =>
      obtain ⟨hsrc, _, hdst⟩ := call_streams hexec
      rw [Conf.conns_setLoop]
      by_cases hd : d' = d
      · subst hd
        rw [Conf.conns_setConns]
        exact setStreams_fin half half' hsrc hdst h
      · rw [Conf.conns_setOther hd]
        exact h
  | announce _ _ hput =>
      obtain ⟨_, rfl⟩ := Transit.put_some hput
      cases d <;> cases half <;> exact h
  | frameByte he hread =>
      obtain ⟨_, _, rfl, hfin⟩ := readByte_frame hread
      cases d <;> cases half <;> first | exact h | exact hfin h
  | frameError =>
      cases d <;> cases half <;> first | exact h | rfl
  | stop =>
      rw [Conf.conns_setLoop]
      exact h
  | @cut d' i n w hcut =>
      cases d <;> cases d' <;> first | exact h | exact cut_streams hcut half h

end Inversion

end Borehole.DataPlane
