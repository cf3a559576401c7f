/-
  Borehole.Conc.Copying

  Copying between two streams, in each direction from one to the other.

  A copier is any system of calls on its streams that does what is documented of
  copying: what it writes in a direction is what it has read there, in order; at the
  end of the one stream it stops reading and, once all is written, shuts down the
  other; and as long as its streams let it, it goes on, whatever becomes of the
  other direction.

  What it has read and not written is a buffer of the path that its direction is
  part of (see `Borehole.Conc.Relay`): each call is a step of that path, and where
  the path can go on, so can the copier.
-/

import Borehole.Conc.Relay
import Mathlib.Logic.Function.Basic

namespace Borehole.Conc

/-- A call that a copier makes on its streams, with what it returns. -/
inductive Call (α : Type) where
  /-- The read returns `xs`. -/
  | read (xs : List α)
  /-- The read finds the end of the stream. -/
  | readEof
  /-- The write takes `xs`. -/
  | write (xs : List α)
  | shutdown
  deriving DecidableEq

namespace Call

variable {δ α : Type}

/-- What a call does to the stream that is read and to the one that is written. -/
def exec [DecidableEq α] (src dst : Hop α) : Call α → Option (Hop α × Hop α)
  | .read xs => (src.take xs).map fun src => (src, dst)
  | .readEof => if src.fin = true ∧ src.items = [] then some (src, dst) else none
  | .write xs => if xs ≠ [] then (dst.put xs).map fun dst => (src, dst) else none
  | .shutdown => dst.end.map fun dst => (src, dst)

/-- The calls of direction `d`. -/
def along [DecidableEq δ] (d : δ) (cs : List (δ × Call α)) : List (Call α) :=
  cs.filterMap fun c => if c.1 = d then some c.2 else none

/-- What has been read. -/
def reads (cs : List (Call α)) : List α :=
  cs.flatMap fun
    | .read xs => xs
    | _ => []

/-- What has been written. -/
def writes (cs : List (Call α)) : List α :=
  cs.flatMap fun
    | .write xs => xs
    | _ => []

/-- What has been read and not written. -/
def pending (cs : List (Call α)) : List α :=
  (reads cs).drop (writes cs).length

/-- The end of the stream has been found. -/
def ended (cs : List (Call α)) : Bool :=
  cs.any fun
    | .readEof => true
    | _ => false

/-- What a call is on a path on which `buf` stands for what is pending. -/
def carry (src buf dst : Hop α) : Call α → Option (Hop α × Hop α × Hop α)
  | .read xs => (Hop.pass xs.length buf src).map fun p => (p.2, p.1, dst)
  | .write xs => (Hop.pass xs.length dst buf).map fun p => (src, p.2, p.1)
  | .readEof => (Hop.shut buf src).map fun p => (p.2, p.1, dst)
  | .shutdown => (Hop.shut dst buf).map fun p => (src, p.2, p.1)

/-- The buffer that a call fills. -/
def fills (buf dst : Hop α) : Call α → Hop α
  | .read _ | .readEof => buf
  | .write _ | .shutdown => dst

section Lists

variable {cs : List (Call α)} {c : Call α}

theorem along_snoc [DecidableEq δ] {d d' : δ} {cs : List (δ × Call α)} :
    along d (cs ++ [(d', c)]) = along d cs ++ if d' = d then [c] else [] := by
  rw [along, List.filterMap_append]
  by_cases hd : d' = d <;> simp [along, hd]

theorem reads_snoc : reads (cs ++ [c]) = reads cs ++ match c with | .read xs => xs | _ => [] := by
  rw [reads, List.flatMap_append, List.flatMap_singleton]
  rfl

theorem writes_snoc :
    writes (cs ++ [c]) = writes cs ++ match c with | .write xs => xs | _ => [] := by
  rw [writes, List.flatMap_append, List.flatMap_singleton]
  rfl

theorem pending_read {xs : List α} (h : writes cs <+: reads cs) :
    pending (cs ++ [.read xs]) = pending cs ++ xs := by
  rw [pending, reads_snoc, writes_snoc, List.append_nil]
  exact List.drop_append_of_le_length h.length_le

/-- A write takes the beginning of what is pending. -/
theorem pending_write {xs : List α} (h : writes (cs ++ [.write xs]) <+: reads (cs ++ [.write xs])) :
    pending cs = xs ++ pending (cs ++ [.write xs]) := by
  rw [writes_snoc, reads_snoc, List.append_nil] at h
  obtain ⟨rest, hrest⟩ := h
  rw [pending, pending, reads_snoc, writes_snoc, List.append_nil, ← hrest, List.drop_left,
    List.append_assoc, List.drop_left]

theorem pending_snoc (hread : ∀ xs, c ≠ .read xs) (hwrite : ∀ xs, c ≠ .write xs) :
    pending (cs ++ [c]) = pending cs := by
  rw [pending, pending, reads_snoc, writes_snoc]
  cases c with
  | read xs => exact absurd rfl (hread xs)
  | write xs => exact absurd rfl (hwrite xs)
  | readEof | shutdown => rw [List.append_nil, List.append_nil]

theorem ended_snoc :
    ended (cs ++ [c]) = (ended cs || match c with | .readEof => true | _ => false) := by
  rw [ended, List.any_append, List.any_cons, List.any_nil, Bool.or_false]
  rfl

theorem ended_iff : ended cs = true ↔ .readEof ∈ cs := by
  rw [ended, List.any_eq_true]
  constructor
  · rintro ⟨c, hc, he⟩
    cases c with
    | readEof => exact hc
    | read | write | shutdown => cases he
  · exact fun h => ⟨_, h, rfl⟩

end Lists

end Call

theorem take_pos_ne_nil {α : Type} {xs : List α} {k : Nat} (hk : 0 < k) (hne : xs ≠ []) :
    xs.take k ≠ [] := by
  rw [Ne, List.take_eq_nil_iff, not_or]
  exact ⟨Nat.ne_of_gt hk, hne⟩

/-- The first items of `b` to `a`. -/
theorem Hop.pass_append {α : Type} {a a' b : Hop α} {xs ys : List α} (hne : xs ≠ [])
    (hb : b.items = xs ++ ys) (hput : a.put xs = some a') :
    Hop.pass xs.length a b = some (a', { b with items := ys }) := by
  have hlen : 0 < xs.length ∧ xs.length ≤ b.items.length := by
    rw [hb, List.length_append]
    exact ⟨List.length_pos_iff.mpr hne, Nat.le_add_right _ _⟩
  rw [Hop.pass, if_pos hlen, hb, List.take_left, List.drop_left, hput]
  rfl

theorem Hop.put_isSome {α : Type} {a : Hop α} {xs : List α} : (a.put xs).isSome ↔
    a.fin = false ∧ ∀ m ∈ a.room, a.items.length + xs.length ≤ m := by
  rw [Hop.put, Option.isSome_ite]

theorem Hop.end_isSome {α : Type} {a : Hop α} : a.end.isSome ↔ a.fin = false := by
  rw [Hop.end, Option.isSome_ite]

theorem Hop.pass_isSome {α : Type} {a b : Hop α} {n : Nat} : (Hop.pass n a b).isSome ↔
    (0 < n ∧ n ≤ b.items.length) ∧ a.fin = false ∧
      ∀ m ∈ a.room, a.items.length + (b.items.take n).length ≤ m := by
  rw [Hop.pass]
  by_cases hn : 0 < n ∧ n ≤ b.items.length
  · rw [if_pos hn, Option.isSome_map, Hop.put_isSome]
    exact (and_iff_right hn).symm
  · rw [if_neg hn]
    exact iff_of_false Bool.false_ne_true fun h => hn h.1

theorem Hop.shut_isSome {α : Type} {a b : Hop α} : (Hop.shut a b).isSome ↔
    (b.fin = true ∧ b.items = []) ∧ a.fin = false := by
  rw [Hop.shut]
  by_cases hb : b.fin = true ∧ b.items = []
  · rw [if_pos hb, Option.isSome_map, Hop.end_isSome]
    exact (and_iff_right hb).symm
  · rw [if_neg hb]
    exact iff_of_false Bool.false_ne_true fun h => hb h.1

open Call

/-- What is documented of a copier, for each direction. -/
structure Copies {σ δ α : Type} [DecidableEq δ] (copier : Lts σ (δ × Call α)) : Prop where
  /-- What it writes is what it has read, in order. -/
  inOrder : ∀ cs q d, copier.Run cs q → writes (along d cs) <+: reads (along d cs)
  /-- At the end of the stream it stops reading from it. -/
  stops : ∀ cs q d c, copier.Run cs q → .readEof ∈ along d cs →
    (copier.step q (d, c)).isSome → (∃ xs, c = .write xs) ∨ c = .shutdown
  /-- It shuts down the other side only at the end of the stream, all of it written. -/
  halfCloses : ∀ cs q d, copier.Run cs q → (copier.step q (d, .shutdown)).isSome →
    .readEof ∈ along d cs ∧ pending (along d cs) = []
  /-- When nothing is pending it reads some of what there is. -/
  canRead : ∀ cs q d xs, copier.Run cs q → .readEof ∉ along d cs → pending (along d cs) = [] →
    xs ≠ [] → ∃ k, 0 < k ∧ (copier.step q (d, .read (xs.take k))).isSome
  /-- When nothing is pending and there is nothing more, it reads the end of the stream. -/
  canEnd : ∀ cs q d, copier.Run cs q → .readEof ∉ along d cs → pending (along d cs) = [] →
    (copier.step q (d, .readEof)).isSome
  /-- It writes some of what is pending, wherever there is room. -/
  canWrite : ∀ cs q d room, copier.Run cs q → pending (along d cs) ≠ [] → 0 < room →
    ∃ k, 0 < k ∧ k ≤ room ∧ (copier.step q (d, .write ((pending (along d cs)).take k))).isSome
  /-- It shuts down the other side at the end of the stream, all of it written. -/
  canShutdown : ∀ cs q d, copier.Run cs q → .readEof ∈ along d cs → pending (along d cs) = [] →
    .shutdown ∉ along d cs → (copier.step q (d, .shutdown)).isSome

/-- A copier at work. -/
structure Loop {σ δ α : Type} (copier : Lts σ (δ × Call α)) where
  state : σ
  /-- The calls that it has made. -/
  calls : List (δ × Call α)
  ran : copier.Run calls state
  /-- Its task has ended, and what was pending is lost. -/
  stopped : Bool

namespace Loop

section Calls

variable {σ δ α : Type} {copier : Lts σ (δ × Call α)}

/-- It has made no call. -/
def new : Loop copier where
  state := copier.init
  calls := []
  ran := rfl
  stopped := false

/-- It makes a call. -/
def call (l : Loop copier) (d : δ) (c : Call α) : Option (Loop copier) :=
  if l.stopped then none
  else match h : copier.step l.state (d, c) with
    | some q =>
        some ⟨q, l.calls ++ [(d, c)], Lts.run_snoc.mpr ⟨l.state, l.ran, h⟩, false⟩
    | none => none

/-- It ends early. -/
def stop (l : Loop copier) : Loop copier :=
  { l with stopped := true }

/-- What it holds of direction `d`. -/
def held [DecidableEq δ] (l : Loop copier) (d : δ) : Hop α where
  items := if l.stopped then [] else pending (along d l.calls)
  room := none
  fin := l.stopped || ended (along d l.calls)

variable {l l' : Loop copier} {d d' : δ} {c : Call α} {src src' dst dst' : Hop α}

theorem call_some (h : l.call d c = some l') :
    l.stopped = false ∧ (copier.step l.state (d, c)).isSome ∧
      l'.calls = l.calls ++ [(d, c)] ∧ l'.stopped = false := by
  obtain ⟨hs, h⟩ := Option.ite_none_left_eq_some.mp h
  split at h
  · rename_i q hq
    have hsome : (copier.step l.state (d, c)).isSome := by
      rw [hq]
      rfl
    rw [← Option.some.inj h]
    exact ⟨Bool.eq_false_iff.mpr hs, hsome, rfl, rfl⟩
  · cases h

theorem call_isSome (hs : l.stopped = false) (h : (copier.step l.state (d, c)).isSome) :
    (l.call d c).isSome := by
  rw [call, if_neg (by rw [hs]; nofun)]
  split
  · rfl
  · rename_i hnone
    rw [hnone] at h
    cases h

/-- What it holds of the other direction stays. -/
theorem call_other [DecidableEq δ] (h : l.call d c = some l') (hd : d ≠ d') :
    l'.held d' = l.held d' := by
  obtain ⟨hs, -, hcalls, hs'⟩ := call_some h
  rw [held, held, hcalls, hs, hs', along_snoc, if_neg hd, List.append_nil]

theorem held_running [DecidableEq δ] (hs : l.stopped = false) :
    l.held d = ⟨pending (along d l.calls), none, ended (along d l.calls)⟩ := by
  rw [held, hs]
  rfl

/-- What a call does to the streams and to what it holds is a step of the path. -/
theorem call_carry [DecidableEq δ] [DecidableEq α] (hc : Copies copier)
    (h : l.call d c = some l') (hexec : c.exec src dst = some (src', dst')) :
    c.carry src (l.held d) dst = some (src', l'.held d, dst') := by
  obtain ⟨hs, hstep, hcalls, hs'⟩ := call_some h
  have halong : along d l'.calls = along d l.calls ++ [c] := by
    rw [hcalls, along_snoc, if_pos rfl]
  have horder := hc.inOrder l.calls l.state d l.ran
  have horder' := hc.inOrder l'.calls l'.state d l'.ran
  rw [halong] at horder'
  -- nothing is read once the end has been found
  have hopen : (∀ xs, c ≠ .write xs) → c ≠ .shutdown → ended (along d l.calls) = false := by
    intro hwrite hshut
    refine Bool.eq_false_iff.mpr fun hend => ?_
    have hmem := ended_iff.mp hend
    rcases hc.stops l.calls l.state d c l.ran hmem hstep with ⟨xs, hxs⟩ | hc
    · exact hwrite xs hxs
    · exact hshut hc
  rw [held_running hs, held_running hs', halong, ended_snoc]
  cases c with
  | read xs =>
      obtain ⟨src', htake, hpair⟩ := Option.map_eq_some_iff.mp hexec
      cases hpair
      obtain ⟨⟨hne, ys, hys⟩, htake⟩ := Option.ite_none_right_eq_some.mp htake
      rw [← hys, List.drop_left] at htake
      have hput : (⟨pending (along d l.calls), none, ended (along d l.calls)⟩ : Hop α).put xs =
          some ⟨pending (along d l.calls) ++ xs, none, ended (along d l.calls)⟩ :=
        if_pos ⟨hopen (by simp) (by simp), by simp⟩
      rw [carry, Hop.pass_append hne hys.symm hput, pending_read horder, Bool.or_false,
        ← Option.some.inj htake]
      rfl
  | write xs =>
      obtain ⟨hne, hput⟩ := Option.ite_none_right_eq_some.mp hexec
      obtain ⟨dst', hput, hpair⟩ := Option.map_eq_some_iff.mp hput
      cases hpair
      rw [carry, Hop.pass_append hne (pending_write horder') hput, Bool.or_false]
      rfl
  | readEof =>
      obtain ⟨hsrc, hpair⟩ := Option.ite_none_right_eq_some.mp hexec
      cases hpair
      rw [carry, Hop.shut, if_pos hsrc, Hop.end, if_pos (hopen (by simp) (by simp)),
        pending_snoc (c := .readEof) (by simp) (by simp), Bool.or_true]
      rfl
  | shutdown =>
      obtain ⟨dst', hend, hpair⟩ := Option.map_eq_some_iff.mp hexec
      cases hpair
      obtain ⟨hmem, hnone⟩ := hc.halfCloses l.calls l.state d l.ran hstep
      rw [carry, Hop.shut, if_pos ⟨ended_iff.mpr hmem, hnone⟩, hend,
        pending_snoc (c := .shutdown) (by simp) (by simp), Bool.or_false]
      rfl

/-- Where the path goes on into an empty buffer, so does the copier. -/
theorem goes_on [DecidableEq δ] [DecidableEq α] (hc : Copies copier) (hs : l.stopped = false)
    (hshut : .shutdown ∈ along d l.calls → dst.fin = true)
    (h : (c.carry src (l.held d) dst).isSome) (hempty : (c.fills (l.held d) dst).items = []) :
    ∃ c' : Call α, (c'.exec src dst).isSome ∧ (l.call d c').isSome := by
  rw [held_running hs] at h hempty
  have hunread : ended (along d l.calls) = false → .readEof ∉ along d l.calls := by
    intro hopen hmem
    rw [ended_iff.mpr hmem] at hopen
    cases hopen
  cases c with
  | read xs =>
      obtain ⟨⟨hpos, hle⟩, hopen, -⟩ := Hop.pass_isSome.mp (by simpa [carry] using h)
      have hne : src.items ≠ [] := List.ne_nil_of_length_pos (by omega)
      obtain ⟨k, hk, hstep⟩ :=
          hc.canRead l.calls l.state d src.items l.ran (hunread hopen) hempty hne
      refine ⟨.read (src.items.take k), ?_, call_isSome hs hstep⟩
      rw [Call.exec, Hop.take, if_pos ⟨take_pos_ne_nil hk hne, List.take_prefix _ _⟩]
      rfl
  | write xs =>
      obtain ⟨⟨hpos, hle⟩, hopen, hroom⟩ := Hop.pass_isSome.mp (by simpa [carry] using h)
      have hdst : dst.items = [] := hempty
      have hlen : xs.length ≤ (pending (along d l.calls)).length := hle
      have hne : pending (along d l.calls) ≠ [] := List.ne_nil_of_length_pos (by omega)
      have hfits : 0 < dst.room.getD 1 := by
        cases hr : dst.room with
        | none => exact Nat.one_pos
        | some n =>
            have hn := hroom n hr
            rw [List.length_take_of_le hle] at hn
            show 0 < n
            omega
      obtain ⟨k, hk, hkle, hstep⟩ := hc.canWrite l.calls l.state d _ l.ran hne hfits
      refine ⟨.write ((pending (along d l.calls)).take k), ?_, call_isSome hs hstep⟩
      rw [Call.exec, if_pos (take_pos_ne_nil hk hne), Option.isSome_map, Hop.put_isSome]
      refine ⟨hopen, fun n hn => ?_⟩
      rw [hn] at hkle
      rw [hdst, List.length_nil, Nat.zero_add]
      exact (List.length_take_le _ _).trans hkle
  | readEof =>
      obtain ⟨hsrc, hopen⟩ := Hop.shut_isSome.mp (by simpa [carry] using h)
      refine ⟨.readEof, ?_, call_isSome hs ?_⟩
      · rw [Call.exec, if_pos hsrc]
        rfl
      · exact hc.canEnd l.calls l.state d l.ran (hunread hopen) hempty
  | shutdown =>
      obtain ⟨⟨hend, hnone⟩, hopen⟩ := Hop.shut_isSome.mp (by simpa [carry] using h)
      refine ⟨.shutdown, ?_, call_isSome hs ?_⟩
      · rw [Call.exec, Option.isSome_map]
        exact Hop.end_isSome.mpr hopen
      · refine hc.canShutdown l.calls l.state d l.ran (ended_iff.mp hend) hnone fun hmem => ?_
        rw [hshut hmem] at hopen
        cases hopen

end Calls

end Loop

/-! ## A copier that keeps what is pending -/

/-- A call, by its effect on what is kept of its direction. -/
def Hop.call {α : Type} [DecidableEq α] (a : Hop α) : Call α → Option (Hop α)
  | .read xs => a.put xs
  | .readEof => a.end
  | .write xs => a.take xs
  | .shutdown => if a.fin = true ∧ a.items = [] then some a else none

section Buffered

variable {δ α : Type} {room : Nat} {c : Call α} {a a' : Hop α}

/-- What is kept is what is pending. -/
structure Kept (room : Nat) (cs : List (Call α)) (a : Hop α) : Prop where
  items : a.items = pending cs
  fin : a.fin = ended cs
  room : a.room = some room
  order : writes cs <+: reads cs

theorem Kept.open {cs : List (Call α)} (hk : Kept room cs a) (h : .readEof ∉ cs) :
    a.fin = false := by
  rw [hk.fin]
  exact Bool.eq_false_iff.mpr fun hend => h (ended_iff.mp hend)

variable [DecidableEq δ] [DecidableEq α] {cs : List (δ × Call α)} {q q' : δ → Hop α} {d d' : δ}

theorem Kept.call {cs : List (Call α)} (hk : Kept room cs a) (h : a.call c = some a') :
    Kept room (cs ++ [c]) a' := by
  cases c with
  | read xs =>
      obtain ⟨hopen, rfl⟩ := Transit.put_some h
      refine ⟨?_, ?_, hk.room, ?_⟩
      · rw [pending_read hk.order, hk.items]
      · rw [ended_snoc, Bool.or_false]
        exact hk.fin
      · rw [writes_snoc, reads_snoc, List.append_nil]
        exact hk.order.trans (List.prefix_append _ _)
  | readEof =>
      obtain ⟨hopen, rfl⟩ := Transit.end_some h
      refine ⟨?_, ?_, hk.room, ?_⟩
      · rw [pending_snoc (c := .readEof) nofun nofun]
        exact hk.items
      · rw [ended_snoc, Bool.or_true]
      · rw [writes_snoc, reads_snoc, List.append_nil, List.append_nil]
        exact hk.order
  | write xs =>
      obtain ⟨⟨_, ys, hys⟩, h⟩ := Option.ite_none_right_eq_some.mp h
      rw [← Option.some.inj h]
      have horder : writes (cs ++ [.write xs]) <+: reads (cs ++ [.write xs]) := by
        obtain ⟨rest, hrest⟩ := hk.order
        rw [hk.items, pending, ← hrest, List.drop_left] at hys
        rw [writes_snoc, reads_snoc, List.append_nil, ← hrest, ← hys]
        exact (List.prefix_append_right_inj _).mpr (List.prefix_append _ _)
      refine ⟨?_, ?_, hk.room, horder⟩
      · show a.items.drop xs.length = _
        rw [hk.items, pending_write horder, List.drop_left]
      · rw [ended_snoc, Bool.or_false]
        exact hk.fin
  | shutdown =>
      obtain ⟨_, h⟩ := Option.ite_none_right_eq_some.mp h
      rw [← Option.some.inj h]
      refine ⟨?_, ?_, hk.room, ?_⟩
      · rw [pending_snoc (c := .shutdown) nofun nofun]
        exact hk.items
      · rw [ended_snoc, Bool.or_false]
        exact hk.fin
      · rw [writes_snoc, reads_snoc, List.append_nil, List.append_nil]
        exact hk.order

end Buffered

end Borehole.Conc
