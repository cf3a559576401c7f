/-
  Borehole.Conc.Broadcast

  Bounded broadcast channels: every receiver sees the values sent since it
  subscribed, in order, as long as it keeps up.

  A channel is any system of sends, receives and receivers that come and go
  which does what is documented of one of capacity `cap`: sending never waits, a
  receiver gets the value that is next for it, and it may miss values only when
  more than `cap` of them are waiting for it, in which case it is told how many
  and goes on with the oldest one that is left.

  From what single receives do it follows, for whole runs, that a value is
  received, once it has been passed, exactly if the receiver was never more than
  `cap` values behind it.

  At the end stands one such channel, which keeps the last `cap` values and
  numbers all of them in the order they were sent.
-/

import Borehole.Conc.Lts
import Mathlib.Data.Finmap
import Mathlib.Data.List.DropRight

namespace Borehole.Conc

/-- What a receiver gets. -/
inductive Recv (α : Type) where
  | value (v : α)
  | lagged (missed : Nat)
  deriving DecidableEq, Repr

namespace Recv

variable {α : Type}

/-- How many values a receiver has passed when it has got this. -/
def advance : Recv α → Nat
  | .value _ => 1
  | .lagged missed => missed

/-- The value, if it is one. -/
def value? : Recv α → Option α
  | .value v => some v
  | .lagged _ => none

end Recv

namespace Broadcast

variable {Rid α : Type}

/-- What is done with a channel.  Receiver `r` is named by whoever subscribes it.
    A receive is the moment at which something is got: waiting is no operation. -/
inductive Op (Rid α : Type) where
  | send (v : α)
  | subscribe (r : Rid)
  | recv (r : Rid) (got : Recv α)
  | unsubscribe (r : Rid)
  deriving DecidableEq

/-! ## What is sent, received and passed -/

/-- The values sent in a run. -/
def sent (ops : List (Op Rid α)) : List α :=
  ops.filterMap fun
    | .send v => some v
    | _ => none

/-- What receiver `r` gets by an operation. -/
def Op.got? [DecidableEq Rid] (r : Rid) : Op Rid α → Option (Recv α)
  | .recv r' got => if r' = r then some got else none
  | _ => none

/-- What receiver `r` has got, in order. -/
def gotten [DecidableEq Rid] (r : Rid) (ops : List (Op Rid α)) : List (Recv α) :=
  ops.filterMap (Op.got? r)

/-- The values among what a receiver has got. -/
def values (gots : List (Recv α)) : List α :=
  gots.filterMap Recv.value?

/-- How many values a receiver has passed. -/
def passed : List (Recv α) → Nat
  | [] => 0
  | got :: gots => got.advance + passed gots

/-- The numbers of the values that a receiver has got, counted from `n`. -/
def takenFrom (n : Nat) : List (Recv α) → List Nat
  | [] => []
  | .value _ :: gots => n :: takenFrom (n + 1) gots
  | got :: gots => takenFrom (n + got.advance) gots

/-- The values, counted from its subscription, that a receiver has got. -/
abbrev taken (gots : List (Recv α)) : List Nat :=
  takenFrom 0 gots

section Lists

variable {gots : List (Recv α)} {got : Recv α} {v : α} {n i : Nat} {r : Rid}
  {ops : List (Op Rid α)} {op : Op Rid α}

theorem sent_snoc : sent (ops ++ [op]) =
    sent ops ++ match op with | .send v => [v] | _ => [] := by
  rw [sent, List.filterMap_append]
  cases op <;> rfl

theorem sent_recv {got : Recv α} : sent (ops ++ [.recv r got]) = sent ops := by
  rw [sent_snoc]
  exact List.append_nil _

theorem gotten_snoc [DecidableEq Rid] :
    gotten r (ops ++ [op]) = gotten r ops ++ (op.got? r).toList := by
  rw [gotten, List.filterMap_append]
  cases h : op.got? r <;> simp [gotten, h]

theorem gotten_recv [DecidableEq Rid] {got : Recv α} :
    gotten r (ops ++ [.recv r got]) = gotten r ops ++ [got] := by
  rw [gotten_snoc, Op.got?, if_pos rfl]
  rfl

theorem gotten_other [DecidableEq Rid] (h : op.got? r = none) :
    gotten r (ops ++ [op]) = gotten r ops := by
  rw [gotten_snoc, h]
  exact List.append_nil _

theorem passed_append {gots' : List (Recv α)} :
    passed (gots ++ gots') = passed gots + passed gots' := by
  induction gots with
  | nil => rw [List.nil_append, passed, Nat.zero_add]
  | cons got gots ih => rw [List.cons_append, passed, passed, ih, Nat.add_assoc]

theorem passed_snoc : passed (gots ++ [got]) = passed gots + got.advance :=
  passed_append

theorem passed_recv [DecidableEq Rid] {got : Recv α} :
    passed (gotten r (ops ++ [.recv r got])) = passed (gotten r ops) + got.advance := by
  rw [gotten_recv, passed_snoc]

theorem values_snoc : values (gots ++ [got]) = values gots ++ got.value?.toList := by
  rw [values, List.filterMap_append]
  cases h : got.value? <;> simp [values, h]

theorem takenFrom_snoc : takenFrom n (gots ++ [got]) = takenFrom n gots ++
    match got with | .value _ => [n + passed gots] | _ => [] := by
  induction gots generalizing n with
  | nil => cases got <;> rfl
  | cons g gots ih =>
      have hsum : n + g.advance + passed gots = n + passed (g :: gots) :=
        Nat.add_assoc _ _ _
      cases g with
      | value v =>
          show n :: takenFrom (n + 1) (gots ++ [got]) = _
          rw [ih, show n + 1 + passed gots = n + passed (.value v :: gots) from hsum]
          rfl
      | lagged missed =>
          show takenFrom (n + missed) (gots ++ [got]) = _
          rw [ih, show n + missed + passed gots = n + passed (.lagged missed :: gots) from hsum]
          rfl

/-- What a receiver has got it has passed. -/
theorem taken_lt (h : i ∈ taken gots) : i < passed gots := by
  induction gots using List.reverseRecOn with
  | nil => cases h
  | append_singleton gots got ih =>
      rw [taken, takenFrom_snoc, List.mem_append, Nat.zero_add] at h
      rw [passed_snoc]
      rcases h with h | h
      · have hlt := ih h
        omega
      · cases got with
        | value v =>
            rw [List.mem_singleton.mp h]
            exact Nat.lt_succ_self _
        | lagged => cases h

/-- It gets values in the order they were sent, each at most once. -/
theorem taken_pairwise (gots : List (Recv α)) : (taken gots).Pairwise (· < ·) := by
  induction gots using List.reverseRecOn with
  | nil => exact List.Pairwise.nil
  | append_singleton gots got ih =>
      rw [taken, takenFrom_snoc, Nat.zero_add]
      refine List.pairwise_append.mpr ⟨ih, ?_, fun i hi j hj => ?_⟩
      · cases got <;> simp
      · cases got with
        | value v =>
            rw [List.mem_singleton.mp hj]
            exact taken_lt hi
        | lagged => cases hj

/-- Values that are sent later do not change those that have been got. -/
theorem filterMap_sent {is : List Nat} {vs : List α} (h : ∀ i ∈ is, i < (sent ops).length) :
    (is.filterMap fun i => (sent ops ++ vs)[i]?) = is.filterMap fun i => (sent ops)[i]? := by
  refine List.filterMap_congr fun i hi => ?_
  rw [List.getElem?_append_left (h i hi)]

end Lists

/-! ## Channels -/

section Channels

variable {σ : Type}

/-- The channel has done `ops` since receiver `r` was subscribed, and `r` has not
    been dropped. -/
structure Listening (chan : Lts σ (Op Rid α)) (r : Rid) (ops : List (Op Rid α)) (b : σ) :
    Prop where
  run : ∃ pre, chan.Run (pre ++ .subscribe r :: ops) b
  stays : .unsubscribe r ∉ ops

theorem Listening.of_snoc {chan : Lts σ (Op Rid α)} {r : Rid} {ops : List (Op Rid α)}
    {op : Op Rid α} {b' : σ} (h : Listening chan r (ops ++ [op]) b') :
    ∃ b, Listening chan r ops b ∧ chan.step b op = some b' := by
  obtain ⟨pre, hrun⟩ := h.run
  rw [← List.cons_append, ← List.append_assoc] at hrun
  obtain ⟨b, hrun, hs⟩ := Lts.run_snoc.mp hrun
  exact ⟨b, ⟨⟨pre, hrun⟩, fun hm => h.stays (List.mem_append_left _ hm)⟩, hs⟩

variable [DecidableEq Rid]

/-- What is documented of a broadcast channel that keeps `cap` values. -/
structure Documented (cap : Nat) (chan : Lts σ (Op Rid α)) : Prop where
  /-- Sending never waits, whatever the receivers do. -/
  sends : ∀ ops b v, chan.Run ops b → (chan.step b (.send v)).isSome
  /-- There is something to get for a receiver that has not passed every value. -/
  ready : ∀ r ops b, Listening chan r ops b → passed (gotten r ops) < (sent ops).length →
    ∃ got, (chan.step b (.recv r got)).isSome
  /-- A value that is got is the next one, and has not been pushed out. -/
  value : ∀ r ops b v, Listening chan r ops b → (chan.step b (.recv r (.value v))).isSome →
    (sent ops)[passed (gotten r ops)]? = some v ∧
      (sent ops).length ≤ passed (gotten r ops) + cap
  /-- The values that are skipped are those that have been pushed out. -/
  lagged : ∀ r ops b n, Listening chan r ops b → (chan.step b (.recv r (.lagged n))).isSome →
    passed (gotten r ops) + n + cap = (sent ops).length

/-- The receiver comes no more than `cap` values behind value `i` before it passes
    it. -/
def InTime (cap : Nat) (r : Rid) (ops : List (Op Rid α)) (i : Nat) : Prop :=
  ∀ pre post, ops = pre ++ post → passed (gotten r pre) ≤ i → (sent pre).length ≤ i + cap

/-- What a receiver has got by the operations `ops` since its subscription. -/
structure Received (cap : Nat) (r : Rid) (ops : List (Op Rid α)) : Prop where
  reached : passed (gotten r ops) ≤ (sent ops).length
  received : values (gotten r ops) = (taken (gotten r ops)).filterMap fun i => (sent ops)[i]?
  inTime : ∀ i < passed (gotten r ops), i ∈ taken (gotten r ops) ↔ InTime cap r ops i

variable {cap i n : Nat} {ops : List (Op Rid α)} {op : Op Rid α} {r : Rid} {v : α}
  {chan : Lts σ (Op Rid α)} {b : σ}

theorem InTime.snoc (hi : i < passed (gotten r (ops ++ [op]))) :
    InTime cap r (ops ++ [op]) i ↔ InTime cap r ops i := by
  constructor
  · rintro h pre post rfl hle
    exact h pre (post ++ [op]) (List.append_assoc ..) hle
  · intro h pre post he hle
    rcases List.eq_nil_or_concat post with rfl | ⟨post, op', rfl⟩
    -- By the end of the run the value has been passed.
    · rw [List.append_nil] at he
      rw [he] at hi
      omega
    · rw [List.concat_eq_append, ← List.append_assoc] at he
      have hpre := List.append_inj_left' he rfl
      exact h pre post hpre hle

theorem Received.nil : Received cap r ([] : List (Op Rid α)) where
  reached := Nat.le_refl 0
  received := rfl
  inTime := fun i hi => absurd hi (Nat.not_lt_zero i)

/-- A receiver gets what has been sent. -/
theorem Received.taken_sent (hi : Received cap r ops) :
    ∀ i ∈ taken (gotten r ops), i < (sent ops).length :=
  fun _ h => Nat.lt_of_lt_of_le (taken_lt h) hi.reached

/-- An operation by which the receiver gets nothing. -/
theorem Received.other (hi : Received cap r ops) (hgot : op.got? r = none) :
    Received cap r (ops ++ [op]) := by
  have hgotten : gotten r (ops ++ [op]) = gotten r ops := gotten_other hgot
  refine ⟨?_, ?_, ?_⟩
  · rw [hgotten, sent_snoc, List.length_append]
    exact Nat.le_add_right_of_le hi.reached
  · rw [hgotten, sent_snoc, filterMap_sent hi.taken_sent]
    exact hi.received
  · intro i h
    rw [InTime.snoc h]
    rw [hgotten] at h ⊢
    exact hi.inTime i h

/-- What it has passed before stays received or lost. -/
theorem Received.kept {got : Recv α} (hi : Received cap r ops)
    (h : i < passed (gotten r ops)) :
    i ∈ taken (gotten r ops) ↔ InTime cap r (ops ++ [.recv r got]) i := by
  have hlt : i < passed (gotten r (ops ++ [.recv r got])) := by
    rw [passed_recv]
    exact Nat.lt_add_right _ h
  rw [InTime.snoc hlt]
  exact hi.inTime i h

/-- It gets the next value, which was still there, so it was never too far behind it. -/
theorem Received.value (hi : Received cap r ops) (hv : (sent ops)[passed (gotten r ops)]? = some v)
    (hnear : (sent ops).length ≤ passed (gotten r ops) + cap) :
    Received cap r (ops ++ [.recv r (.value v)]) := by
  have hlt : passed (gotten r ops) < (sent ops).length := (List.getElem?_eq_some_iff.mp hv).1
  have hpassed : passed (gotten r (ops ++ [.recv r (.value v)])) = passed (gotten r ops) + 1 :=
    passed_recv
  have htaken : taken (gotten r (ops ++ [.recv r (.value v)])) =
      taken (gotten r ops) ++ [passed (gotten r ops)] := by
    rw [gotten_recv, taken, takenFrom_snoc, Nat.zero_add]
  refine ⟨?_, ?_, ?_⟩
  · rw [hpassed, sent_recv]
    exact hlt
  · rw [htaken, gotten_recv, values_snoc, sent_recv, List.filterMap_append, hi.received]
    simp [Recv.value?, hv]
  · intro i h
    rw [hpassed] at h
    rw [htaken, List.mem_append, List.mem_singleton]
    rcases Nat.lt_succ_iff_lt_or_eq.mp h with hold | rfl
    · rw [← hi.kept hold]
      simp [Nat.ne_of_lt hold]
    · refine iff_of_true (Or.inr rfl) ?_
      rw [InTime.snoc (by rw [hpassed]; exact h)]
      rintro pre post rfl _
      have hle : (sent pre).length ≤ (sent (pre ++ post)).length := by
        rw [sent, sent, List.filterMap_append, List.length_append]
        exact Nat.le_add_right _ _
      omega

/-- It has fallen behind: what it skips is lost. -/
theorem Received.lagged (hi : Received cap r ops)
    (hn : passed (gotten r ops) + n + cap = (sent ops).length) :
    Received cap r (ops ++ [.recv r (.lagged n)]) := by
  have hpassed : passed (gotten r (ops ++ [.recv r (.lagged n)])) = passed (gotten r ops) + n :=
    passed_recv
  have htaken : taken (gotten r (ops ++ [.recv r (.lagged n)])) = taken (gotten r ops) := by
    rw [gotten_recv, taken, takenFrom_snoc, List.append_nil]
  refine ⟨?_, ?_, ?_⟩
  · rw [hpassed, sent_recv]
    omega
  · rw [htaken, gotten_recv, values_snoc, sent_recv, hi.received]
    exact List.append_nil _
  · intro i h
    rw [hpassed] at h
    rw [htaken]
    by_cases hold : i < passed (gotten r ops)
    · exact hi.kept hold
    · refine iff_of_false (fun hmem => hold (taken_lt hmem)) fun htime => ?_
      have hle := htime ops [_] rfl (Nat.le_of_not_lt hold)
      omega

/-- A receiver that has not been dropped, in any run of the channel. -/
theorem received (hdoc : Documented cap chan) (h : Listening chan r ops b) :
    Received cap r ops := by
  induction ops using List.reverseRecOn generalizing b with
  | nil => exact Received.nil
  | append_singleton ops op ih =>
      obtain ⟨b₀, h₀, hs⟩ := h.of_snoc
      have hi := ih h₀
      have hcan : (chan.step b₀ op).isSome := by
        rw [hs]
        rfl
      cases op with
      | send | subscribe | unsubscribe => exact hi.other rfl
      | recv r' got =>
          by_cases hr : r' = r
          · subst hr
            cases got with
            | value v =>
                obtain ⟨hv, hnear⟩ := hdoc.value r' ops b₀ v h₀ hcan
                exact hi.value hv hnear
            | lagged n => exact hi.lagged (hdoc.lagged r' ops b₀ n h₀ hcan)
          · exact hi.other (if_neg hr)

end Channels

end Broadcast

/-! ## A channel that keeps the last values -/

/-- A broadcast channel and where its receivers are. -/
structure Broadcast (Rid α : Type) where
  /-- The values that are kept, oldest first. -/
  buffer : List α
  /-- The number of the next value. -/
  tail : Nat
  receivers : Finmap (fun _ : Rid => Nat)

namespace Broadcast

variable {Rid α : Type}

/-- Nothing sent and no receivers. -/
def new : Broadcast Rid α where
  buffer := []
  tail := 0
  receivers := ∅

/-- The number of the oldest value that is kept. -/
def oldest (b : Broadcast Rid α) : Nat :=
  b.tail - b.buffer.length

/-- Without receivers a value is dropped; otherwise it takes the place of the
    oldest one once `cap` values are kept. -/
def send [DecidableEq Rid] (cap : Nat) (v : α) (b : Broadcast Rid α) : Broadcast Rid α :=
  if b.receivers = ∅ then b
  else { b with buffer := (b.buffer ++ [v]).rtake cap, tail := b.tail + 1 }

/-- What a receiver gets whose next value is number `next`, if there is anything. -/
def recv (b : Broadcast Rid α) (next : Nat) : Option (Recv α) :=
  if next < b.oldest then some (.lagged (b.oldest - next))
  else (b.buffer[next - b.oldest]?).map .value

/-- An empty channel is waited on: receiving from it is no step. -/
def exec [DecidableEq Rid] [DecidableEq α] (cap : Nat) (b : Broadcast Rid α) :
    Op Rid α → Option (Broadcast Rid α)
  | .send v => some (b.send cap v)
  | .subscribe r =>
      if r ∈ b.receivers then none else some { b with receivers := b.receivers.insert r b.tail }
  | .recv r got =>
      (b.receivers.lookup r).bind fun next =>
        if b.recv next = some got then
          some { b with receivers := b.receivers.insert r (next + got.advance) }
        else none
  | .unsubscribe r => some { b with receivers := b.receivers.erase r }

/-- Every order of sending, receiving and coming and going. -/
def lts [DecidableEq Rid] [DecidableEq α] (cap : Nat) :
    Lts (Broadcast Rid α) (Op Rid α) where
  init := new
  step := exec cap

/-- The channel keeps the newest values of a log. -/
structure Keeps (cap : Nat) (b : Broadcast Rid α) (log : List α) : Prop where
  tail : b.tail = log.length
  buffer : b.buffer = log.rtake cap

section Kept

variable {cap next : Nat} {b : Broadcast Rid α} {log : List α} {v : α}

theorem Keeps.new : Keeps cap (new : Broadcast Rid α) [] where
  tail := rfl
  buffer := (List.rtake_nil _).symm

theorem Keeps.oldest (h : Keeps cap b log) : b.oldest = log.length - cap := by
  rw [Broadcast.oldest, h.tail, h.buffer, List.rtake, List.length_drop]
  omega

theorem rtake_rtake_snoc : (log.rtake cap ++ [v]).rtake cap = (log ++ [v]).rtake cap := by
  cases cap with
  | zero => rw [List.rtake_zero, List.rtake_zero]
  | succ n =>
      have hdrop : (log.rtake (n + 1)).rtake n = log.rtake n := by
        rw [List.rtake, List.rtake, List.rtake, List.drop_drop, List.length_drop]
        congr 1
        omega
      rw [List.rtake_concat_succ, List.rtake_concat_succ, hdrop]

theorem Keeps.send [DecidableEq Rid] (h : Keeps cap b log) (hr : b.receivers ≠ ∅) :
    Keeps cap (b.send cap v) (log ++ [v]) := by
  rw [Broadcast.send, if_neg hr]
  refine ⟨?_, ?_⟩
  · show b.tail + 1 = _
    rw [h.tail, List.length_append, List.length_singleton]
  · show (b.buffer ++ [v]).rtake cap = _
    rw [h.buffer, rtake_rtake_snoc]

/-- A receiver that is not too far behind gets the next value of the log. -/
theorem Keeps.recv (h : Keeps cap b log) : b.recv next =
    if next + cap < log.length then some (.lagged (log.length - cap - next))
    else (log[next]?).map .value := by
  rw [Broadcast.recv, h.oldest]
  by_cases hlag : next + cap < log.length
  · rw [if_pos (by omega), if_pos hlag]
  · have hget : b.buffer[next - (log.length - cap)]? = log[next]? := by
      rw [h.buffer, List.rtake, List.getElem?_drop]
      congr 1
      omega
    rw [if_neg (by omega), if_neg hlag, hget]

end Kept

section Receivers

variable [DecidableEq Rid] [DecidableEq α] {cap : Nat} {b b' : Broadcast Rid α}
  {ops : List (Op Rid α)} {op : Op Rid α} {r : Rid} {got : Recv α}

theorem exec_recv (h : b.exec cap (.recv r got) = some b') :
    ∃ next, b.receivers.lookup r = some next ∧ b.recv next = some got ∧
      b' = { b with receivers := b.receivers.insert r (next + got.advance) } := by
  obtain ⟨next, hnext, h⟩ := Option.bind_eq_some_iff.mp h
  obtain ⟨hgot, hb⟩ := Option.ite_none_right_eq_some.mp h
  exact ⟨next, hnext, hgot, (Option.some.inj hb).symm⟩

/-- The channel always keeps the newest values of some log. -/
theorem keeps (h : (lts cap).Run ops b) : ∃ log, Keeps cap b log := by
  refine Lts.Run.induct (P := fun _ b => ∃ log, Keeps cap b log) ⟨[], Keeps.new⟩ ?_ h
  rintro _ b op b' _ ⟨log, hk⟩ hs
  cases op with
  | send v =>
      cases hs
      by_cases hr : b.receivers = ∅
      · rw [send, if_pos hr]
        exact ⟨log, hk⟩
      · exact ⟨log ++ [v], hk.send hr⟩
  | subscribe r =>
      obtain ⟨_, hb⟩ := Option.ite_none_left_eq_some.mp hs
      cases hb
      exact ⟨log, hk.tail, hk.buffer⟩
  | recv r got =>
      obtain ⟨_, _, _, rfl⟩ := exec_recv (show b.exec cap (.recv r got) = some b' from hs)
      exact ⟨log, hk.tail, hk.buffer⟩
  | unsubscribe r =>
      cases hs
      exact ⟨log, hk.tail, hk.buffer⟩

/-- The receiver's number is that of the value it reads next. -/
def Placed (cap : Nat) (r : Rid) (ops : List (Op Rid α)) (b : Broadcast Rid α) : Prop :=
  ∃ old, Keeps cap b (old ++ sent ops) ∧
    b.receivers.lookup r = some (old.length + passed (gotten r ops))

theorem Placed.step (hi : Placed cap r ops b) (hop : op ≠ .unsubscribe r)
    (h : b.exec cap op = some b') : Placed cap r (ops ++ [op]) b' := by
  obtain ⟨old, hk, hplace⟩ := hi
  have hmem : r ∈ b.receivers := Finmap.mem_of_lookup_eq_some hplace
  refine ⟨old, ?_⟩
  cases op with
  | send v =>
      cases h
      have hne : b.receivers ≠ ∅ := fun he => Finmap.notMem_empty (he ▸ hmem)
      rw [sent_snoc, gotten_other rfl, ← List.append_assoc]
      refine ⟨hk.send hne, ?_⟩
      rw [send, if_neg hne]
      exact hplace
  | subscribe r' =>
      obtain ⟨hnew, hb⟩ := Option.ite_none_left_eq_some.mp h
      cases hb
      have hne : r ≠ r' := fun he => hnew (he ▸ hmem)
      rw [sent_snoc, List.append_nil, gotten_other rfl, Finmap.lookup_insert_of_ne _ hne]
      exact ⟨⟨hk.tail, hk.buffer⟩, hplace⟩
  | recv r' got =>
      obtain ⟨next, hnext, _, rfl⟩ := exec_recv h
      rw [sent_recv]
      refine ⟨⟨hk.tail, hk.buffer⟩, ?_⟩
      by_cases hr : r' = r
      · subst hr
        rw [hplace] at hnext
        cases hnext
        rw [Finmap.lookup_insert, passed_recv, Nat.add_assoc]
      · have hgot : (Op.recv r' got : Op Rid α).got? r = none := if_neg hr
        rw [Finmap.lookup_insert_of_ne _ (Ne.symm hr), gotten_other hgot]
        exact hplace
  | unsubscribe r' =>
      cases h
      have hne : r ≠ r' := fun he => hop (he ▸ rfl)
      rw [sent_snoc, List.append_nil, gotten_other rfl, Finmap.lookup_erase_ne hne]
      exact ⟨⟨hk.tail, hk.buffer⟩, hplace⟩

theorem placed (h : Listening (lts cap) r ops b) : Placed cap r ops b := by
  induction ops using List.reverseRecOn generalizing b with
  | nil =>
      obtain ⟨pre, hrun⟩ := h.run
      obtain ⟨b₀, h₀, hs⟩ := Lts.run_snoc.mp hrun
      obtain ⟨log, hk⟩ := keeps h₀
      obtain ⟨_, hb⟩ := Option.ite_none_left_eq_some.mp
        (show b₀.exec cap (.subscribe r) = some b from hs)
      cases hb
      refine ⟨log, ?_, ?_⟩
      · rw [sent, List.filterMap_nil, List.append_nil]
        exact ⟨hk.tail, hk.buffer⟩
      · rw [Finmap.lookup_insert, hk.tail]
        rfl
  | append_singleton ops op ih =>
      obtain ⟨b₀, h₀, hs⟩ := h.of_snoc
      refine (ih h₀).step ?_ hs
      rintro rfl
      exact h.stays (List.mem_append_right _ (List.mem_singleton_self _))

/-- What a receiver can get. -/
theorem Placed.recv (hi : Placed cap r ops b) : (b.exec cap (.recv r got)).isSome ↔
    if passed (gotten r ops) + cap < (sent ops).length then
      got = .lagged ((sent ops).length - cap - passed (gotten r ops))
    else ∃ v, (sent ops)[passed (gotten r ops)]? = some v ∧ got = .value v := by
  obtain ⟨old, hk, hplace⟩ := hi
  have hget : (old ++ sent ops)[old.length + passed (gotten r ops)]? =
      (sent ops)[passed (gotten r ops)]? := by
    rw [List.getElem?_append_right (Nat.le_add_right _ _), Nat.add_sub_cancel_left]
  rw [exec, hplace, Option.bind_some, hk.recv, hget, List.length_append]
  by_cases hlag : passed (gotten r ops) + cap < (sent ops).length
  · have hmissed : old.length + (sent ops).length - cap - (old.length + passed (gotten r ops)) =
        (sent ops).length - cap - passed (gotten r ops) := by omega
    rw [if_pos (show old.length + passed (gotten r ops) + cap < _ by omega), if_pos hlag, hmissed]
    by_cases hgot : got = .lagged ((sent ops).length - cap - passed (gotten r ops)) <;>
      simp [hgot, eq_comm]
  · rw [if_neg (show ¬ old.length + passed (gotten r ops) + cap < _ by omega), if_neg hlag]
    cases hv : (sent ops)[passed (gotten r ops)]? with
    | none => simp
    | some v => by_cases hgot : got = .value v <;> simp [hgot, eq_comm]

end Receivers

/-- It does what is documented of a channel. -/
theorem lts_documented [DecidableEq Rid] [DecidableEq α] (cap : Nat) :
    Documented cap (lts cap : Lts (Broadcast Rid α) (Op Rid α)) where
  sends := fun _ _ _ _ => rfl
  ready := by
    intro r ops b h hlt
    by_cases hlag : passed (gotten r ops) + cap < (sent ops).length
    · refine ⟨.lagged ((sent ops).length - cap - passed (gotten r ops)), ?_⟩
      refine (placed h).recv.mpr ?_
      rw [if_pos hlag]
    · refine ⟨.value (sent ops)[passed (gotten r ops)], ?_⟩
      refine (placed h).recv.mpr ?_
      rw [if_neg hlag]
      exact ⟨_, List.getElem?_eq_getElem hlt, rfl⟩
  value := by
    intro r ops b v h hs
    have hgot := (placed h).recv.mp hs
    by_cases hlag : passed (gotten r ops) + cap < (sent ops).length
    · rw [if_pos hlag] at hgot
      cases hgot
    · rw [if_neg hlag] at hgot
      obtain ⟨_, hv, hsame⟩ := hgot
      cases hsame
      exact ⟨hv, Nat.le_of_not_lt hlag⟩
  lagged := by
    intro r ops b n h hs
    have hgot := (placed h).recv.mp hs
    by_cases hlag : passed (gotten r ops) + cap < (sent ops).length
    · rw [if_pos hlag] at hgot
      cases hgot
      omega
    · rw [if_neg hlag] at hgot
      obtain ⟨_, _, hv⟩ := hgot
      cases hv

end Broadcast
end Borehole.Conc
