/-
  Borehole.Server.Events

  The event bus (crates/server/src/events.rs) and the streams of
  `GET /api/events` (`stream_events` in crates/server/src/api/tunnels.rs) beside
  the server's tasks.

  The bus is any broadcast channel that does what is documented of one of
  `CHANNEL_CAPACITY` events, and each stream subscribes a receiver of its own.  A
  publishing task never waits for a stream: one that falls more than
  `CHANNEL_CAPACITY` events behind loses the oldest ones, is signalled the lag, and
  discards the signal, so that its client is not told.
-/

import Borehole.Conc.Broadcast
import Borehole.Conc.Network
import Borehole.Server.Pairing
import Borehole.Server.Table

namespace Borehole

open Conc Broadcast

/-- `CHANNEL_CAPACITY`: how many events the bus keeps. -/
def channelCapacity : Nat := 256

/-- The server and its event bus, to which the streams are subscribed. -/
structure EventStreams (σ : Type) where
  server : Server
  /-- The state of the channel. -/
  bus : σ

/-- A step of one of the server's tasks, or of a stream. -/
inductive EventStreams.Label where
  | server (t : Tid) (op : Op)
  /-- `GET /api/events` opens stream `r`. -/
  | subscribe (r : Nat)
  /-- The next item of the `BroadcastStream`, where there is one. -/
  | poll (r : Nat) (got : Recv BhEvent)
  /-- The client goes away. -/
  | hangUp (r : Nat)

namespace EventStreams

variable {σ : Type}

/-- What a step does on the bus. -/
def Label.busOp? : Label → Option (Broadcast.Op Nat BhEvent)
  | .server _ op => op.event?.map .send
  | .subscribe r => some (.subscribe r)
  | .poll r got => some (.recv r got)
  | .hangUp r => some (.unsubscribe r)

/-- A step of the server. -/
def Label.server? : Label → Option (Tid × Borehole.Op)
  | .server t op => some (t, op)
  | _ => none

/-- A task of the server does its operation, on the bus too if it publishes an event;
    a stream uses the bus only. -/
def step (cfg : ServerConfig) (chan : Lts σ (Broadcast.Op Nat BhEvent)) (s : EventStreams σ)
    (a : Label) : Option (EventStreams σ) :=
  (match a with
    | .server t op => (Borehole.server cfg).step s.server (t, op)
    | _ => some s.server).bind fun server =>
  (match a.busOp? with
    | some op => chan.step s.bus op
    | none => some s.bus).map fun bus => ⟨server, bus⟩

/-- What the polls of stream `r` got. -/
def polls (r : Nat) (ls : List Label) : List (Recv BhEvent) :=
  ls.filterMap fun
    | .poll r' got => if r' = r then some got else none
    | _ => none

/-- The events that the client of stream `r` is sent as `data:` lines.
    `result.ok()` discards the rest. -/
def streamed (r : Nat) (ls : List Label) : List BhEvent :=
  (polls r ls).filterMap Recv.value?

/-- The events published in a run. -/
def publishedIn (ls : List Label) : List BhEvent :=
  published (ls.filterMap Label.server?)

end EventStreams

/-- Every interleaving of the server's tasks and any number of event streams. -/
def eventStreams {σ : Type} (cfg : ServerConfig) (chan : Lts σ (Broadcast.Op Nat BhEvent)) :
    Lts (EventStreams σ) EventStreams.Label where
  init := ⟨Server.start cfg, chan.init⟩
  step := EventStreams.step cfg chan

namespace EventStreams

section Runs

variable {cfg : ServerConfig} {chan : Lts σ (Broadcast.Op Nat BhEvent)}
  {ls pre mid post : List Label} {s s' : EventStreams σ} {a : Label} {r : Nat}

theorem step_some (h : (eventStreams cfg chan).step s a = some s') :
    (match a with
      | .server t op => (Borehole.server cfg).step s.server (t, op) = some s'.server
      | _ => s'.server = s.server) ∧
    match a.busOp? with
      | some op => chan.step s.bus op = some s'.bus
      | none => s'.bus = s.bus := by
  obtain ⟨server, hserver, h⟩ := Option.bind_eq_some_iff.mp h
  obtain ⟨bus, hbus, rfl⟩ := Option.map_eq_some_iff.mp h
  constructor
  · cases a with
    | server t op => exact hserver
    | subscribe | poll | hangUp => exact (Option.some.inj hserver).symm
  · cases hop : a.busOp? with
    | some op =>
        rw [hop] at hbus
        exact hbus
    | none =>
        rw [hop] at hbus
        exact (Option.some.inj hbus).symm

/-- The streams do not touch the server's tasks. -/
theorem server_projection : Projection (eventStreams cfg chan) (Borehole.server cfg)
    EventStreams.server Label.server? where
  init := rfl
  own := by
    intro s a s' b h hb
    have hserver := (step_some h).1
    cases a with
    | server t op =>
        cases hb
        exact hserver
    | subscribe | poll | hangUp => cases hb
  other := by
    intro s a s' h hb
    have hserver := (step_some h).1
    cases a with
    | server t op => cases hb
    | subscribe | poll | hangUp => exact hserver

theorem bus_projection : Projection (eventStreams cfg chan) chan EventStreams.bus
    Label.busOp? where
  init := rfl
  own := by
    intro s a s' b h hb
    have hbus := (step_some h).2
    rw [hb] at hbus
    exact hbus
  other := by
    intro s a s' h hb
    have hbus := (step_some h).2
    rw [hb] at hbus
    exact hbus

/-- The bus carries what the server's tasks publish. -/
theorem sent_busOps (ls : List Label) : sent (ls.filterMap Label.busOp?) = publishedIn ls := by
  rw [sent, publishedIn, published, List.filterMap_filterMap, List.filterMap_filterMap]
  refine List.filterMap_congr fun a _ => ?_
  cases a with
  | server t op =>
      show (op.event?.map Broadcast.Op.send).bind _ = op.event?
      cases op.event? <;> rfl
  | subscribe | poll | hangUp => rfl

/-- A receiver gets from the bus what its stream polls. -/
theorem gotten_busOps (r : Nat) (ls : List Label) :
    gotten r (ls.filterMap Label.busOp?) = polls r ls := by
  rw [gotten, polls, List.filterMap_filterMap]
  refine List.filterMap_congr fun a _ => ?_
  cases a with
  | server t op =>
      show (op.event?.map Broadcast.Op.send).bind _ = none
      cases op.event? <;> rfl
  | subscribe | poll | hangUp => rfl

/-- Nobody hangs up a stream but its client. -/
theorem listening (h : (eventStreams cfg chan).Run (pre ++ .subscribe r :: post) s)
    (hstay : .hangUp r ∉ post) : Listening chan r (post.filterMap Label.busOp?) s.bus := by
  have hrun := bus_projection.run h
  have hsub : Label.busOp? (.subscribe r) = some (.subscribe r) := rfl
  rw [List.filterMap_append, List.filterMap_cons_some hsub] at hrun
  refine ⟨⟨_, hrun⟩, fun hm => ?_⟩
  obtain ⟨a, ha, hb⟩ := List.mem_filterMap.mp hm
  cases a with
  | server t op =>
      obtain ⟨e, _, he⟩ := Option.map_eq_some_iff.mp hb
      cases he
  | hangUp r' =>
      cases hb
      exact hstay ha
  | subscribe | poll => cases hb

/-- The streams do not hold up the server: what its tasks can do they can do beside
    any number of streams. -/
theorem server_goes_on (hdoc : Documented channelCapacity chan)
    (h : (eventStreams cfg chan).Run ls s) {t : Tid} {op : Borehole.Op}
    (hs : ((Borehole.server cfg).step s.server (t, op)).isSome) :
    ((eventStreams cfg chan).step s (.server t op)).isSome := by
  obtain ⟨server, hserver⟩ := Option.isSome_iff_exists.mp hs
  show (((Borehole.server cfg).step s.server (t, op)).bind _).isSome
  rw [hserver, Option.bind_some, Option.isSome_map]
  show (match op.event?.map Broadcast.Op.send with
    | some op => chan.step s.bus op
    | none => some s.bus).isSome
  cases op.event? with
  | none => rfl
  | some e => exact hdoc.sends _ _ e (bus_projection.run h)

/-- A client is sent the events published since its stream was opened, each at most
    once and in order, without those that it came more than `CHANNEL_CAPACITY`
    events behind. -/
theorem received_events (hdoc : Documented channelCapacity chan)
    (h : (eventStreams cfg chan).Run (pre ++ .subscribe r :: post) s)
    (hstay : .hangUp r ∉ post) :
    streamed r post = (taken (polls r post)).filterMap (fun i => (publishedIn post)[i]?) ∧
    (taken (polls r post)).Pairwise (· < ·) ∧
    passed (polls r post) ≤ (publishedIn post).length ∧
    ∀ i < passed (polls r post), i ∈ taken (polls r post) ↔
      ∀ mid rest, post = mid ++ rest → passed (polls r mid) ≤ i →
        (publishedIn mid).length ≤ i + channelCapacity := by
  have hr := received hdoc (listening h hstay)
  have hsent := sent_busOps post
  have hgot := gotten_busOps r post
  refine ⟨?_, taken_pairwise _, ?_, fun i hi => ?_⟩
  · have hvalues := hr.received
    rw [hsent, hgot] at hvalues
    exact hvalues
  · have hreached := hr.reached
    rw [hsent, hgot] at hreached
    exact hreached
  · have htime := hr.inTime i (by rw [hgot]; exact hi)
    rw [hgot] at htime
    rw [htime]
    constructor
    · rintro hin mid rest rfl hle
      have hbound := hin (mid.filterMap Label.busOp?) (rest.filterMap Label.busOp?)
        (List.filterMap_append ..) (by rw [gotten_busOps]; exact hle)
      rw [sent_busOps] at hbound
      exact hbound
    · intro hin ops ops' hops hle
      obtain ⟨mid, rest, rfl, rfl, rfl⟩ := List.filterMap_eq_append_iff.mp hops
      rw [gotten_busOps] at hle
      rw [sent_busOps]
      exact hin mid rest rfl hle

/-- A client that has not passed every event can go on. -/
theorem poll_enabled (hdoc : Documented channelCapacity chan)
    (h : (eventStreams cfg chan).Run (pre ++ .subscribe r :: post) s)
    (hstay : .hangUp r ∉ post) (hmore : passed (polls r post) < (publishedIn post).length) :
    ∃ got, ((eventStreams cfg chan).step s (.poll r got)).isSome := by
  obtain ⟨got, hready⟩ := hdoc.ready r _ s.bus (listening h hstay)
    (by rw [sent_busOps, gotten_busOps]; exact hmore)
  refine ⟨got, ?_⟩
  show ((chan.step s.bus (.recv r got)).map fun bus => EventStreams.mk s.server bus).isSome
  rw [Option.isSome_map]
  exact hready

/-- A client is sent the events published since its stream was opened, each at most
    once and in order, without those that it came more than `CHANNEL_CAPACITY`
    events behind.  It can go on until it has passed them all, and the server's
    tasks can go on whatever it does. -/
theorem streams_deliver (hdoc : Documented channelCapacity chan)
    (h : (eventStreams cfg chan).Run (pre ++ .subscribe r :: post) s)
    (hstay : .hangUp r ∉ post) :
    streamed r post = (taken (polls r post)).filterMap (fun i => (publishedIn post)[i]?) ∧
    (taken (polls r post)).Pairwise (· < ·) ∧
    passed (polls r post) ≤ (publishedIn post).length ∧
    (∀ i < passed (polls r post), i ∈ taken (polls r post) ↔
      ∀ mid rest, post = mid ++ rest → passed (polls r mid) ≤ i →
        (publishedIn mid).length ≤ i + channelCapacity) ∧
    (passed (polls r post) < (publishedIn post).length →
      ∃ got, ((eventStreams cfg chan).step s (.poll r got)).isSome) ∧
    ∀ t op, ((Borehole.server cfg).step s.server (t, op)).isSome →
      ((eventStreams cfg chan).step s (.server t op)).isSome := by
  obtain ⟨hstreamed, hincreasing, hreached, htaken⟩ := received_events hdoc h hstay
  exact ⟨hstreamed, hincreasing, hreached, htaken, poll_enabled hdoc h hstay,
    fun _ _ => server_goes_on hdoc h⟩

/-- A tunnel opens while a client is listening. -/
def openedStream : List Label :=
  directServed.map (fun a => .server a.1 a.2) ++
    [.poll 0 (.value (.tunnelOpened "t" "tcp" 3000 7000 "" 10))]

theorem streams_deliver_opened :
    ∃ s, (eventStreams onePort (Broadcast.lts channelCapacity)).Run
      ([] ++ .subscribe 0 :: openedStream) s ∧
    streamed 0 openedStream =
      (taken (polls 0 openedStream)).filterMap (fun i => (publishedIn openedStream)[i]?) ∧
    (taken (polls 0 openedStream)).Pairwise (· < ·) ∧
    passed (polls 0 openedStream) ≤ (publishedIn openedStream).length ∧
    (∀ i < passed (polls 0 openedStream), i ∈ taken (polls 0 openedStream) ↔
      ∀ mid rest, openedStream = mid ++ rest → passed (polls 0 mid) ≤ i →
        (publishedIn mid).length ≤ i + channelCapacity) ∧
    (passed (polls 0 openedStream) < (publishedIn openedStream).length →
      ∃ got, ((eventStreams onePort (Broadcast.lts channelCapacity)).step s (.poll 0 got)).isSome) ∧
    ∀ t op, ((Borehole.server onePort).step s.server (t, op)).isSome →
      ((eventStreams onePort (Broadcast.lts channelCapacity)).step s (.server t op)).isSome := by
  obtain ⟨s, h, -⟩ : ∃ s, (eventStreams onePort (Broadcast.lts channelCapacity)).Run
      ([] ++ .subscribe 0 :: openedStream) s ∧ True := Lts.exists_run (by decide)
  refine ⟨s, h, streams_deliver (lts_documented channelCapacity) h fun hm => ?_⟩
  have hnone : ∀ a ∈ openedStream, a.busOp? ≠ some (.unsubscribe 0) := by decide
  exact hnone _ hm rfl

example : streamed 0 openedStream = [.tunnelOpened "t" "tcp" 3000 7000 "" 10] := by decide

/-- A client that is never more than `CHANNEL_CAPACITY` events behind is sent
    every event that it has passed. -/
theorem streams_complete
    (htaken : ∀ i < passed (polls r post), i ∈ taken (polls r post) ↔
      ∀ mid rest, post = mid ++ rest → passed (polls r mid) ≤ i →
        (publishedIn mid).length ≤ i + channelCapacity)
    (hnear : ∀ mid rest, post = mid ++ rest →
      (publishedIn mid).length ≤ passed (polls r mid) + channelCapacity) :
    ∀ i < passed (polls r post), i ∈ taken (polls r post) := by
  intro i hi
  rw [htaken i hi]
  intro mid rest hpost hle
  have hbound := hnear mid rest hpost
  omega

end Runs

end EventStreams
end Borehole
