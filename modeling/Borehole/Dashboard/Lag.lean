/-
  Borehole.Dashboard.Lag

  A client of the event stream that falls behind the bus.

  It takes a snapshot of the tunnels after it has subscribed, and applies the
  events that it is sent with the dashboard's rule.  What it shows of a tunnel is
  decided by the last event about that tunnel, so only the tunnels whose last
  event it has lost are shown wrongly.
-/

import Borehole.Server.Events
import Borehole.Dashboard.Store

namespace Borehole

open Conc Broadcast Replay EventStreams

/-- The event changes what is shown of tunnel `id`. -/
def BhEvent.mentions (id : String) (e : BhEvent) : Bool :=
  e.update?.any fun u => about TunnelDto.tunnelId u = id

/-- The last of the events `es` about tunnel `id` is among those numbered `is`, if
    there is one. -/
def LastReceived (id : String) (es : List BhEvent) (is : List Nat) : Prop :=
  ∀ as e bs, es = as ++ e :: bs → e.mentions id = true → (∀ e' ∈ bs, e'.mentions id = false) →
    as.length ∈ is

section Last

variable {id : String} {es as bs : List BhEvent} {e : BhEvent} {is : List Nat}

theorem last?_unmentioned (h : ∀ e ∈ es, e.mentions id = false) :
    last? TunnelDto.tunnelId id (es.filterMap BhEvent.update?) = none := by
  rw [last?, List.getLast?_eq_none_iff, List.filter_eq_nil_iff]
  intro u hu
  obtain ⟨e, he, hue⟩ := List.mem_filterMap.mp hu
  have hnot := h e he
  rw [BhEvent.mentions, hue] at hnot
  simpa using hnot

/-- The last event about a tunnel decides, whatever comes after it. -/
theorem last?_mentioned (he : e.mentions id = true) (hbs : ∀ e' ∈ bs, e'.mentions id = false) :
    last? TunnelDto.tunnelId id ((as ++ e :: bs).filterMap BhEvent.update?) = e.update? := by
  cases hu : e.update? with
  | none =>
      rw [BhEvent.mentions, hu] at he
      cases he
  | some u =>
      rw [BhEvent.mentions, hu] at he
      have hnone := last?_unmentioned hbs
      rw [last?, List.getLast?_eq_none_iff] at hnone
      have habout : decide (about TunnelDto.tunnelId u = id) = true := he
      rw [last?, List.filterMap_append, List.filterMap_cons, hu, List.filter_append,
        List.filter_cons, if_pos habout, hnone, List.getLast?_append]
      rfl

/-- An event about a tunnel is followed by a last one. -/
theorem exists_last_mention : (∀ e ∈ es, e.mentions id = false) ∨
    ∃ as e bs, es = as ++ e :: bs ∧ e.mentions id = true ∧ ∀ e' ∈ bs, e'.mentions id = false := by
  induction es with
  | nil => exact Or.inl (List.forall_mem_nil _)
  | cons e es ih =>
      rcases ih with hnone | ⟨as, e', bs, rfl, he', hbs⟩
      · cases he : e.mentions id with
        | true => exact Or.inr ⟨[], e, es, rfl, he, hnone⟩
        | false => exact Or.inl (List.forall_mem_cons.mpr ⟨he, hnone⟩)
      · exact Or.inr ⟨e :: as, e', bs, rfl, he', hbs⟩

/-- Numbers in increasing order that contain one: those before it and those after. -/
theorem split_increasing {i : Nat} (his : is.Pairwise (· < ·)) (hi : i ∈ is) :
    ∃ js ks, is = js ++ i :: ks ∧ ∀ k ∈ ks, i < k := by
  obtain ⟨js, ks, rfl⟩ := List.append_of_mem hi
  refine ⟨js, ks, rfl, ?_⟩
  exact (List.pairwise_cons.mp (List.pairwise_append.mp his).2.1).1

/-- A client that has received the last event about a tunnel has the same last
    update of it as one that has received all. -/
theorem last?_received (his : is.Pairwise (· < ·)) (h : LastReceived id es is) :
    last? TunnelDto.tunnelId id ((is.filterMap fun i => es[i]?).filterMap BhEvent.update?) =
      last? TunnelDto.tunnelId id (es.filterMap BhEvent.update?) := by
  have hsub : ∀ ks : List Nat, ∀ e ∈ ks.filterMap (fun i => es[i]?), ∃ k ∈ ks, es[k]? = some e :=
    fun ks e he => List.mem_filterMap.mp he
  have hlast : (∀ e ∈ es, e.mentions id = false) ∨ ∃ as e bs, es = as ++ e :: bs ∧
      e.mentions id = true ∧ ∀ e' ∈ bs, e'.mentions id = false := exists_last_mention
  rcases hlast with hnone | ⟨as, e, bs, rfl, he, hbs⟩
  · rw [last?_unmentioned hnone, last?_unmentioned]
    intro e he
    obtain ⟨_, _, hk⟩ := hsub is e he
    exact hnone e (List.mem_of_getElem? hk)
  · obtain ⟨js, ks, rfl, hks⟩ := split_increasing his (h as e bs rfl he hbs)
    have hget : (as ++ e :: bs)[as.length]? = some e := by
      rw [List.getElem?_append_right (Nat.le_refl _), Nat.sub_self]
      rfl
    rw [last?_mentioned he hbs, List.filterMap_append, List.filterMap_cons, hget]
    refine last?_mentioned he fun e' he' => ?_
    -- What comes later in what is received comes later in what is published.
    obtain ⟨k, hk, hek⟩ := hsub ks e' he'
    have hlt := hks k hk
    rw [List.getElem?_append_right (Nat.le_of_lt hlt)] at hek
    obtain ⟨n, hn⟩ : ∃ n, k - as.length = n + 1 := ⟨k - as.length - 1, by omega⟩
    rw [hn] at hek
    exact hbs e' (List.mem_of_getElem? hek)

end Last

section Runs

variable {σ : Type} {cfg : ServerConfig} {chan : Lts σ (Broadcast.Op Nat BhEvent)}
  {pre mid post : List EventStreams.Label} {s s₁ : EventStreams σ} {r : Nat}
  {rows : List TunnelDto}

/-- A client that subscribes after `pre`, takes its snapshot after `mid` and applies
    what it is sent shows each tunnel as it is unless the last event about it was
    lost, and the whole table if it has kept up. -/
theorem dashboard_behind (hdoc : Documented channelCapacity chan)
    (h : (eventStreams cfg chan).Run (pre ++ .subscribe r :: (mid ++ post)) s)
    (h₁ : (eventStreams cfg chan).Run (pre ++ .subscribe r :: mid) s₁)
    (hstay : .hangUp r ∉ mid ++ post)
    (hnd : (uuids ((pre ++ .subscribe r :: (mid ++ post)).filterMap Label.server?)).Nodup)
    (hrows : Lists s₁.server.shared.activeTunnels rows)
    (hq : ∀ t, (s.server.task t).midUpdate = false) :
    (∀ id, LastReceived id (publishedIn (mid ++ post)) (taken (polls r (mid ++ post))) →
      ShowsAt ((streamed r (mid ++ post)).foldl handleEvent rows) id
        (s.server.shared.activeTunnels.lookup id)) ∧
    (passed (polls r (mid ++ post)) = (publishedIn (mid ++ post)).length →
      (∀ some rest, mid ++ post = some ++ rest →
        (publishedIn some).length ≤ passed (polls r some) + channelCapacity) →
      Shows ((streamed r (mid ++ post)).foldl handleEvent rows) s.server.shared.activeTunnels) := by
  have hrun := server_projection.run h
  have hrun₁ := server_projection.run h₁
  have hsplit : (pre ++ .subscribe r :: (mid ++ post)).filterMap Label.server? =
      pre.filterMap Label.server? ++ mid.filterMap Label.server? ++
        post.filterMap Label.server? := by
    rw [List.filterMap_append, List.filterMap_cons_none rfl, List.filterMap_append,
      List.append_assoc]
  have hsplit₁ : (pre ++ .subscribe r :: mid).filterMap Label.server? =
      pre.filterMap Label.server? ++ mid.filterMap Label.server? := by
    rw [List.filterMap_append, List.filterMap_cons_none rfl]
  rw [hsplit] at hrun hnd
  rw [hsplit₁] at hrun₁
  obtain ⟨c, hc, hpost⟩ := Lts.run_append.mp hrun
  rw [← hrun₁.functional hc] at hpost
  obtain ⟨hstreamed, hincreasing, -, htaken⟩ := received_events hdoc h hstay
  have hshows : ∀ id, LastReceived id (publishedIn (mid ++ post))
      (taken (polls r (mid ++ post))) →
      ShowsAt ((streamed r (mid ++ post)).foldl handleEvent rows) id
        (s.server.shared.activeTunnels.lookup id) := by
    intro id hlast
    -- The client's last update of the tunnel is the last one published.
    have hat := replay_showsAt hrun₁ hpost hnd hrows hq id
    have hupdates : updates (mid.filterMap Label.server? ++ post.filterMap Label.server?) =
        (publishedIn (mid ++ post)).filterMap BhEvent.update? := by
      rw [updates, publishedIn, List.filterMap_append]
    have hsame := last?_received hincreasing hlast
    have hrowsAt : rowsAt TunnelDto.tunnelId id
        ((streamed r (mid ++ post)).foldl handleEvent rows) =
        rowsAt TunnelDto.tunnelId id (replay TunnelDto.tunnelId rows
          (updates (mid.filterMap Label.server? ++ post.filterMap Label.server?))) := by
      rw [foldl_handleEvent, rowsAt_replay, rowsAt_replay, hstreamed, hupdates, hsame]
    cases hl : s.server.shared.activeTunnels.lookup id with
    | none =>
        rw [hl] at hat
        exact hrowsAt.trans hat
    | some e =>
        rw [hl] at hat
        obtain ⟨row, hrow, hmatch⟩ := hat
        exact ⟨row, hrowsAt.trans hrow, hmatch⟩
  refine ⟨hshows, fun hall hnear => shows_of_showsAt fun id => hshows id ?_⟩
  rintro as e bs hpub - -
  refine streams_complete htaken hnear as.length ?_
  rw [hall, hpub, List.length_append, List.length_cons]
  omega

/-- The tunnel closes, and the client polls both events. -/
def closedStream : List EventStreams.Label :=
  [.server 1 (.readLine none),
   .server 1 (.removeTunnel "t" (some ⟨.tcp, 3000, 7000, none, none, 10, none, 1⟩)),
   .server 1 (.now 12),
   .server 1 (.recordTunnel ⟨"t", "tcp", 3000, 7000, none, 10, 12, durationSecs 10 12⟩),
   .poll 0 (.value (.tunnelOpened "t" "tcp" 3000 7000 "" 10)),
   .server 1 (.publish (.tunnelClosed "t")), .poll 0 (.value (.tunnelClosed "t"))]

/-- The snapshot shows the tunnel, and so does the event of its opening. -/
theorem dashboard_behind_closed : ∃ s,
    (eventStreams onePort (Broadcast.lts channelCapacity)).Run ([] ++ .subscribe 0 ::
      (directServed.map (fun a => .server a.1 a.2) ++ closedStream)) s ∧
    ShowsAt ((streamed 0 (directServed.map (fun a => .server a.1 a.2) ++ closedStream)).foldl
      handleEvent [⟨"t", "tcp", 3000, 7000, none, none, 10⟩]) "t"
        (s.server.shared.activeTunnels.lookup "t") ∧
    Shows ((streamed 0 (directServed.map (fun a => .server a.1 a.2) ++ closedStream)).foldl
      handleEvent [⟨"t", "tcp", 3000, 7000, none, none, 10⟩]) s.server.shared.activeTunnels := by
  obtain ⟨s₁, h₁, hrows⟩ :
      ∃ s₁, (eventStreams onePort (Broadcast.lts channelCapacity)).Run ([] ++ .subscribe 0 ::
      directServed.map (fun a => .server a.1 a.2)) s₁ ∧
      Lists s₁.server.shared.activeTunnels [⟨"t", "tcp", 3000, 7000, none, none, 10⟩] :=
    Lts.exists_run (by decide)
  obtain ⟨s, h, hq⟩ :
      ∃ s, (eventStreams onePort (Broadcast.lts channelCapacity)).Run ([] ++ .subscribe 0 ::
      (directServed.map (fun a => .server a.1 a.2) ++ closedStream)) s ∧
      ∀ t ∈ ([1] : List Nat), (s.server.task t).midUpdate = false :=
    Lts.exists_run (by decide)
  have hstay : .hangUp 0 ∉ directServed.map (fun a => .server a.1 a.2) ++ closedStream := by
    intro hm
    have hnone : ∀ a ∈ directServed.map (fun a => .server a.1 a.2) ++ closedStream,
        a.busOp? ≠ some (.unsubscribe 0) := by decide
    exact hnone _ hm rfl
  have hsettled := settled_of_run (server_projection.run h) (by decide) hq
  have hshows :=
      dashboard_behind (lts_documented channelCapacity) h h₁ hstay (by decide) hrows hsettled
  -- Two events have been published, so the client has kept up.
  have hnear : ∀ some rest,
      directServed.map (fun a => .server a.1 a.2) ++ closedStream = some ++ rest →
      (publishedIn some).length ≤ passed (polls 0 some) + channelCapacity := by
    intro some rest hsome
    have hle : (publishedIn some).length ≤ (publishedIn (some ++ rest)).length := by
      rw [publishedIn, publishedIn, List.filterMap_append, published_append, List.length_append]
      exact Nat.le_add_right _ _
    have htwo : (publishedIn (directServed.map (fun a => Label.server a.1 a.2) ++
        closedStream)).length = 2 := by decide
    rw [← hsome, htwo] at hle
    unfold channelCapacity
    omega
  refine ⟨s, h, hshows.1 "t" ?_, hshows.2 (by decide) hnear⟩
  intro as e bs hpub _ _
  have hlen := congrArg List.length hpub
  have htaken : taken (polls 0 (directServed.map (fun a => Label.server a.1 a.2) ++
      closedStream)) = [0, 1] := by decide
  have htwo : (publishedIn (directServed.map (fun a => Label.server a.1 a.2) ++
      closedStream)).length = 2 := by decide
  rw [htwo, List.length_append, List.length_cons] at hlen
  rw [htaken, List.mem_cons, List.mem_singleton]
  omega

end Runs

end Borehole
