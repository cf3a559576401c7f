/-
  Borehole.Dashboard.Feed

  A dashboard that connects to the server (`loadAll` and `connect` in
  src/web/src/routes/+layout.svelte, `connectEvents` in src/web/src/lib/api.ts).

  `connect` sends the request for the snapshot and opens the event stream without
  waiting for either.  The two reach the server in any order, and the answer to
  the first overwrites the store whenever it arrives, with whatever events have
  been applied by then.  The store converges as long as no event is lost in this
  way that changes which tunnels the snapshot shows.
-/

import Borehole.Dashboard.Store
import Borehole.Server.Pairing

namespace Borehole

open Conc

/-- A dashboard and its two requests to the server. -/
structure Feed where
  server : Server
  /-- The answer to `GET /api/tunnels`, once the server has made it. -/
  snapshot : Option (List TunnelDto)
  /-- Whether the answer has been put into the store. -/
  applied : Bool
  subscribed : Bool
  /-- The events on their way to the subscriber, oldest first. -/
  queue : List BhEvent
  /-- The `tunnels` store. -/
  store : List TunnelDto

/-- The steps of the server and of the dashboard's two requests. -/
inductive FeedOp where
  | server (t : Tid) (op : Op)
  /-- The server answers `GET /api/tunnels`. -/
  | list (rows : List TunnelDto)
  /-- The server subscribes the dashboard to the event bus. -/
  | subscribe
  /-- The answer arrives: `tunnels.set(t)`. -/
  | respond
  /-- An event arrives. -/
  | event (e : BhEvent)

namespace Feed

/-- A dashboard that connects while its store shows `old`. -/
def start (cfg : ServerConfig) (old : List TunnelDto) : Feed where
  server := Server.start cfg
  snapshot := none
  applied := false
  subscribed := false
  queue := []
  store := old

/-- The server publishes, the client lists the tunnels once or takes the next event. -/
def step (cfg : ServerConfig) (f : Feed) : FeedOp → Option Feed
  | .server t op => ((Borehole.server cfg).step f.server (t, op)).map fun c =>
      { f with server := c, queue := if f.subscribed then f.queue ++ op.event?.toList else f.queue }
  | .list rows =>
      if f.snapshot = none ∧ Lists f.server.shared.activeTunnels rows then
        some { f with snapshot := some rows }
      else none
  | .subscribe => if f.subscribed then none else some { f with subscribed := true }
  | .respond =>
      match f.snapshot with
      | some rows => if f.applied then none else some { f with applied := true, store := rows }
      | none => none
  | .event e =>
      match f.queue with
      | e' :: queue =>
          if e' = e then some { f with queue := queue, store := handleEvent f.store e } else none
      | [] => none

end Feed

/-- Every interleaving of the server with a connecting dashboard. -/
def feed (cfg : ServerConfig) (old : List TunnelDto) : Lts Feed FeedOp where
  init := Feed.start cfg old
  step := Feed.step cfg

/-- The server's steps of a run. -/
def serverOps (ls : List FeedOp) : List (Tid × Op) :=
  ls.filterMap fun
    | .server t op => some (t, op)
    | _ => none

theorem serverOps_snoc (ls : List FeedOp) (a : FeedOp) : serverOps (ls ++ [a]) =
    serverOps ls ++ match a with | .server t op => [(t, op)] | _ => [] := by
  rw [serverOps, List.filterMap_append]
  cases a <;> rfl

/-! ## The ids of a store -/

/-- The ids that a store shows. -/
def ids (rows : List TunnelDto) : Finset String :=
  (rows.map TunnelDto.tunnelId).toFinset

/-- What an event does to the ids of a store. -/
def idsAfter (shown : Finset String) : BhEvent → Finset String
  | .tunnelOpened id .. => insert id shown
  | .tunnelClosed id => shown.erase id
  | .nodeConnected .. | .nodeLeft _ => shown

theorem mem_ids {rows : List TunnelDto} {id : String} :
    id ∈ ids rows ↔ id ∈ rows.map TunnelDto.tunnelId :=
  List.mem_toFinset

theorem ids_filter (rows : List TunnelDto) (id : String) :
    ids (rows.filter fun t => t.tunnelId ≠ id) = (ids rows).erase id := by
  ext id'
  simp only [mem_ids, List.mem_map, List.mem_filter, decide_eq_true_eq, Finset.mem_erase]
  constructor
  · rintro ⟨row, ⟨hrow, hne⟩, rfl⟩
    exact ⟨hne, row, hrow, rfl⟩
  · rintro ⟨hne, row, hrow, rfl⟩
    exact ⟨row, ⟨hrow, hne⟩, rfl⟩

theorem ids_handleEvent (rows : List TunnelDto) (e : BhEvent) :
    ids (handleEvent rows e) = idsAfter (ids rows) e := by
  cases e with
  | tunnelOpened id protocol localPort remotePort node startedAt =>
      have hrows : ids (rows.filter (fun t => t.tunnelId ≠ id) ++
          [openedRow id protocol localPort remotePort node startedAt]) =
          ids (rows.filter fun t => t.tunnelId ≠ id) ∪ {id} := by
        simp [ids, openedRow]
      rw [handleEvent, hrows, ids_filter, idsAfter]
      ext id'
      by_cases hid : id' = id
      · simp [hid]
      · simp [hid]
  | tunnelClosed id => exact ids_filter rows id
  | nodeConnected | nodeLeft => rfl

theorem ids_foldl (rows : List TunnelDto) (es : List BhEvent) :
    ids (es.foldl handleEvent rows) = es.foldl idsAfter (ids rows) := by
  induction es generalizing rows with
  | nil => rfl
  | cons e es ih => rw [List.foldl_cons, List.foldl_cons, ih, ids_handleEvent]

/-! ## Lost events -/

/-- What the store shows once the answer is in, before any further event. -/
def Feed.base? (f : Feed) : Option (List TunnelDto) :=
  if f.applied then some f.store else f.snapshot

/-- No event is lost that changes which tunnels the snapshot shows: none is
    published while the server has answered and not subscribed the dashboard, and
    none arrives while the answer is on its way. -/
def Lossless (f : Feed) : FeedOp → Prop
  | .server _ op =>
      f.subscribed = false → ∀ e ∈ op.event?, ∀ rows ∈ f.base?, idsAfter (ids rows) e = ids rows
  | .event e => f.applied = false → ∀ rows ∈ f.snapshot, idsAfter (ids rows) e = ids rows
  | _ => True

instance (f : Feed) : (a : FeedOp) → Decidable (Lossless f a)
  | .server _ op => inferInstanceAs (Decidable
      (f.subscribed = false → ∀ e ∈ op.event?, ∀ rows ∈ f.base?, idsAfter (ids rows) e = ids rows))
  | .event e => inferInstanceAs (Decidable
      (f.applied = false → ∀ rows ∈ f.snapshot, idsAfter (ids rows) e = ids rows))
  | .list _ | .subscribe | .respond => isTrue trivial

/-- The state of a connecting dashboard against the server's run. -/
structure FeedInv (cfg : ServerConfig) (sl : List (Tid × Op)) (f : Feed) : Prop where
  unsubscribed : f.subscribed = false → f.queue = []
  unanswered : f.snapshot = none → f.applied = false ∧
    ∃ early late, sl = early ++ late ∧ published late = f.queue
  /-- The events since the snapshot, or since some moment before it, are those
      that the store reflects and those on their way. -/
  answered : ∀ rows, f.snapshot = some rows → ∃ pre mid post c₁ seen base,
    sl = pre ++ mid ++ post ∧ (server cfg).Run (pre ++ mid) c₁ ∧
    Lists c₁.shared.activeTunnels rows ∧ published (mid ++ post) = seen ++ f.queue ∧
    f.base? = some base ∧ ids base = seen.foldl idsAfter (ids rows)

section Runs

variable {cfg : ServerConfig} {old : List TunnelDto} {ls : List FeedOp} {sl : List (Tid × Op)}
  {f f' : Feed} {t : Tid} {op : Op} {e : BhEvent} {rows : List TunnelDto}

theorem server_run (h : (feed cfg old).Run ls f) : (server cfg).Run (serverOps ls) f.server := by
  refine Lts.Run.induct (P := fun ls f => (server cfg).Run (serverOps ls) f.server) ?_ ?_ h
  · exact rfl
  intro ls f a f' _ hr hs
  rw [serverOps_snoc]
  cases a with
  | server t op =>
      obtain ⟨c, hc, rfl⟩ := Option.map_eq_some_iff.mp hs
      exact Lts.run_snoc.mpr ⟨f.server, hr, hc⟩
  | list rows =>
      obtain ⟨_, hf⟩ := Option.ite_none_right_eq_some.mp hs
      cases hf
      rwa [List.append_nil]
  | subscribe =>
      obtain ⟨_, hf⟩ := Option.ite_none_left_eq_some.mp hs
      cases hf
      rwa [List.append_nil]
  | respond =>
      simp only [feed, Feed.step] at hs
      split at hs
      · obtain ⟨_, hf⟩ := Option.ite_none_left_eq_some.mp hs
        cases hf
        rwa [List.append_nil]
      · cases hs
  | event e =>
      simp only [feed, Feed.step] at hs
      split at hs
      · obtain ⟨_, hf⟩ := Option.ite_none_right_eq_some.mp hs
        cases hf
        rwa [List.append_nil]
      · cases hs

theorem FeedInv.server (hi : FeedInv cfg sl f) (hok : Lossless f (.server t op))
    (h : f.step cfg (.server t op) = some f') : FeedInv cfg (sl ++ [(t, op)]) f' := by
  obtain ⟨c, hs, rfl⟩ := Option.map_eq_some_iff.mp h
  -- a subscriber gets the event; without one it must not change what the store shows
  have hqueue : f.subscribed = true → (if f.subscribed then f.queue ++ op.event?.toList
      else f.queue) = f.queue ++ op.event?.toList := fun hsub => by rw [hsub, if_pos rfl]
  have hquiet : f.subscribed = false → (if f.subscribed then f.queue ++ op.event?.toList
      else f.queue) = [] := fun hsub => by
    rw [hsub, if_neg Bool.false_ne_true, hi.unsubscribed hsub]
  refine ⟨hquiet, ?_, ?_⟩
  · intro hnone
    obtain ⟨happlied, early, late, rfl, hlate⟩ := hi.unanswered hnone
    refine ⟨happlied, ?_⟩
    cases hsub : f.subscribed with
    | true =>
        refine ⟨early, late ++ [(t, op)], List.append_assoc .., ?_⟩
        rw [published_snoc, hlate]
        rfl
    | false =>
        refine ⟨early ++ late ++ [(t, op)], [], (List.append_nil _).symm, ?_⟩
        exact (hi.unsubscribed hsub).symm
  · intro rows hrows
    obtain ⟨pre, mid, post, c₁, seen, base, rfl, hr, hlist, hpub, hbase, hids⟩ :=
      hi.answered rows hrows
    have hpub' : published (mid ++ (post ++ [(t, op)])) = seen ++ f.queue ++ op.event?.toList := by
      rw [← List.append_assoc, published_snoc, hpub]
    cases hsub : f.subscribed with
    | true =>
        refine ⟨pre, mid, post ++ [(t, op)], c₁, seen, base, by simp, hr, hlist, ?_, hbase, hids⟩
        rw [hpub']
        exact List.append_assoc ..
    | false =>
        refine ⟨pre, mid, post ++ [(t, op)], c₁, seen ++ op.event?.toList, base, by simp, hr, hlist,
          ?_, hbase, ?_⟩
        · rw [hpub', hi.unsubscribed hsub, List.append_nil]
          exact (List.append_nil _).symm
        · rw [List.foldl_append, ← hids]
          cases op with
          | publish e => exact (hok hsub e rfl base hbase).symm
          | _ => rfl

theorem FeedInv.list (hi : FeedInv cfg sl f) (hr : (Borehole.server cfg).Run sl f.server)
    (h : f.step cfg (.list rows) = some f') :
    FeedInv cfg sl f' := by
  obtain ⟨⟨hnone, hlist⟩, hf⟩ := Option.ite_none_right_eq_some.mp h
  cases hf
  obtain ⟨happlied, early, late, rfl, hlate⟩ := hi.unanswered hnone
  refine ⟨hi.unsubscribed, nofun, ?_⟩
  intro rows' hrows'
  cases hrows'
  refine ⟨early, late, [], f.server, [], rows, (List.append_nil _).symm, hr, hlist, ?_, ?_, rfl⟩
  · rw [List.append_nil, hlate]
    rfl
  · rw [Feed.base?, happlied]
    rfl

theorem FeedInv.subscribe (hi : FeedInv cfg sl f) (h : f.step cfg .subscribe = some f') :
    FeedInv cfg sl f' := by
  obtain ⟨hsub, hf⟩ := Option.ite_none_left_eq_some.mp h
  cases hf
  exact ⟨nofun, hi.unanswered, hi.answered⟩

theorem FeedInv.respond (hi : FeedInv cfg sl f) (h : f.step cfg .respond = some f') :
    FeedInv cfg sl f' := by
  simp only [Feed.step] at h
  split at h
  · rename_i rows hrows
    obtain ⟨happlied, hf⟩ := Option.ite_none_left_eq_some.mp h
    cases hf
    refine ⟨hi.unsubscribed, fun hnone => ?_, fun rows' hrows' => ?_⟩
    · rw [show f.snapshot = none from hnone] at hrows
      cases hrows
    · obtain ⟨pre, mid, post, c₁, seen, base, hsl, hr, hlist, hpub, hbase, hids⟩ :=
        hi.answered rows' hrows'
      refine ⟨pre, mid, post, c₁, seen, base, hsl, hr, hlist, hpub, ?_, hids⟩
      rw [Feed.base?, if_neg happlied, hrows] at hbase
      exact hbase
  · cases h

theorem FeedInv.event (hi : FeedInv cfg sl f) (hok : Lossless f (.event e))
    (h : f.step cfg (.event e) = some f') : FeedInv cfg sl f' := by
  simp only [Feed.step] at h
  split at h
  · rename_i e' queue hqueue
    obtain ⟨rfl, hf⟩ := Option.ite_none_right_eq_some.mp h
    cases hf
    -- The event moves from the queue to what has been seen.
    refine ⟨fun hsub => ?_, fun hnone => ?_, fun rows hrows => ?_⟩
    · have hnil := hi.unsubscribed hsub
      rw [hqueue] at hnil
      cases hnil
    · obtain ⟨happlied, early, late, rfl, hlate⟩ := hi.unanswered hnone
      rw [hqueue] at hlate
      obtain ⟨late₁, late₂, rfl, _, hlate₂⟩ := List.filterMap_eq_append_iff.mp
        (show published late = [e'] ++ queue from hlate)
      exact ⟨happlied, early ++ late₁, late₂, (List.append_assoc ..).symm, hlate₂⟩
    · obtain ⟨pre, mid, post, c₁, seen, base, hsl, hr, hlist, hpub, hbase, hids⟩ :=
        hi.answered rows hrows
      rw [hqueue, List.append_cons] at hpub
      cases happlied : f.applied with
      | true =>
          rw [Feed.base?, happlied, if_pos rfl] at hbase
          cases hbase
          refine ⟨pre, mid, post, c₁, seen ++ [e'], handleEvent f.store e', hsl, hr, hlist, hpub,
            ?_, ?_⟩
          · rfl
          · rw [ids_handleEvent, hids, List.foldl_append]
            rfl
      | false =>
          rw [Feed.base?, happlied, if_neg Bool.false_ne_true] at hbase
          refine ⟨pre, mid, post, c₁, seen ++ [e'], base, hsl, hr, hlist, hpub, ?_, ?_⟩
          · exact hbase
          · rw [List.foldl_append, ← hids]
            exact (hok happlied base hbase).symm
  · cases h

theorem feedInv (h : (feed cfg old).Run ls f) (hok : (feed cfg old).Along Lossless ls) :
    FeedInv cfg (serverOps ls) f := by
  refine Lts.Run.induct_along (P := fun ls f => FeedInv cfg (serverOps ls) f) ?_ ?_ h hok
  · exact ⟨fun _ => rfl, fun _ => ⟨rfl, [], [], rfl, rfl⟩, nofun⟩
  · intro ls f a f' hr hi hok hs
    rw [serverOps_snoc]
    cases a with
    | server t op => exact hi.server hok hs
    | list rows => rw [List.append_nil]; exact hi.list (server_run hr) hs
    | subscribe => rw [List.append_nil]; exact hi.subscribe hs
    | respond => rw [List.append_nil]; exact hi.respond hs
    | event e => rw [List.append_nil]; exact hi.event hok hs

/-- A dashboard that loses no event shows exactly the tunnels of the server once
    the answer and all events are in and no session is between updating the table
    and publishing the matching event. -/
theorem dashboard_converges (h : (feed cfg old).Run ls f) (hnd : (uuids (serverOps ls)).Nodup)
    (hok : (feed cfg old).Along Lossless ls) (happlied : f.applied = true) (hqueue : f.queue = [])
    (hq : ∀ t, (f.server.task t).midUpdate = false) :
    ∀ id, id ∈ f.store.map TunnelDto.tunnelId ↔ id ∈ f.server.shared.activeTunnels := by
  have hi := feedInv h hok
  cases hrows : f.snapshot with
  | none =>
      rw [(hi.unanswered hrows).1] at happlied
      cases happlied
  | some rows =>
      obtain ⟨pre, mid, post, c₁, seen, base, hsl, hr, hlist, hpub, hbase, hids⟩ :=
        hi.answered rows hrows
      rw [Feed.base?, if_pos happlied] at hbase
      cases hbase
      rw [hqueue, List.append_nil] at hpub
      have hrun := server_run h
      rw [hsl] at hrun hnd
      have hshows := snapshot_replay hrun hr hnd hlist hq
      intro id
      rw [← mem_ids, hids, ← ids_foldl, ← hpub, mem_ids]
      exact hshows.keys id

/-- The row of tunnel `t`. -/
def directRow : TunnelDto := ⟨"t", "tcp", 3000, 7000, none, none, 10⟩

/-- The dashboard subscribes, a tunnel opens, and the answer, which shows it,
    arrives after the event. -/
def listedLate : List FeedOp :=
  [.subscribe] ++ directServed.map (fun a => .server a.1 a.2) ++
    [.list [directRow], .event (.tunnelOpened "t" "tcp" 3000 7000 "" 10), .respond]

theorem dashboard_converges_listedLate : ∃ f, (feed onePort []).Run listedLate f ∧
    ("t" ∈ f.store.map TunnelDto.tunnelId ↔ "t" ∈ f.server.shared.activeTunnels) := by
  obtain ⟨f, h, happlied, hqueue, hq⟩ : ∃ f, (feed onePort []).Run listedLate f ∧
      f.applied = true ∧ f.queue = [] ∧
      ∀ t ∈ ([1] : List Nat), (f.server.task t).midUpdate = false :=
    Lts.exists_run (by decide)
  have hok : (feed onePort []).Along Lossless listedLate := by decide
  have hsettled := settled_of_run (server_run h) (by decide) hq
  exact ⟨f, h, dashboard_converges h (by decide) hok happlied hqueue hsettled "t"⟩

/-- The answer is made before the tunnel opens and arrives after the event. -/
def listedEarly : List FeedOp :=
  [.subscribe, .list []] ++ directServed.map (fun a => .server a.1 a.2) ++
    [.event (.tunnelOpened "t" "tcp" 3000 7000 "" 10), .respond]

/-- The dashboard misses the tunnel for good. -/
theorem dashboard_diverges : ∃ f, (feed onePort []).Run listedEarly f ∧
    (uuids (serverOps listedEarly)).Nodup ∧ f.applied = true ∧ f.subscribed = true ∧
    f.queue = [] ∧ (∀ t, (f.server.task t).midUpdate = false) ∧
    ¬ ∀ id, id ∈ f.store.map TunnelDto.tunnelId ↔ id ∈ f.server.shared.activeTunnels := by
  obtain ⟨f, h, hf⟩ : ∃ f, (feed onePort []).Run listedEarly f ∧
      f.applied = true ∧ f.subscribed = true ∧ f.queue = [] ∧ f.store = [] ∧
      "t" ∈ f.server.shared.activeTunnels.keys ∧
      ∀ t ∈ ([1] : List Nat), (f.server.task t).midUpdate = false :=
    Lts.exists_run (by decide)
  obtain ⟨happlied, hsub, hqueue, hstore, hkey, hq⟩ := hf
  refine ⟨f, h, by decide, happlied, hsub, hqueue, settled_of_run (server_run h) (by decide) hq, ?_⟩
  intro hall
  have ht := (hall "t").mpr (Finmap.mem_keys.mp hkey)
  rw [hstore] at ht
  cases ht

end Runs

end Borehole
