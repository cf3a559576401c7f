/-
  Borehole.Dashboard.Store

  The dashboard's `tunnels` store and the events that change it
  (src/web/src/routes/+layout.svelte).

  A snapshot that is followed by all events published since some moment before
  it shows the table: of each tunnel the store shows what the last event about it
  says, or else what the snapshot says.
-/

import Borehole.Server.Table
import Borehole.Server.Orders

namespace Borehole

open Conc Replay

/-- The row that `tunnel_opened` adds. -/
def openedRow (id protocol : String) (localPort remotePort : UInt16) (node : String)
    (startedAt : DateTime) : TunnelDto where
  tunnelId := id
  protocol := protocol
  localPort := localPort
  remotePort := remotePort
  node := if node = "" then none else some node
  device := none
  startedAt := startedAt

/-- Applies a live event to the `tunnels` store. -/
def handleEvent (list : List TunnelDto) : BhEvent → List TunnelDto
  | .tunnelOpened id protocol localPort remotePort node startedAt =>
      list.filter (fun t => t.tunnelId ≠ id) ++
        [openedRow id protocol localPort remotePort node startedAt]
  | .tunnelClosed id => list.filter fun t => t.tunnelId ≠ id
  -- node events refetch another store
  | .nodeConnected .. | .nodeLeft _ => list

/-- The update of the store that an event is. -/
def BhEvent.update? : BhEvent → Option (Update String TunnelDto)
  | .tunnelOpened id protocol localPort remotePort node startedAt =>
      some (.put (openedRow id protocol localPort remotePort node startedAt))
  | .tunnelClosed id => some (.drop id)
  | .nodeConnected .. | .nodeLeft _ => none

/-- The store updates that a run publishes, in order. -/
def updates (ls : List (Tid × Op)) : List (Update String TunnelDto) :=
  (published ls).filterMap BhEvent.update?

theorem foldl_handleEvent (rows : List TunnelDto) (es : List BhEvent) :
    es.foldl handleEvent rows = replay TunnelDto.tunnelId rows (es.filterMap BhEvent.update?) := by
  induction es generalizing rows with
  | nil => rfl
  | cons e es ih =>
      rw [List.foldl_cons, ih]
      cases e <;> rfl

theorem updates_snoc (ls : List (Tid × Op)) (t : Tid) (op : Op) :
    updates (ls ++ [(t, op)]) = updates ls ++ (op.event?.bind BhEvent.update?).toList := by
  rw [updates, published_snoc, List.filterMap_append, updates]
  cases h : op.event? with
  | none => rfl
  | some e => cases hu : e.update? <;> simp [hu]

theorem updates_publish {ls : List (Tid × Op)} {t : Tid} {e : BhEvent}
    {u : Update String TunnelDto} (h : e.update? = some u) :
    updates (ls ++ [(t, .publish e)]) = updates ls ++ [u] := by
  rw [updates_snoc]
  simp [Op.event?, h]

/-- The row carries the data of the entry. -/
structure TunnelDto.Matches (row : TunnelDto) (e : TunnelEntry) : Prop where
  protocol : row.protocol = protocolStr e.protocol
  localPort : row.localPort = e.localPort
  remotePort : row.remotePort = e.remotePort
  startedAt : row.startedAt = e.startedAt

/-- The table as the store should show it: one row for each key, with the data of
    its entry. -/
structure Shows (rows : List TunnelDto) (tunnels : Finmap (fun _ : String => TunnelEntry)) :
    Prop where
  once : (rows.map TunnelDto.tunnelId).Nodup
  keys : ∀ id, id ∈ rows.map TunnelDto.tunnelId ↔ id ∈ tunnels
  data : ∀ row ∈ rows, ∃ e, tunnels.lookup row.tunnelId = some e ∧ row.Matches e

/-- The rows under an id are what the entry of that id asks for. -/
def ShowsAt (rows : List TunnelDto) (id : String) : Option TunnelEntry → Prop
  | none => rowsAt TunnelDto.tunnelId id rows = []
  | some e => ∃ row, rowsAt TunnelDto.tunnelId id rows = [row] ∧ row.Matches e

theorem shows_of_showsAt {rows : List TunnelDto}
    {tunnels : Finmap (fun _ : String => TunnelEntry)}
    (h : ∀ id, ShowsAt rows id (tunnels.lookup id)) : Shows rows tunnels := by
  -- A row is under its own id, and so matches the entry there.
  have hmem : ∀ row ∈ rows, ∃ e, tunnels.lookup row.tunnelId = some e ∧ row.Matches e := by
    intro row hrow
    have hat := h row.tunnelId
    have hin : row ∈ rowsAt TunnelDto.tunnelId row.tunnelId rows := mem_rowsAt.mpr ⟨hrow, rfl⟩
    cases hl : tunnels.lookup row.tunnelId with
    | none =>
        rw [hl] at hat
        rw [show rowsAt TunnelDto.tunnelId row.tunnelId rows = [] from hat] at hin
        cases hin
    | some e =>
        rw [hl] at hat
        obtain ⟨row', hrows, hmatch⟩ := hat
        rw [hrows, List.mem_singleton] at hin
        rw [hin]
        exact ⟨e, rfl, hmatch⟩
  refine ⟨?_, ?_, hmem⟩
  · refine nodup_of_rowsAt fun id => ?_
    have hat := h id
    cases hl : tunnels.lookup id with
    | none =>
        rw [hl] at hat
        rw [show rowsAt TunnelDto.tunnelId id rows = [] from hat]
        exact Nat.zero_le 1
    | some e =>
        rw [hl] at hat
        obtain ⟨row, hrows, _⟩ := hat
        rw [hrows]
        exact Nat.le_refl 1
  · intro id
    rw [← Finmap.lookup_isSome]
    constructor
    · intro hid
      obtain ⟨row, hrow, rfl⟩ := List.mem_map.mp hid
      obtain ⟨e, he, _⟩ := hmem row hrow
      rw [he]
      rfl
    · intro hid
      obtain ⟨e, he⟩ := Option.isSome_iff_exists.mp hid
      have hat := h id
      rw [he] at hat
      obtain ⟨row, hrows, _⟩ := hat
      have hin : row ∈ rowsAt TunnelDto.tunnelId id rows := by
        rw [hrows]
        exact List.mem_singleton_self row
      obtain ⟨hrow, hkey⟩ := mem_rowsAt.mp hin
      exact List.mem_map.mpr ⟨row, hrow, hkey⟩

section Last

variable {ls : List (Tid × Op)} {id : String}

/-- What the last store update about an id says of its events. -/
def LastUpdate (id : String) (ls : List (Tid × Op)) :
    Option (Update String TunnelDto) → Prop
  | none => .opened ∉ lives id ls ∧ .closed ∉ lives id ls
  | some (.put row) => row.tunnelId = id ∧
      (∃ node, .tunnelOpened id row.protocol row.localPort row.remotePort node row.startedAt ∈
        published ls) ∧
      ∃ pre post, lives id ls = pre ++ .opened :: post ∧ .closed ∉ post
  | some (.drop _) => .closed ∈ lives id ls

/-- An operation that neither opens nor closes a tunnel of this id. -/
theorem LastUpdate.snoc {u : Option (Update String TunnelDto)} {t : Tid} {op : Op}
    (h : LastUpdate id ls u) (hopened : op.lifeOf id ≠ some .opened)
    (hclosed : op.lifeOf id ≠ some .closed) : LastUpdate id (ls ++ [(t, op)]) u := by
  rcases u with _ | row | _
  · obtain ⟨ho, hc⟩ := h
    constructor
    · rw [lives_snoc, List.mem_append, Option.mem_toList, not_or]
      exact ⟨ho, hopened⟩
    · rw [lives_snoc, List.mem_append, Option.mem_toList, not_or]
      exact ⟨hc, hclosed⟩
  · obtain ⟨hid, ⟨node, hev⟩, pre, post, hl, hpost⟩ := h
    refine ⟨hid, ⟨node, ?_⟩, pre, post ++ (op.lifeOf id).toList, ?_, ?_⟩
    · rw [published_snoc]
      exact List.mem_append_left _ hev
    · rw [lives_snoc, hl, List.append_assoc, List.cons_append]
    · rw [List.mem_append, Option.mem_toList, not_or]
      exact ⟨hpost, hclosed⟩
  · rw [LastUpdate, lives_snoc]
    exact List.mem_append_left _ h

theorem lastUpdate (id : String) (ls : List (Tid × Op)) :
    LastUpdate id ls (last? TunnelDto.tunnelId id (updates ls)) := by
  induction ls using List.reverseRecOn with
  | nil => exact ⟨List.not_mem_nil, List.not_mem_nil⟩
  | append_singleton ls a ih =>
      obtain ⟨t, op⟩ := a
      -- An event about something else leaves the last update of the tunnel what it was.
      have hother : op.lifeOf id ≠ some .opened → op.lifeOf id ≠ some .closed →
          last? TunnelDto.tunnelId id (updates (ls ++ [(t, op)])) =
            last? TunnelDto.tunnelId id (updates ls) →
          LastUpdate id (ls ++ [(t, op)])
            (last? TunnelDto.tunnelId id (updates (ls ++ [(t, op)]))) := by
        intro ho hc he
        rw [he]
        exact ih.snoc ho hc
      cases op with
      | publish e =>
          cases e with
          | tunnelOpened id' protocol localPort port node at' =>
              by_cases hid : id' = id
              · subst hid
                rw [updates_publish rfl, last?_snoc (by rfl)]
                refine ⟨rfl, ⟨node, ?_⟩, lives id' ls, [], ?_, List.not_mem_nil⟩
                · rw [published_snoc]
                  exact List.mem_append_right _ (List.mem_singleton_self _)
                · simp [lives_snoc, Op.lifeOf, Op.life?]
              · refine hother ?_ ?_ ?_
                · simp [Op.lifeOf, Op.life?, hid]
                · simp [Op.lifeOf, Op.life?, hid]
                · rw [updates_snoc]
                  exact last?_snoc_of_ne hid
          | tunnelClosed id' =>
              by_cases hid : id' = id
              · subst hid
                rw [updates_publish rfl, last?_snoc (by rfl)]
                show Life.closed ∈ lives id' (ls ++ _)
                simp [lives_snoc, Op.lifeOf, Op.life?]
              · refine hother ?_ ?_ ?_
                · simp [Op.lifeOf, Op.life?, hid]
                · simp [Op.lifeOf, Op.life?, hid]
                · rw [updates_snoc]
                  exact last?_snoc_of_ne hid
          | nodeConnected | nodeLeft =>
              refine hother ?_ ?_ ?_
              · simp [Op.lifeOf, Op.life?]
              · simp [Op.lifeOf, Op.life?]
              · rw [updates_snoc]
                simp [Op.event?, BhEvent.update?]
      | _ =>
          -- What is not published is no update.
          refine hother ?_ ?_ ?_
          · simp [Op.lifeOf, Op.life?]
          · simp [Op.lifeOf, Op.life?]
          · rw [updates_snoc]
            simp [Op.event?]

end Last

section Runs

variable {cfg : ServerConfig} {pre mid post : List (Tid × Op)} {c₁ c : Server}
  {rows : List TunnelDto} {id : String}

/-- A tunnel with no event since some moment before the snapshot is as it was in
    the snapshot. -/
theorem lookup_unmentioned (h₁ : (server cfg).Run (pre ++ mid) c₁)
    (h : (server cfg).runFrom c₁ post = some c) (hnd : (uuids (pre ++ mid ++ post)).Nodup)
    (hq : ∀ t, (c.task t).midUpdate = false) (hopened : .opened ∉ lives id (mid ++ post))
    (hclosed : .closed ∉ lives id (mid ++ post)) :
    c.shared.activeTunnels.lookup id = c₁.shared.activeTunnels.lookup id := by
  have hrun : (server cfg).Run (pre ++ mid ++ post) c := Conc.Lts.run_append.mpr ⟨c₁, h₁, h⟩
  have hnd₁ : (uuids (pre ++ mid)).Nodup := by
    rw [uuids, List.filterMap_append] at hnd
    exact (List.nodup_append.mp hnd).1
  -- an event of the whole run that is not in the last part was there at the snapshot
  have hearly : ∀ x, x ∈ lives id (pre ++ mid ++ post) → x ∉ lives id (mid ++ post) →
      x ∈ lives id (pre ++ mid) := by
    intro x hx hnot
    rw [List.append_assoc, lives_append, List.mem_append] at hx
    rw [lives_append]
    exact List.mem_append_left _ (hx.resolve_right hnot)
  cases hl : c.shared.activeTunnels.lookup id with
  | some e =>
      have hlife := settled_entry hrun hnd hq hl
      have hopen : Life.opened ∈ lives id (pre ++ mid) :=
        hearly _ (by rw [hlife]; exact List.mem_singleton_self _) hopened
      obtain he | hn := entry_after_opened h₁ h hnd hopen
      · rw [← he, hl]
      · rw [hl] at hn
        cases hn
  | none =>
      obtain ⟨hnot, _⟩ | hlife := settled_absent hrun hnd hq hl
      · cases hl₁ : c₁.shared.activeTunnels.lookup id with
        | none => rfl
        | some e =>
            obtain hs | ho := opened_of_gone h₁ h hnd (by rw [hl₁]; rfl)
            · rw [hl] at hs
              cases hs
            · exact absurd ho hnot
      · have hclose : Life.closed ∈ lives id (pre ++ mid) :=
          hearly _ (by rw [hlife]; decide) hclosed
        exact (closed_absent h₁ hnd₁ hclose).symm

/-- A tunnel whose last event is its opening has an entry, which the event
    announced. -/
theorem lookup_opened {row : TunnelDto} (h : (server cfg).Run (pre ++ post) c)
    (hnd : (uuids (pre ++ post)).Nodup) (hq : ∀ t, (c.task t).midUpdate = false)
    (hlast : LastUpdate id post (some (.put row))) :
    ∃ e, c.shared.activeTunnels.lookup id = some e ∧ row.Matches e := by
  obtain ⟨_, ⟨name, hev⟩, as, bs, hl, hbs⟩ := hlast
  cases he : c.shared.activeTunnels.lookup id with
  | some e =>
      have hmem : BhEvent.tunnelOpened id row.protocol row.localPort row.remotePort name
          row.startedAt ∈ published (pre ++ post) := by
        rw [published_append]
        exact List.mem_append_right _ hev
      obtain ⟨hp, hlp, hrp, hs⟩ := (tableInv h hnd).events id e _ he hmem rfl
      exact ⟨e, rfl, hp, hlp, hrp, hs⟩
  | none =>
      have hlife := settled_absent h hnd hq he
      rw [lives_append, hl] at hlife
      obtain ⟨hnot, _⟩ | hlife := hlife
      · exact absurd (by simp) hnot
      -- the opening is the first of the three events, so the closing comes after it
      · rw [← List.append_assoc] at hlife
        cases hfirst : lives id pre ++ as with
        | nil =>
            rw [hfirst] at hlife
            cases hlife
            exact absurd (by decide) hbs
        | cons x xs =>
            rw [hfirst, List.cons_append] at hlife
            obtain ⟨_, hrest⟩ := List.cons.inj hlife
            have hmem : Life.opened ∈ xs ++ Life.opened :: bs := by simp
            rw [hrest] at hmem
            exact absurd hmem (by decide)

/-- A snapshot under all events published since some moment before it shows, of
    each id, what the table holds. -/
theorem replay_showsAt (h₁ : (server cfg).Run (pre ++ mid) c₁)
    (h : (server cfg).runFrom c₁ post = some c) (hnd : (uuids (pre ++ mid ++ post)).Nodup)
    (hrows : Lists c₁.shared.activeTunnels rows) (hq : ∀ t, (c.task t).midUpdate = false)
    (id : String) :
    ShowsAt (replay TunnelDto.tunnelId rows (updates (mid ++ post))) id
      (c.shared.activeTunnels.lookup id) := by
  have hrun : (server cfg).Run (pre ++ (mid ++ post)) c := by
    rw [← List.append_assoc]
    exact Conc.Lts.run_append.mpr ⟨c₁, h₁, h⟩
  have hnd' : (uuids (pre ++ (mid ++ post))).Nodup := by
    rw [← List.append_assoc]
    exact hnd
  have hlast := lastUpdate id (mid ++ post)
  have hat : rowsAt TunnelDto.tunnelId id (replay TunnelDto.tunnelId rows (updates (mid ++ post))) =
    _ := rowsAt_replay
  generalize last? TunnelDto.tunnelId id (updates (mid ++ post)) = u at hlast hat
  rcases u with _ | row | _
  · rw [lookup_unmentioned h₁ h hnd hq hlast.1 hlast.2]
    have hat := hat.trans hrows.rowsAt
    cases hl : c₁.shared.activeTunnels.lookup id with
    | none => rw [hl] at hat; exact hat
    | some e => rw [hl] at hat; exact ⟨TunnelDto.of id e, hat, rfl, rfl, rfl, rfl⟩
  · obtain ⟨e, he, hmatch⟩ := lookup_opened hrun hnd' hq hlast
    rw [he]
    exact ⟨row, hat, hmatch⟩
  · have hclosed : Life.closed ∈ lives id (pre ++ (mid ++ post)) := by
      rw [lives_append]
      exact List.mem_append_right _ hlast
    rw [closed_absent hrun hnd' hclosed]
    exact hat

/-- A client subscribes after `pre` and takes its snapshot after `mid`.  The
    snapshot and, over it, the events published since the subscription show
    exactly the table wherever no session is between updating the table and
    publishing the matching event. -/
theorem snapshot_replay (h : (server cfg).Run (pre ++ mid ++ post) c)
    (h₁ : (server cfg).Run (pre ++ mid) c₁) (hnd : (uuids (pre ++ mid ++ post)).Nodup)
    (hrows : Lists c₁.shared.activeTunnels rows) (hq : ∀ t, (c.task t).midUpdate = false) :
    Shows ((published (mid ++ post)).foldl handleEvent rows) c.shared.activeTunnels := by
  obtain ⟨c₂, h₂, hpost⟩ := Conc.Lts.run_append.mp h
  rw [← h₁.functional h₂] at hpost
  rw [foldl_handleEvent]
  exact shows_of_showsAt (replay_showsAt h₁ hpost hnd hrows hq)

/-- No session is between update and event if none of those that have run is. -/
theorem settled_of_run {ls : List (Tid × Op)} {ts : List Tid} (h : (server cfg).Run ls c)
    (hts : ∀ a ∈ ls, a.1 ∈ ts ∧ a.2.child = none) (hq : ∀ t ∈ ts, (c.task t).midUpdate = false)
    (t : Tid) : (c.task t).midUpdate = false := by
  by_cases ht : t ∈ ts
  · exact hq t ht
  · have hidle : c.task t = .idle := Conc.Tasks.run_untouched h fun a ha =>
      ⟨fun he => ht (he ▸ (hts a ha).1), by
        rw [show (serverTasks cfg).child a.2 = a.2.child from rfl, (hts a ha).2]
        exact nofun⟩
    rw [hidle]
    rfl

/-- Tunnel `t` is announced between subscription and snapshot and closes after
    it, and tunnel `u` opens on its port. -/
theorem snapshot_replay_portReused :
    ∃ c c₁, (server onePort).Run portReused c ∧
      (server onePort).Run
        (nodeVisible ++ nodeAnswered ++ cliOrdered ++ cliExposed ++ cliAnswered) c₁ ∧
      Shows ((published (cliAnswered ++ (cliClosed ++ cliReused))).foldl handleEvent
        [TunnelDto.of "t" (ServeCliViaNode.entry ⟨1, anyPort⟩ ⟨"t", 7000⟩ fra 0)])
        c.shared.activeTunnels := by
  obtain ⟨c₁, h₁, hrows⟩ : ∃ c₁, (server onePort).Run
      (nodeVisible ++ nodeAnswered ++ cliOrdered ++ cliExposed ++ cliAnswered) c₁ ∧
      Lists c₁.shared.activeTunnels
        [TunnelDto.of "t" (ServeCliViaNode.entry ⟨1, anyPort⟩ ⟨"t", 7000⟩ fra 0)] :=
    Conc.Lts.exists_run (by decide)
  obtain ⟨c, h, hq⟩ : ∃ c, (server onePort).Run portReused c ∧
      ∀ t ∈ ([1, 2, 3] : List Nat), (c.task t).midUpdate = false :=
    Conc.Lts.exists_run (by decide)
  have hsettled := settled_of_run h (by decide) hq
  have hrun : portReused = nodeVisible ++ nodeAnswered ++ cliOrdered ++ cliExposed ++ cliAnswered ++
      (cliClosed ++ cliReused) := by simp [portReused]
  rw [hrun] at h ⊢
  exact ⟨c, c₁, h, h₁, snapshot_replay h h₁ (by decide) hrows hsettled⟩

end Runs

end Borehole
