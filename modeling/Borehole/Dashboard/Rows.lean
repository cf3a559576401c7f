/-
  Borehole.Dashboard.Rows

  The two rows of one tunnel: the one that `handleEvent`
  (src/web/src/routes/+layout.svelte) builds from `TunnelOpened`, and the one that
  `GET /api/tunnels` makes of the entry.

  The event carries no hostname and an empty string for an absent node, so the two
  rows agree on a tunnel without a hostname whose node, if it has one, has a name.
-/

import Borehole.Dashboard.Store
import Borehole.Server.Devices

namespace Borehole

open Conc Conc.Tasks Replay

/-- A dashboard that applies the event has the row of the tunnel that one has which
    loads the tunnels while the entry is in the table. -/
def SameRow (id : String) (event : BhEvent) (e : TunnelEntry) : Prop :=
  ∀ list tunnels rows, tunnels.lookup id = some e → Lists tunnels rows →
    rowsAt TunnelDto.tunnelId id (handleEvent list event) = rowsAt TunnelDto.tunnelId id rows

section Rows

variable {id protocol name : String} {localPort remotePort : UInt16} {startedAt : DateTime}
  {e : TunnelEntry}

theorem rowsAt_handleEvent (list : List TunnelDto) :
    rowsAt TunnelDto.tunnelId id
        (handleEvent list (.tunnelOpened id protocol localPort remotePort name startedAt)) =
      [openedRow id protocol localPort remotePort name startedAt] :=
  @rowsAt_after_self _ _ _ TunnelDto.tunnelId list
    (.put (openedRow id protocol localPort remotePort name startedAt))

/-- The table of one tunnel and its snapshot. -/
theorem lists_singleton : Lists (Finmap.singleton id e) [TunnelDto.of id e] := by
  refine ⟨List.nodup_singleton _, ?_, ?_⟩
  · rfl
  · intro row hrow
    rw [List.mem_singleton.mp hrow]
    exact ⟨e, Finmap.lookup_singleton_eq, rfl⟩

theorem sameRow_iff :
    SameRow id (.tunnelOpened id protocol localPort remotePort name startedAt) e ↔
      openedRow id protocol localPort remotePort name startedAt = TunnelDto.of id e := by
  constructor
  · intro h
    have hrows := h [] _ _ Finmap.lookup_singleton_eq lists_singleton
    rw [rowsAt_handleEvent, lists_singleton.rowsAt, Finmap.lookup_singleton_eq] at hrows
    exact List.singleton_inj.mp hrows
  · intro h list tunnels rows hl hlists
    rw [rowsAt_handleEvent, hlists.rowsAt, hl, h]
    rfl

/-- On the direct path the rows differ in the device. -/
theorem directRow_iff {s : SessionCtx} {ctx : TunnelCtx} :
    SameRow ctx.tunnelId (ServeCliDirect.opened s ctx startedAt)
        (ServeCliDirect.entry s ctx startedAt) ↔ s.register.hostname = none := by
  rw [ServeCliDirect.opened, sameRow_iff]
  simp [openedRow, TunnelDto.of, ServeCliDirect.entry, eq_comm]

/-- Through a node they also differ in the node, if its name is empty. -/
theorem viaNodeRow_iff {s : SessionCtx} {ctx : TunnelCtx} {node : NodeInfo} :
    SameRow ctx.tunnelId (ServeCliViaNode.opened s ctx node startedAt)
        (ServeCliViaNode.entry s ctx node startedAt) ↔
      s.register.hostname = none ∧ node.name ≠ "" := by
  rw [ServeCliViaNode.opened, sameRow_iff]
  by_cases hname : node.name = ""
  · simp [openedRow, TunnelDto.of, ServeCliViaNode.entry, hname]
  · simp [openedRow, TunnelDto.of, ServeCliViaNode.entry, hname, eq_comm]

end Rows

/-! ## What a session does for its rows -/

/-- The operations of a session that decide its rows. -/
inductive RowMark where
  | picked (node : Option NodeInfo)
  /-- A node's channel takes `OpenTunnel`. -/
  | ordered
  | inserted (id : String) (e : TunnelEntry)
  | opened (event : BhEvent)

/-- The mark that an operation leaves. -/
def Op.rowMark? : Op → Option RowMark
  | .pick _ got => some (.picked got)
  | .sendUnlock _ (.openTunnel _) true => some .ordered
  | .insertTunnel id e => some (.inserted id e)
  | .publish (.tunnelOpened id protocol localPort remotePort node startedAt) =>
      some (.opened (.tunnelOpened id protocol localPort remotePort node startedAt))
  | _ => none

/-- The marks of a session, in order. -/
def rowMarks (ops : List Op) : List RowMark :=
  ops.filterMap Op.rowMark?

@[simp] theorem rowMarks_snoc (ops : List Op) (op : Op) :
    rowMarks (ops ++ [op]) = rowMarks ops ++ op.rowMark?.toList := by
  rw [rowMarks, List.filterMap_append, rowMarks]
  cases h : op.rowMark? <;> simp [h]

theorem append_unmarked {ms : List RowMark} {op : Op} (h : op.rowMark? = none) :
    ms ++ op.rowMark?.toList = ms := by
  rw [h, Option.toList_none, List.append_nil]

section Trails

variable (s : SessionCtx) (ctx : TunnelCtx)

/-- A session that served its tunnel itself. -/
def ServedDirect (ms : List RowMark) : Prop :=
  ∃ got t, ms = [.picked got, .inserted ctx.tunnelId (ServeCliDirect.entry s ctx t),
    .opened (ServeCliDirect.opened s ctx t)]

/-- A session whose tunnel a node served. -/
def ServedViaNode (ms : List RowMark) : Prop :=
  ∃ node t, ms = [.picked (some node), .ordered,
    .inserted ctx.tunnelId (ServeCliViaNode.entry s ctx node t),
    .opened (ServeCliViaNode.opened s ctx node t)]

/-- A session that has gone through one of the two paths. -/
def Served (ms : List RowMark) : Prop :=
  (∀ event, .opened event ∉ ms) ∨ ServedDirect s ctx ms ∨ ServedViaNode s ctx ms

/-- What `serve_cli_direct` has done, after `picked got`. -/
def ServeCliDirect.Pc.RowTrail (got : Option NodeInfo) (ms : List RowMark) :
    ServeCliDirect.Pc → Prop
  | .publish t => ms = [.picked got, .inserted ctx.tunnelId (entry s ctx t)]
  | .serve _ => ∃ t, ms =
      [.picked got, .inserted ctx.tunnelId (entry s ctx t), .opened (opened s ctx t)]
  | _ => ms = [.picked got]

/-- The marks that a session through a node has left. -/
def ServeCliViaNode.Pc.RowTrail (node : NodeInfo) (ms : List RowMark) : ServeCliViaNode.Pc → Prop
  | .lockNode | .openTunnel | .lockFallback => ms = [.picked (some node)]
  | .fallback pc => pc.RowTrail s ctx (some node) ms
  | .unlockFallback => Served s ctx ms
  | .startedAt | .record _ => ms = [.picked (some node), .ordered]
  | .increment t | .publish t =>
      ms = [.picked (some node), .ordered, .inserted ctx.tunnelId (entry s ctx node t)]
  | .lockCli | .registered | .select | .lockClose | .closeTunnel | .decrement =>
      ServedViaNode s ctx ms

/-- The marks that a session has left. -/
def HandleCli.Pc.RowTrail (ms : List RowMark) : HandleCli.Pc → Prop
  | .direct ctx pc => pc.RowTrail s ctx none ms
  | .viaNode ctx node pc => pc.RowTrail s ctx node ms
  | .remove ctx | .endedAt ctx _ | .archive ctx _ _ | .closed ctx | .release ctx
  | .done (some ctx) => Served s ctx ms
  | _ => ms = []

end Trails

section Steps

variable {s : SessionCtx} {ctx : TunnelCtx} {got : Option NodeInfo} {node : NodeInfo}
  {ms : List RowMark} {op : Op}

theorem ServeTunnel.Step.rowMark {pc : ServeTunnel.Pc} {f : Flow ServeTunnel.Pc}
    (h : ServeTunnel.Step s ctx pc op f) : op.rowMark? = none := by
  cases h <;> rfl

theorem ServeCliDirect.Step.rowTrail {pc pc' : ServeCliDirect.Pc}
    (h : ServeCliDirect.Step s ctx pc op (.at pc')) (hi : pc.RowTrail s ctx got ms) :
    pc'.RowTrail s ctx got (ms ++ op.rowMark?.toList) := by
  cases h with
  | bound | bindFailed | registered | startedAt =>
      rw [append_unmarked]
      · exact hi
      · rfl
  | record =>
      rw [show ms = [.picked got] from hi]
      rfl
  | @publish t =>
      rw [show ms = _ from hi]
      exact ⟨t, rfl⟩
  | serve hs =>
      rw [append_unmarked hs.rowMark]
      exact hi

/-- `serve_cli_direct` returns without a row or with both. -/
theorem ServeCliDirect.Step.servedRows {pc : ServeCliDirect.Pc}
    (h : ServeCliDirect.Step s ctx pc op .ret) (hi : pc.RowTrail s ctx got ms) :
    Served s ctx (ms ++ op.rowMark?.toList) := by
  cases h with
  | rejected | registerFailed =>
      rw [show ms = [.picked got] from hi]
      exact Or.inl (by simp [Op.rowMark?])
  | served hs =>
      obtain ⟨t, ht⟩ := hi
      rw [append_unmarked hs.rowMark, ht]
      exact Or.inr (Or.inl ⟨got, t, rfl⟩)

theorem ServeCliViaNode.Step.rowTrail {pc pc' : ServeCliViaNode.Pc}
    (h : ServeCliViaNode.Step s ctx node pc op (.at pc')) (hi : pc.RowTrail s ctx node ms) :
    pc'.RowTrail s ctx node (ms ++ op.rowMark?.toList) := by
  cases h with
  | lockNode | unreachable | lockFallback | startedAt | increment =>
      rw [show ms = _ from hi]
      rfl
  | opened | record =>
      rw [show ms = _ from hi]
      rfl
  | fallback hs => exact hs.rowTrail hi
  | fellBack hs => exact hs.servedRows hi
  | @publish t =>
      rw [show ms = _ from hi]
      exact ⟨node, t, rfl⟩
  | lockCli | registered | closed | disconnected | ignored | lockClose | closeTunnel =>
      rw [append_unmarked]
      · exact hi
      · rfl

theorem ServeCliViaNode.Step.servedRows {pc : ServeCliViaNode.Pc}
    (h : ServeCliViaNode.Step s ctx node pc op .ret) (hi : pc.RowTrail s ctx node ms) :
    Served s ctx (ms ++ op.rowMark?.toList) := by
  cases h with
  | unlockFallback =>
      rw [append_unmarked]
      · exact hi
      · rfl
  | decrement =>
      rw [append_unmarked]
      · exact Or.inr (Or.inr hi)
      · rfl

theorem HandleCli.Step.rowTrail {tokens : List String} {pc pc' : HandleCli.Pc}
    (h : HandleCli.Step tokens s pc op pc') (hi : pc.RowTrail s ms) :
    pc'.RowTrail s (ms ++ op.rowMark?.toList) := by
  cases h with
  | badToken | hostname | anonymous | rejected | deviceNow | device | acquireSpecific | taken
  | acquire | exhausted | tunnelId | picked | noNode =>
      rw [show ms = [] from hi]
      rfl
  | direct hs => exact hs.rowTrail hi
  | directRet hs => exact hs.servedRows hi
  | viaNode hs => exact hs.rowTrail hi
  | viaNodeRet hs => exact hs.servedRows hi
  | removed | notRecorded | endedAt | archive | closed | release =>
      rw [append_unmarked]
      · exact hi
      · rfl

/-- Both rows are those of one path. -/
theorem HandleCli.Pc.RowTrail.opened {pc : HandleCli.Pc} {event : BhEvent}
    (h : pc.RowTrail s ms) (hm : .opened event ∈ ms) :
    ∃ ctx, ServedDirect s ctx ms ∨ ServedViaNode s ctx ms := by
  have hserved : ∀ ctx, Served s ctx ms →
      ∃ ctx, ServedDirect s ctx ms ∨ ServedViaNode s ctx ms := by
    rintro ctx (hnone | h)
    · exact absurd hm (hnone event)
    · exact ⟨ctx, h⟩
  have hdirect : ∀ ctx got (pc : ServeCliDirect.Pc), pc.RowTrail s ctx got ms →
      ∃ ctx, ServedDirect s ctx ms ∨ ServedViaNode s ctx ms := by
    intro ctx got pc h
    cases pc with
    | serve pc =>
        obtain ⟨t, ht⟩ := h
        exact ⟨ctx, Or.inl ⟨got, t, ht⟩⟩
    | _ =>
        rw [show ms = _ from h] at hm
        simp at hm
  cases pc with
  | direct ctx pc => exact hdirect ctx none pc h
  | viaNode ctx node pc =>
      cases pc with
      | fallback pc => exact hdirect ctx (some node) pc h
      | unlockFallback => exact hserved ctx h
      | lockCli | registered | select | lockClose | closeTunnel | decrement =>
          exact ⟨ctx, Or.inr h⟩
      | _ =>
          rw [show ms = _ from h] at hm
          simp at hm
  | remove ctx | endedAt ctx _ | archive ctx _ _ | closed ctx | release ctx => exact hserved ctx h
  | done ctx =>
      cases ctx with
      | none =>
          rw [show ms = [] from h] at hm
          cases hm
      | some ctx => exact hserved ctx h
  | _ =>
      rw [show ms = [] from h] at hm
      cases hm

end Steps

/-- What a session has done for its rows, where it stands. -/
def ServerTask.RowTrail (t : Tid) (ms : List RowMark) : ServerTask → Prop
  | .idle => ms = []
  | .cli register pc => pc.RowTrail ⟨t, register⟩ ms
  | _ => True

section Runs

variable {cfg : ServerConfig} {ls : List (Tid × Op)} {c : Server} {t : Tid}

theorem rowTrail_run (hr : (server cfg).Run ls c) (t : Tid) :
    (c.task t).RowTrail t (rowMarks (opsOf t ls)) := by
  refine run_history (P := fun t ops k => k.RowTrail t (rowMarks ops)) hr (fun _ => rfl) ?_ ?_ t
  · intro t ops k op k' hi hn
    have hs := next_step hn
    rw [rowMarks_snoc]
    cases hs with
    | @connect peer first =>
        rw [show rowMarks ops = [] from hi]
        obtain _ | _ | m := first
        · trivial
        · trivial
        · cases m <;> first | rfl | trivial
    | cli hs => exact hs.rowTrail hi
    | _ => trivial
  · intro t u ops k op k' hi _ ha
    cases adopt_step ha <;> trivial

/-- The session's tunnel goes through a node: the node was picked, and its channel
    took the order to open the tunnel. -/
def ViaNode (ls : List (Tid × Op)) (t : Tid) (node : NodeInfo) : Prop :=
  (∃ wanted, (t, .pick wanted (some node)) ∈ ls) ∧
    ∃ w order, (t, .sendUnlock w (.openTunnel order) true) ∈ ls

theorem mem_rowMarks {m : RowMark} :
    m ∈ rowMarks (opsOf t ls) ↔ ∃ op, (t, op) ∈ ls ∧ op.rowMark? = some m := by
  rw [rowMarks, List.mem_filterMap]
  simp only [mem_opsOf]

theorem viaNode_iff {node : NodeInfo} : ViaNode ls t node ↔
    .picked (some node) ∈ rowMarks (opsOf t ls) ∧ .ordered ∈ rowMarks (opsOf t ls) := by
  rw [mem_rowMarks, mem_rowMarks, ViaNode]
  refine and_congr ⟨?_, ?_⟩ ⟨?_, ?_⟩
  · rintro ⟨wanted, h⟩
    exact ⟨_, h, rfl⟩
  · rintro ⟨op, h, hop⟩
    revert hop
    fun_cases Op.rowMark? op <;> intro hop <;> cases hop
    exact ⟨_, h⟩
  · rintro ⟨w, order, h⟩
    exact ⟨_, h, rfl⟩
  · rintro ⟨op, h, hop⟩
    revert hop
    fun_cases Op.rowMark? op <;> intro hop <;> cases hop
    exact ⟨_, _, h⟩

theorem inserted_iff {id : String} {e : TunnelEntry} :
    (t, .insertTunnel id e) ∈ ls ↔ .inserted id e ∈ rowMarks (opsOf t ls) := by
  rw [mem_rowMarks]
  constructor
  · intro h
    exact ⟨_, h, rfl⟩
  · rintro ⟨op, h, hop⟩
    revert hop
    fun_cases Op.rowMark? op <;> intro hop <;> cases hop
    exact h

/-- The event of a tunnel makes the row of its entry exactly if the register names no
    host and the tunnel goes through no node with an empty name. -/
theorem event_row_iff {register : Register} {pc : HandleCli.Pc} {id protocol name : String}
    {localPort remotePort : UInt16} {startedAt : DateTime} (hr : (server cfg).Run ls c)
    (ht : c.task t = .cli register pc)
    (hev : (t, .publish (.tunnelOpened id protocol localPort remotePort name startedAt)) ∈ ls) :
    ∃ e, (∀ id' e', (t, .insertTunnel id' e') ∈ ls ↔ id' = id ∧ e' = e) ∧
      (SameRow id (.tunnelOpened id protocol localPort remotePort name startedAt) e ↔
        register.hostname = none ∧ ∀ node, ViaNode ls t node → node.name ≠ "") := by
  have htrail := rowTrail_run hr t
  rw [ht] at htrail
  have hm : .opened (.tunnelOpened id protocol localPort remotePort name startedAt) ∈
      rowMarks (opsOf t ls) := mem_rowMarks.mpr ⟨_, hev, rfl⟩
  obtain ⟨ctx, ⟨got, at', hms⟩ | ⟨node, at', hms⟩⟩ := HandleCli.Pc.RowTrail.opened htrail hm
  · rw [hms] at hm
    have hopened : ServeCliDirect.opened ⟨t, register⟩ ctx at' =
        .tunnelOpened id protocol localPort remotePort name startedAt := by
      simpa [eq_comm] using hm
    cases hopened
    -- A direct tunnel has one entry, and no node.
    refine ⟨ServeCliDirect.entry ⟨t, register⟩ ctx startedAt, ?_, directRow_iff.trans ?_⟩
    · intro id' e'
      rw [inserted_iff, hms]
      simp
    · have hnode : ∀ node, ¬ ViaNode ls t node := by
        intro node hvia
        have hordered := (viaNode_iff.mp hvia).2
        rw [hms] at hordered
        simp at hordered
      exact (and_iff_left fun node h => absurd h (hnode node)).symm
  · rw [hms] at hm
    have hopened : ServeCliViaNode.opened ⟨t, register⟩ ctx node at' =
        .tunnelOpened id protocol localPort remotePort name startedAt := by
      simpa [eq_comm] using hm
    cases hopened
    -- A tunnel through a node has one entry, under the node that it has picked.
    refine ⟨ServeCliViaNode.entry ⟨t, register⟩ ctx node startedAt, ?_, viaNodeRow_iff.trans ?_⟩
    · intro id' e'
      rw [inserted_iff, hms]
      simp
    · have hnode : ∀ node', ViaNode ls t node' ↔ node' = node := by
        intro node'
        rw [viaNode_iff, hms]
        simp
      simp only [hnode, forall_eq]

/-- A tunnel of a register that names its host. -/
def laptopRun : List (Tid × Op) :=
  [(1, .connect "10.0.0.1" (some (some (.register laptop)))), (1, .compute), (1, .now 10),
   (1, .upsertDevice "laptop" 10 "d"), (1, .acquire (some 7000)), (1, .uuid "t"),
   (1, .pick none none), (1, .bind 7000 true),
   (1, .send 1 (ServeCliDirect.registeredMsg ⟨"t", 7000⟩) true), (1, .now 11),
   (1, .insertTunnel "t" (ServeCliDirect.entry ⟨1, laptop⟩ ⟨"t", 7000⟩ 11)),
   (1, .publish (.tunnelOpened "t" "tcp" 3000 7000 "" 11))]

theorem event_row_iff_laptop : ∃ c e, (server onePort).Run laptopRun c ∧
    (∀ id' e', (1, .insertTunnel id' e') ∈ laptopRun ↔ id' = "t" ∧ e' = e) ∧
    (SameRow "t" (.tunnelOpened "t" "tcp" 3000 7000 "" 11) e ↔
      laptop.hostname = none ∧ ∀ node, ViaNode laptopRun 1 node → node.name ≠ "") := by
  obtain ⟨c, hr, ht⟩ : ∃ c, (server onePort).Run laptopRun c ∧
      c.task 1 = .cli laptop (.direct ⟨"t", 7000⟩ (.serve .select)) := ⟨_, rfl, rfl⟩
  have hev : (1, .publish (.tunnelOpened "t" "tcp" 3000 7000 "" 11)) ∈ laptopRun := by
    simp [laptopRun]
  obtain ⟨e, he⟩ := event_row_iff hr ht hev
  exact ⟨c, e, hr, he⟩

/-- The event's row has no device, and the entry's has. -/
theorem event_row_device : ∃ c e, (server onePort).Run laptopRun c ∧
    (1, .insertTunnel "t" e) ∈ laptopRun ∧
    (1, .publish (.tunnelOpened "t" "tcp" 3000 7000 "" 11)) ∈ laptopRun ∧
    c.shared.activeTunnels.lookup "t" = some e ∧
    ¬ SameRow "t" (.tunnelOpened "t" "tcp" 3000 7000 "" 11) e := by
  obtain ⟨c, hr, hl⟩ : ∃ c, (server onePort).Run laptopRun c ∧
      c.shared.activeTunnels.lookup "t" =
        some (ServeCliDirect.entry ⟨1, laptop⟩ ⟨"t", 7000⟩ 11) := Lts.exists_run (by decide)
  refine ⟨c, _, hr, by simp [laptopRun], by simp [laptopRun], hl, ?_⟩
  rw [sameRow_iff]
  decide

end Runs

end Borehole
