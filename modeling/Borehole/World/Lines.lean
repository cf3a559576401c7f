/-
  Borehole.World.Lines

  What the two ends of a node's control stream make of lines that are no message
  they act on: `handle_node` (crates/server/src/control.rs) and `serve_orders`
  (crates/node/src/main.rs).

  Both skip a line that is no message, and a message that they do not expect.  But a
  line that is not text is an error of `read_line`, on which both end the session.
-/

import Borehole.Common.Lines
import Borehole.Node.Pending
import Borehole.Server.Handshake

namespace Borehole

open Conc Conc.Tasks

/-! ## `handle_node` -/

section Server

/-- The session is in its loop. -/
def HandleNode.Pc.up : HandleNode.Pc → Bool
  | .read _ | .forward _ _ _ => true
  | _ => false

/-- The messages that `handle_node` acts on. -/
def HandleNode.expects : Line → Bool
  | some (.visitorConn _) => true
  | _ => false

/-- The line of a control stream that an operation reads. -/
def Op.line? : Op → Option (Option Line)
  | .readLine line => some line
  | _ => none

variable {cfg : ServerConfig} {c c' : Server} {t u : Tid} {host : String} {reg : RegisterNode}
  {pc : HandleNode.Pc} {op : Op}

/-- A node session takes its own steps and is not touched by others. -/
theorem nodeSession_step (hc : c.task t = .node host reg pc)
    (h : (server cfg).step c (u, op) = some c') :
    (u = t ∧ ∃ pc', HandleNode.Step cfg.tokens t host reg pc op pc' ∧
      c'.task t = .node host reg pc') ∨
    u ≠ t ∧ c'.task t = .node host reg pc := by
  by_cases hu : u = t
  · subst hu
    have hs := server_step_self h
    rw [hc] at hs
    generalize c'.task u = k' at hs ⊢
    cases hs with
    | node hs => exact Or.inl ⟨rfl, _, hs, rfl⟩
  · obtain he | ⟨_, ha⟩ := server_step_other h (Ne.symm hu)
    · exact Or.inr ⟨hu, he.trans hc⟩
    · rw [hc] at ha
      generalize c'.task t = k' at ha
      cases ha

theorem HandleNode.Step.up {tokens : List String} {pc' : HandleNode.Pc}
    (h : HandleNode.Step tokens t host reg pc op pc') (hup : pc.up = true)
    (hop : op.line? ≠ some none) : pc'.up = true := by
  cases h with
  | disconnected => exact absurd rfl hop
  | report | ignored | forward | forwarded => rfl
  | _ => cases hup

/-- A line without a report leaves the session where it is. -/
theorem HandleNode.Step.ignores {tokens : List String} {pc' : HandleNode.Pc} {line : Line}
    (h : HandleNode.Step tokens t host reg pc op pc') (hop : op.line? = some (some line))
    (hline : HandleNode.expects line = false) : pc' = pc ∧ op = .readLine (some line) := by
  cases h with
  | disconnected => cases hop
  | report =>
      cases hop
      cases hline
  | ignored =>
      cases hop
      exact ⟨rfl, rfl⟩
  | forward hs => cases hs <;> cases hop
  | forwarded hs => cases hs <;> cases hop
  | _ => cases hop

variable (cfg t host reg) in
/-- The loop of a node session on the server. -/
def nodeLoop : Reader (server cfg) Line where
  read? a := if a.1 = t then a.2.line? else none
  wanted := HandleNode.expects
  At c := ∃ pc, c.task t = .node host reg pc
  Up c := ∃ pc, c.task t = .node host reg pc ∧ pc.up = true
  at_step := by
    rintro c ⟨u, op⟩ c' ⟨pc, hc⟩ hs
    obtain ⟨-, pc', -, hc'⟩ | ⟨-, hc'⟩ := nodeSession_step hc hs
    · exact ⟨pc', hc'⟩
    · exact ⟨pc, hc'⟩
  up_step := by
    rintro c ⟨u, op⟩ c' ⟨pc, hc, hup⟩ hs hread
    obtain ⟨rfl, pc', hstep, hc'⟩ | ⟨-, hc'⟩ := nodeSession_step hc hs
    · exact ⟨pc', hc', hstep.up hup (by simpa using hread)⟩
    · exact ⟨pc, hc', hup⟩
  skip := by
    rintro c ⟨u, op⟩ c' line ⟨pc, hc⟩ hs hread hline
    obtain ⟨rfl, pc', hstep, hc'⟩ | ⟨hu, -⟩ := nodeSession_step hc hs
    · obtain ⟨rfl, rfl⟩ := hstep.ignores (by simpa using hread) hline
      exact step_still hs rfl (Option.some.inj (server_step_exec hs)).symm (hc'.trans hc.symm)
    · rw [if_neg hu] at hread
      cases hread

/-- A session whose reports are of no tunnel comes back to its loop after any line. -/
theorem nodeLoop_back {id : String} (hc : c.task t = .node host reg (.read id))
    (hnone : c.shared.activeTunnels = ∅) (line : Line) :
    ∃ ls, (server cfg).runFrom c ls = some c ∧
      (nodeLoop cfg t host reg).reads ls = [some line] := by
  -- Operations that change nothing and end at the `read` are a loop of the server.
  have hback : ∀ ops : List Op, (∀ op ∈ ops, c.shared.exec t op = some c.shared) →
      (∀ op ∈ ops, op.child = none) →
      ops.foldlM (ServerTask.next cfg.tokens t) (.node host reg (.read id)) =
        some (.node host reg (.read id)) →
      (server cfg).runFrom c (ops.map (t, ·)) = some c := by
    intro ops hexec hchild hnext
    rw [← hc] at hnext
    have hr : (server cfg).runFrom c (ops.map (t, ·)) =
        some ⟨c.shared, Function.update c.task t (c.task t)⟩ := runFrom_alone hexec hchild hnext
    rwa [Function.update_eq_self] at hr
  cases hline : HandleNode.expects line with
  | true =>
      -- A report of no tunnel: the lookup finds no route.
      obtain ⟨report, rfl⟩ : ∃ report, line = some (.visitorConn report) := by
        rcases line with _ | m
        · cases hline
        · cases m <;> first | exact ⟨_, rfl⟩ | cases hline
      refine ⟨[(t, .readLine (some (some (.visitorConn report)))),
        (t, .getRoute report.tunnelId none)], hback [_, _] ?_ ?_ ?_, ?_⟩
      · intro op hop
        rw [List.mem_cons, List.mem_singleton] at hop
        obtain rfl | rfl := hop
        · rfl
        · simp [ServerState.exec, hnone]
      · intro op hop
        rw [List.mem_cons, List.mem_singleton] at hop
        obtain rfl | rfl := hop <;> rfl
      · simp [ServerTask.next, handleNode, forwardVisitor, Flow.resume]
      · simp [Reader.reads, nodeLoop, Op.line?]
  | false =>
      -- Any other line is ignored.
      refine ⟨[(t, .readLine (some line))], hback [_] ?_ ?_ ?_, ?_⟩
      · intro op hop
        rw [List.mem_singleton.mp hop]
        rfl
      · intro op hop
        rw [List.mem_singleton.mp hop]
        rfl
      · rcases line with _ | m
        · rfl
        · cases m <;> first | rfl | cases hline
      · simp [Reader.reads, nodeLoop, Op.line?]

/-- A session ends where it reads no line. -/
theorem nodeLoop_end {id : String} (hc : c.task t = .node host reg (.read id)) :
    ∃ a c', (server cfg).step c a = some c' ∧ (nodeLoop cfg t host reg).read? a = some none ∧
      ¬ (nodeLoop cfg t host reg).Up c' := by
  have hnext : (serverTasks cfg).next t (c.task t) (.readLine none) =
      some (.node host reg (.remove id)) := by
    rw [hc]
    rfl
  have hs := step_of_next hnext rfl rfl
  refine ⟨(t, .readLine none), _, hs, if_pos rfl, ?_⟩
  rintro ⟨pc, hpc, hup⟩
  have htask := step_next hs
  rw [hnext, hpc] at htask
  cases htask
  cases hup

end Server

/-! ## `serve_orders` -/

namespace Node

/-- Session `s` is in its loop. -/
def RunSession.Pc.up (s : Nat) : RunSession.Pc → Bool
  | .orders s' _ | .bind s' _ _ | .spawn s' _ _ | .close s' _ _ _ => s' = s
  | _ => false

/-- The messages that `serve_orders` acts on. -/
def RunSession.expects : Line → Bool
  | some (.openTunnel _) | some (.closeTunnel _) => true
  | _ => false

/-- The line of session `s` that an operation reads. -/
def Op.orderLine? (s : Nat) : Op → Option (Option Line)
  | .readOrder s' line => if s' = s then some line else none
  | _ => none

variable {c c' : NodeConf} {t : Tid} {pc : RunSession.Pc} {op : Op} {s : Nat}

/-- The main task takes its own steps and is not touched by others. -/
theorem mainTask_step (hc : c.task 0 = .session pc) (h : node.step c (t, op) = some c') :
    (t = 0 ∧ ∃ pc', RunSession.Step pc op pc' ∧ c'.task 0 = .session pc') ∨
      t ≠ 0 ∧ c'.task 0 = .session pc := by
  by_cases ht : t = 0
  · subst ht
    have hs := node_step_self h
    rw [hc] at hs
    generalize c'.task 0 = k' at hs ⊢
    cases hs with
    | session hs => exact Or.inl ⟨rfl, _, hs, rfl⟩
  · obtain he | ⟨_, ha⟩ := node_step_other h (Ne.symm ht)
    · exact Or.inr ⟨ht, he.trans hc⟩
    · rw [hc] at ha
      generalize c'.task 0 = k' at ha
      cases ha

theorem serveOrder_up (tunnels : Tunnels) (line : Line) :
    (serveOrder s tunnels (some line)).up s = true := by
  rcases line with _ | m
  · exact decide_eq_true rfl
  · cases m with
    | closeTunnel order =>
        rw [serveOrder]
        split <;> exact decide_eq_true rfl
    | _ => exact decide_eq_true rfl

theorem serveOrder_ignores {tunnels : Tunnels} {line : Line}
    (hline : RunSession.expects line = false) :
    serveOrder s tunnels (some line) = .orders s tunnels := by
  rcases line with _ | m
  · rfl
  · cases m with
    | openTunnel | closeTunnel => cases hline
    | _ => rfl

theorem RunSession.Step.up {pc' : RunSession.Pc} (h : RunSession.Step pc op pc')
    (hup : pc.up s = true) (hop : op.orderLine? s ≠ some none) : pc'.up s = true := by
  cases h with
  | @order s' tunnels line =>
      obtain rfl : s' = s := of_decide_eq_true hup
      cases line with
      | none => exact absurd (if_pos rfl) hop
      | some line => exact serveOrder_up tunnels line
  | bound | bindFailed | spawnLoop | close => exact hup
  | _ => cases hup

/-- A line without an order leaves the session where it is. -/
theorem RunSession.Step.ignores {pc' : RunSession.Pc} {line : Line}
    (h : RunSession.Step pc op pc') (hop : op.orderLine? s = some (some line))
    (hline : RunSession.expects line = false) : pc' = pc ∧ op = .readOrder s (some line) := by
  cases h with
  | @order s' tunnels line' =>
      rw [Op.orderLine?] at hop
      split at hop
      · rename_i hs
        cases hop
        rw [hs, serveOrder_ignores hline]
        exact ⟨rfl, rfl⟩
      · cases hop
  | _ => cases hop

/-- The loop of session `s` on the node. -/
def orderLoop (s : Nat) : Reader node Line where
  read? a := if a.1 = 0 then a.2.orderLine? s else none
  wanted := RunSession.expects
  At c := ∃ pc, c.task 0 = .session pc
  Up c := ∃ pc, c.task 0 = .session pc ∧ pc.up s = true
  at_step := by
    rintro c ⟨t, op⟩ c' ⟨pc, hc⟩ hs
    obtain ⟨-, pc', -, hc'⟩ | ⟨-, hc'⟩ := mainTask_step hc hs
    · exact ⟨pc', hc'⟩
    · exact ⟨pc, hc'⟩
  up_step := by
    rintro c ⟨t, op⟩ c' ⟨pc, hc, hup⟩ hs hread
    obtain ⟨rfl, pc', hstep, hc'⟩ | ⟨-, hc'⟩ := mainTask_step hc hs
    · exact ⟨pc', hc', hstep.up hup (by simpa using hread)⟩
    · exact ⟨pc, hc', hup⟩
  skip := by
    rintro c ⟨t, op⟩ c' line ⟨pc, hc⟩ hs hread hline
    obtain ⟨rfl, pc', hstep, hc'⟩ | ⟨ht, -⟩ := mainTask_step hc hs
    · obtain ⟨rfl, rfl⟩ := hstep.ignores (by simpa using hread) hline
      exact step_still hs rfl (Option.some.inj (node_step_exec hs)).symm (hc'.trans hc.symm)
    · rw [if_neg ht] at hread
      cases hread

/-- A session without tunnels whose ports are all taken comes back to its loop after
    any line. -/
theorem orderLoop_back (hc : c.task 0 = .session (.orders s ∅)) (line : Line) :
    ∃ ls, node.runFrom c ls = some c ∧ (orderLoop s).reads ls = [some line] := by
  have hback : ∀ ops : List Op, (∀ op ∈ ops, c.shared.exec 0 op = some c.shared) →
      (∀ op ∈ ops, op.child = none) →
      ops.foldlM NodeTask.next (.session (.orders s ∅)) = some (.session (.orders s ∅)) →
      node.runFrom c (ops.map (0, ·)) = some c := by
    intro ops hexec hchild hnext
    rw [← hc] at hnext
    have hr : node.runFrom c (ops.map (0, ·)) =
        some ⟨c.shared, Function.update c.task 0 (c.task 0)⟩ := runFrom_alone hexec hchild hnext
    rwa [Function.update_eq_self] at hr
  by_cases hopen : ∃ order, line = some (.openTunnel order)
  · obtain ⟨order, rfl⟩ := hopen
    refine ⟨[(0, .readOrder s (some (some (.openTunnel order)))),
      (0, .bind order.remotePort false)], hback [_, _] ?_ ?_ ?_, ?_⟩
    · intro op hop
      rw [List.mem_cons, List.mem_singleton] at hop
      obtain rfl | rfl := hop <;> rfl
    · intro op hop
      rw [List.mem_cons, List.mem_singleton] at hop
      obtain rfl | rfl := hop <;> rfl
    · simp [NodeTask.next, runSession, serveOrder]
    · simp [Reader.reads, orderLoop, Op.orderLine?]
  · have horder : serveOrder s ∅ (some line) = .orders s ∅ := by
      rcases line with _ | m
      · rfl
      · cases m with
        | openTunnel order => exact absurd ⟨order, rfl⟩ hopen
        | closeTunnel order => simp [serveOrder]
        | _ => rfl
    refine ⟨[(0, .readOrder s (some line))], hback [_] ?_ ?_ ?_, ?_⟩
    · intro op hop
      rw [List.mem_singleton.mp hop]
      rfl
    · intro op hop
      rw [List.mem_singleton.mp hop]
      rfl
    · simp [NodeTask.next, runSession, horder]
    · simp [Reader.reads, orderLoop, Op.orderLine?]

theorem orderLoop_end {tunnels : Tunnels} (hc : c.task 0 = .session (.orders s tunnels)) :
    ∃ a c', node.step c a = some c' ∧ (orderLoop s).read? a = some none ∧
      ¬ (orderLoop s).Up c' := by
  have hnext : nodeTasks.next 0 (c.task 0) (.readOrder s none) =
      some (.session (.teardown s tunnels)) := by
    rw [hc]
    simp [nodeTasks, NodeTask.next, runSession, serveOrder]
  have hs := step_of_next hnext rfl rfl
  refine ⟨(0, .readOrder s none), _, hs, ?_, ?_⟩
  · simp [orderLoop, Op.orderLine?]
  · rintro ⟨pc, hpc, hup⟩
    have htask := step_next hs
    rw [hnext, hpc] at htask
    cases htask
    cases hup

end Node

/-! ## Both ends -/

section Both

variable (fromStr : String → Option Message) (lines : List ControlLine)

/-- A registered node sends the lines to the server: its session lives until all have
    been read, and its run is one on the lines that are reports. -/
def ServerSkips : Prop :=
  ∀ fails cfg before c t host reg id, (server cfg).Run before c →
    c.task t = .node host reg (.read id) →
    (nodeLoop cfg t host reg).Skips c (ReadsStream fromStr (controlStream lines fails))
      (ReadsStream fromStr (controlStream (wantedLines fromStr HandleNode.expects lines) fails))
      lines.length

/-- The server sends the lines to a node that has registered: its session lives until
    all have been read, and its run is one on the lines that are orders. -/
def NodeSkips : Prop :=
  ∀ fails before c s tunnels, Node.node.Run before c → c.task 0 = .session (.orders s tunnels) →
    (Node.orderLoop s).Skips c (ReadsStream fromStr (controlStream lines fails))
      (ReadsStream fromStr
        (controlStream (wantedLines fromStr Node.RunSession.expects lines) fails))
      lines.length

variable {fromStr lines}

theorem serverSkips_iff :
    ServerSkips fromStr lines ↔ ∀ l ∈ lines, l.validUtf8 = true := by
  constructor
  · intro h
    obtain ⟨c, hr, hc, hnone⟩ : ∃ c, (server onePort).Run (nodeVisible ++ nodeAnswered) c ∧
        c.task 2 = .node "10.0.0.9" ⟨"secret", "fra", 7001⟩ (.read "n") ∧
        c.shared.activeTunnels = ∅ := ⟨_, rfl, rfl, rfl⟩
    exact valid_of_skips (nodeLoop_back hc hnone) (nodeLoop_end hc)
      (h false onePort _ c 2 _ _ "n" hr hc)
  · intro h fails cfg before c t host reg id _ hc
    exact skips_lines ⟨_, hc⟩ ⟨_, hc, rfl⟩ h

theorem nodeSkips_iff : NodeSkips fromStr lines ↔ ∀ l ∈ lines, l.validUtf8 = true := by
  constructor
  · intro h
    obtain ⟨c, hr, hc⟩ : ∃ c, Node.node.Run (Node.tunnelOpened.take 3) c ∧
        c.task 0 = .session (.orders 0 ∅) := ⟨_, rfl, rfl⟩
    exact valid_of_skips (Node.orderLoop_back hc) (Node.orderLoop_end hc) (h false _ c 0 ∅ hr hc)
  · intro h fails before c s tunnels _ hc
    exact skips_lines ⟨_, hc⟩ ⟨_, hc, decide_eq_true rfl⟩ h

variable (fromStr lines)

/-- Each end skips what it does not act on exactly if every line is text. -/
theorem lines_skipped_iff :
    (ServerSkips fromStr lines ↔ ∀ l ∈ lines, l.validUtf8 = true) ∧
      (NodeSkips fromStr lines ↔ ∀ l ∈ lines, l.validUtf8 = true) :=
  ⟨serverSkips_iff, nodeSkips_iff⟩

/-- A byte that is in no text, before a line that is. -/
theorem invalid_line_ends : ∃ lines : List ControlLine,
    lines.map ControlLine.bytes = [[255], [123, 125]] ∧
      ¬ ServerSkips Borehole.fromStr lines ∧ ¬ NodeSkips Borehole.fromStr lines := by
  have hinvalid : ¬ ∀ l ∈ [(⟨[255], by decide⟩ : ControlLine), ⟨[123, 125], by decide⟩],
      l.validUtf8 = true := by decide
  exact ⟨_, rfl, mt serverSkips_iff.mp hinvalid, mt nodeSkips_iff.mp hinvalid⟩

end Both

end Borehole
