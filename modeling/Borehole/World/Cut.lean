/-
  Borehole.World.Cut

  Connections whose first frame is cut short, at the server's control port and at
  the data ports of the server and of a node.

  What `read_frame` and `from_line` make of such a frame is no message
  (`Borehole.Common.Cut`).  The handler then returns without an operation on
  anything shared, after at most an `Error` on its own stream.
-/

import Borehole.Common.Cut
import Borehole.Node.Steps
import Borehole.Server.Refusals

namespace Borehole

open Conc Conc.Tasks

/-! ## The server -/

/-- The operations that read the line `first` off a new connection. -/
def Op.Opens (first : Option Line) (op : Op) : Prop :=
  (∃ peer, op = .connect peer first) ∨ op = .readFrame first

/-- The operation reads the first line of a data connection. -/
def Op.readsFrame : Op → Bool
  | .readFrame _ => true
  | _ => false

/-- Where a task stands and what it has done, if the first line it reads is `first`
    and that is no message. -/
inductive Cut (first : Option Line) (t : Tid) : ServerTask → List Op → Prop where
  | idle : Cut first t .idle []
  | control {peer} : Cut first t (handleClient peer first) [.connect peer first]
  | refused {peer ok} :
      Cut first t .gone [.connect peer first, .send t (.error ⟨"malformed first message"⟩) ok]
  | data : Cut first t (.dataConn .readFrame) [.dataConnect]
  | dropped : Cut first t (.dataConn (.done none)) [.dataConnect, .readFrame first]
  /-- Its first line is another one, or it reads none. -/
  | other {k ops} : (∀ op ∈ ops, ¬op.Opens first) → k ≠ .idle → k ≠ .dataConn .readFrame →
      Cut first t k ops

section Server

variable {cfg : ServerConfig} {ls : List (Tid × Op)} {c : Server} {t : Tid} {first : Option Line}
  {k k' : ServerTask} {op : Op} {ops : List Op} {tokens : List String}

theorem HandleCli.Step.not_readsFrame {s : SessionCtx} {pc pc' : HandleCli.Pc}
    (h : HandleCli.Step tokens s pc op pc') : op.readsFrame = false := by
  have hdirect : ∀ {ctx : TunnelCtx} {pc : ServeCliDirect.Pc} {fl : Flow ServeCliDirect.Pc},
      ServeCliDirect.Step s ctx pc op fl → op.readsFrame = false := by
    intro ctx pc fl h
    cases h with
    | serve h | served h => cases h <;> rfl
    | _ => rfl
  cases h with
  | direct h | directRet h => exact hdirect h
  | viaNode h =>
      cases h with
      | fallback h | fellBack h => exact hdirect h
      | _ => rfl
  | viaNodeRet h => cases h <;> rfl
  | _ => rfl

/-- A frame is read off a data connection that has just been accepted. -/
theorem ServerTask.Step.reads (h : ServerTask.Step tokens t k op k')
    (hop : op.readsFrame = true) : k = .dataConn .readFrame := by
  cases h with
  | cli h => rw [h.not_readsFrame] at hop; cases hop
  | node h =>
      cases h with
      | forward h | forwarded h => cases h <;> cases hop
      | _ => cases hop
  | visitor h => cases h <;> cases hop
  | dataConn h => cases h <;> first | rfl | cases hop
  | close h => cases h <;> cases hop
  | _ => cases hop

theorem handleClient_started (peer : String) (first : Option Line) :
    handleClient peer first ≠ .idle ∧ handleClient peer first ≠ .dataConn .readFrame := by
  refine ⟨handleClient_not_idle peer first, ?_⟩
  have hd := handleClient_dispatched peer first
  generalize handleClient peer first = k at hd ⊢
  cases hd <;> nofun

/-- A task that has read its first line does not start again. -/
theorem ServerTask.Step.started (h : ServerTask.Step tokens t k op k') :
    k' ≠ .idle ∧ (k ≠ .idle → k' ≠ .dataConn .readFrame) := by
  cases h with
  | connect => exact ⟨(handleClient_started _ _).1, fun hne => absurd rfl hne⟩
  | dataConnect => exact ⟨nofun, fun hne => absurd rfl hne⟩
  | delete => exact ⟨nofun, fun hne => absurd rfl hne⟩
  | dataConn h => cases h <;> exact ⟨nofun, fun _ => nofun⟩
  | _ => exact ⟨nofun, fun _ => nofun⟩

theorem Cut.step (hfirst : first = none ∨ first = some none) (hk : Cut first t k ops)
    (h : ServerTask.Step tokens t k op k') : Cut first t k' (ops ++ [op]) := by
  cases hk with
  | idle =>
      -- A task that has done nothing either opens with the cut line, or never reads it.
      cases h with
      | @connect peer first' =>
          by_cases he : first' = first
          · rw [he]
            exact .control
          · have hstarted := handleClient_started peer first'
            exact .other (by simp [Op.Opens, he]) hstarted.1 hstarted.2
      | dataConnect => exact .data
      | delete => exact .other (by simp [Op.Opens]) nofun nofun
  | control =>
      -- Nothing was read, or something that is no message: there is nothing to serve.
      obtain rfl | rfl := hfirst
      · change ServerTask.Step tokens t .gone op k' at h
        cases h
      · change ServerTask.Step tokens t (.refuse "malformed first message") op k' at h
        cases h
        exact .refused
  | refused => cases h
  | data =>
      cases h with
      | dataConn h =>
          cases h with
          | announced =>
              refine .other ?_ nofun nofun
              -- The line is a message, and so not the cut one.
              have hne : ∀ m, first ≠ some (some m) := by
                rintro m rfl
                obtain he | he := hfirst <;> cases he
              simp [Op.Opens, Ne.symm (hne _)]
          | @unexpected frame =>
              by_cases he : frame = first
              · rw [he]
                exact .dropped
              · refine .other ?_ nofun nofun
                simp [Op.Opens, he]
  | dropped =>
      cases h with
      | dataConn h => cases h
  | other hops hidle hread =>
      refine .other ?_ h.started.1 (h.started.2 hidle)
      rw [List.forall_mem_append, List.forall_mem_singleton]
      refine ⟨hops, ?_⟩
      rintro (⟨peer, hop⟩ | hop)
      · exact hidle (h.connected hop).1
      · exact hread (h.reads (by rw [hop]; rfl))

theorem Cut.adopt (hfirst : first = none ∨ first = some none) (hk : Cut first t k ops)
    (h : ServerTask.Adopt op k k') : Cut first t k' ops := by
  cases hk with
  | idle =>
      cases h
      exact .other (List.forall_mem_nil _) nofun nofun
  | control =>
      obtain rfl | rfl := hfirst
      · change ServerTask.Adopt op .gone k' at h
        cases h
      · change ServerTask.Adopt op (.refuse "malformed first message") k' at h
        cases h
  | refused | data | dropped => cases h
  | other hops hidle _ =>
      cases h with
      | accept => exact absurd rfl hidle
      | insertPending | spawn | drop => exact .other hops nofun nofun

theorem cut_history (hr : (server cfg).Run ls c) (hfirst : first = none ∨ first = some none)
    (t : Tid) : Cut first t (c.task t) (opsOf t ls) := by
  refine run_history (P := fun t ops k => Cut first t k ops) hr (fun _ => .idle) ?_ ?_ t
  · intro t ops k op k' hk h
    exact hk.step hfirst (next_step h)
  · intro t u ops k op k' hk _ h
    exact hk.adopt hfirst (adopt_step h)

/-- A control connection whose first line is no message does no more than answer
    with an `Error`. -/
theorem cut_control (hr : (server cfg).Run ls c) (hfirst : first = none ∨ first = some none)
    {peer : String} (hmem : (t, .connect peer first) ∈ ls) :
    ∀ op, (t, op) ∈ ls →
      op = .connect peer first ∨ ∃ ok, op = .send t (.error ⟨"malformed first message"⟩) ok := by
  have hcut := cut_history hr hfirst t
  have hopen := mem_opsOf.mpr hmem
  intro op hop
  have hmem' := mem_opsOf.mpr hop
  generalize c.task t = k at hcut
  generalize opsOf t ls = ops at hcut hopen hmem'
  cases hcut with
  | idle => cases hopen
  | control =>
      rw [List.mem_singleton] at hopen hmem'
      exact Or.inl (hmem'.trans hopen.symm)
  | refused =>
      simp only [List.mem_cons, List.not_mem_nil, or_false, reduceCtorEq] at hopen hmem'
      obtain rfl | rfl := hmem'
      · exact Or.inl hopen.symm
      · exact Or.inr ⟨_, rfl⟩
  | data => simp at hopen
  | dropped => simp at hopen
  | other hops => exact absurd (Or.inl ⟨peer, rfl⟩) (hops _ hopen)

/-- A data connection whose first line is no message does nothing more. -/
theorem cut_data (hr : (server cfg).Run ls c) (hfirst : first = none ∨ first = some none)
    (hmem : (t, .readFrame first) ∈ ls) :
    ∀ op, (t, op) ∈ ls → op = .dataConnect ∨ op = .readFrame first := by
  have hcut := cut_history hr hfirst t
  have hopen := mem_opsOf.mpr hmem
  intro op hop
  have hmem' := mem_opsOf.mpr hop
  generalize c.task t = k at hcut
  generalize opsOf t ls = ops at hcut hopen hmem'
  cases hcut with
  | idle => cases hopen
  | control | refused | data => simp at hopen
  | dropped =>
      simp only [List.mem_cons, List.not_mem_nil, or_false] at hmem'
      exact hmem'
  | other hops => exact absurd (Or.inr rfl) (hops _ hopen)

end Server

/-! ## A node -/

namespace Node

/-- The operation reads the first line of a data connection. -/
def Op.readsFrame : Op → Bool
  | .readFrame _ => true
  | _ => false

/-- The same of a node's tasks, which read the first line of data connections only. -/
inductive Cut (first : Option Line) : NodeTask → List Op → Prop where
  | idle : Cut first .idle []
  | data : Cut first (.dataConn .readFrame) [.dataConnect]
  | dropped : Cut first (.dataConn (.done none)) [.dataConnect, .readFrame first]
  | other {k ops} : (∀ op ∈ ops, op ≠ .readFrame first) → k ≠ .idle → k ≠ .dataConn .readFrame →
      Cut first k ops

section Run

variable {ls : List (Tid × Op)} {c : NodeConf} {t : Tid} {first : Option Line} {k k' : NodeTask}
  {op : Op} {ops : List Op}

theorem NodeTask.Step.reads (h : NodeTask.Step k op k') (hop : op.readsFrame = true) :
    k = .dataConn .readFrame := by
  cases h with
  | dataConnect => cases hop
  | session h | loop h | visitor h => cases h <;> cases hop
  | dataConn h => cases h <;> first | rfl | cases hop

theorem NodeTask.Step.started (h : NodeTask.Step k op k') :
    k' ≠ .idle ∧ (k ≠ .idle → k' ≠ .dataConn .readFrame) := by
  cases h with
  | dataConnect => exact ⟨nofun, fun hne => absurd rfl hne⟩
  | dataConn h => cases h <;> exact ⟨nofun, fun _ => nofun⟩
  | _ => exact ⟨nofun, fun _ => nofun⟩

theorem Cut.step (hfirst : first = none ∨ first = some none) (hk : Cut first k ops)
    (h : NodeTask.Step k op k') : Cut first k' (ops ++ [op]) := by
  cases hk with
  | idle =>
      cases h with
      | dataConnect => exact .data
  | data =>
      cases h with
      | dataConn h =>
          cases h with
          | @announced connId =>
              refine .other ?_ nofun nofun
              have hne : first ≠ some (some (.dataConn ⟨connId⟩)) := by
                rintro rfl
                obtain he | he := hfirst <;> cases he
              simp [Ne.symm hne]
          | @unexpected frame =>
              by_cases he : frame = first
              · rw [he]
                exact .dropped
              · exact .other (by simp [he]) nofun nofun
  | dropped =>
      cases h with
      | dataConn h => cases h
  | other hops hidle hread =>
      refine .other ?_ h.started.1 (h.started.2 hidle)
      rw [List.forall_mem_append, List.forall_mem_singleton]
      exact ⟨hops, fun hop => hread (h.reads (by rw [hop]; rfl))⟩

theorem Cut.adopt (hk : Cut first k ops) (h : NodeTask.Adopt op k k') : Cut first k' ops := by
  cases hk with
  | idle => cases h <;> exact .other (List.forall_mem_nil _) nofun nofun
  | data | dropped => cases h
  | other hops hidle _ => cases h <;> exact .other hops nofun nofun

/-- A data connection whose first line is no message does nothing more. -/
theorem cut_data (hr : node.Run ls c) (hfirst : first = none ∨ first = some none)
    (hmem : (t, .readFrame first) ∈ ls) :
    ∀ op, (t, op) ∈ ls → op = .dataConnect ∨ op = .readFrame first := by
  have hcut : Cut first (c.task t) (opsOf t ls) := by
    refine run_history (P := fun _ ops k => Cut first k ops) hr ?_ ?_ ?_ t
    · intro t
      by_cases ht : t = 0
      · rw [ht]
        exact .other (List.forall_mem_nil _) nofun nofun
      · change Cut first (if t = 0 then _ else _) []
        rw [if_neg ht]
        exact .idle
    · intro t ops k op k' hk h
      exact hk.step hfirst (next_step h)
    · intro t u ops k op k' hk _ h
      exact hk.adopt (adopt_step h)
  have hopen := mem_opsOf.mpr hmem
  intro op hop
  have hmem' := mem_opsOf.mpr hop
  generalize c.task t = k at hcut
  generalize opsOf t ls = ops at hcut hopen hmem'
  cases hcut with
  | idle => cases hopen
  | data => simp at hopen
  | dropped =>
      simp only [List.mem_cons, List.not_mem_nil, or_false] at hmem'
      exact hmem'
  | other hops => exact absurd rfl (hops _ hopen)

end Run

end Node

/-! ## Frames cut short -/

theorem firstLine_cut {fromStr : String → Option Message} (hjson : ReadsJson fromStr) {m : Message}
    {json bytes : List UInt8} (hm : sendBytes m = some (json ++ [10])) (hp : bytes <+: json)
    (hcut : bytes ≠ json) (fails : Bool) :
    firstLine fromStr ⟨bytes, fails⟩ = none ∨ firstLine fromStr ⟨bytes, fails⟩ = some none := by
  cases fails with
  | false =>
      rw [firstLine]
      obtain ⟨-, hread⟩ | ⟨line, hread, hline⟩ := readFrame_cut hjson hm hp hcut
      · rw [hread]
        exact Or.inl rfl
      · rw [hread]
        exact Or.inr (congrArg some hline)
  | true =>
      obtain ⟨hbytes, hnl⟩ := sendBytes_eq m
      rw [hbytes, Option.some.injEq, List.append_left_inj] at hm
      subst hm
      have hread := readFrameLoop_end true [] fun h => hnl (hp.subset h)
      rw [firstLine, readFrame, hread]
      exact Or.inl rfl

/-- A stream that delivers a proper beginning of the JSON of a message and ends:
    `read_frame` returns nothing or a line that `from_line` fails on, and whoever
    opens a connection with it registers nothing and claims no visitor, at the
    control port and the data port of the server and at the data port of a node. -/
theorem cut_frame_ignored {fromStr : String → Option Message} (hjson : ReadsJson fromStr)
    {m : Message} {json bytes : List UInt8} (hm : sendBytes m = some (json ++ [10]))
    (hp : bytes <+: json) (hcut : bytes ≠ json) :
    (bytes = [] ∧ (readFrame ⟨bytes, false⟩).1 = .ok none ∨
      ∃ line, (readFrame ⟨bytes, false⟩).1 = .ok (some line) ∧ fromLine fromStr line = none) ∧
    (∀ cfg ls c t peer fails, (server cfg).Run ls c →
      (t, .connect peer (firstLine fromStr ⟨bytes, fails⟩)) ∈ ls → ∀ op, (t, op) ∈ ls →
        op = .connect peer (firstLine fromStr ⟨bytes, fails⟩) ∨
          ∃ ok, op = .send t (.error ⟨"malformed first message"⟩) ok) ∧
    (∀ cfg ls c t fails, (server cfg).Run ls c →
      (t, .readFrame (firstLine fromStr ⟨bytes, fails⟩)) ∈ ls → ∀ op, (t, op) ∈ ls →
        op = .dataConnect ∨ op = .readFrame (firstLine fromStr ⟨bytes, fails⟩)) ∧
    (∀ ls c t fails, Node.node.Run ls c →
      (t, .readFrame (firstLine fromStr ⟨bytes, fails⟩)) ∈ ls → ∀ op, (t, op) ∈ ls →
        op = .dataConnect ∨ op = .readFrame (firstLine fromStr ⟨bytes, fails⟩)) := by
  have hfirst := firstLine_cut hjson hm hp hcut
  refine ⟨readFrame_cut hjson hm hp hcut, ?_, ?_, ?_⟩
  · intro cfg ls c t peer fails hr hmem
    exact cut_control hr (hfirst fails) hmem
  · intro cfg ls c t fails hr hmem
    exact cut_data hr (hfirst fails) hmem
  · intro ls c t fails hr hmem
    exact Node.cut_data hr (hfirst fails) hmem

/-- A `DataConn` cut inside the last character of its `conn_id`, of which the
    second byte is missing. -/
def cutDataConn : List UInt8 :=
  (Utf8.encode (Message.json (.dataConn ⟨"é"⟩))).dropLast.dropLast.dropLast

theorem cut_frame_ignored_multibyte :
    cutDataConn.getLast? = some 0xc3 ∧
    ∃ line, (readFrame ⟨cutDataConn, false⟩).1 = .ok (some line) ∧
      fromLine fromStr line = none := by
  have hp : cutDataConn <+: Utf8.encode (Message.json (.dataConn ⟨"é"⟩)) :=
    ((List.dropLast_prefix _).trans (List.dropLast_prefix _)).trans (List.dropLast_prefix _)
  have hread := (cut_frame_ignored fromStr_readsJson (sendBytes_eq _).1 hp (by decide)).1
  exact ⟨by decide, hread.resolve_left fun h => absurd h.1 (by decide)⟩

end Borehole
