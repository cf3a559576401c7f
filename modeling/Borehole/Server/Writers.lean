/-
  Borehole.Server.Writers

  Who writes on which control stream.

  A program counter determines the frame it writes next and the mutex it holds.
  The invariant of this module is that the mutexes of the shared state and the
  program counters agree, so a task that writes through a guard has the stream
  to itself.
-/

import Borehole.Server.Steps

namespace Borehole

/-! ## Frames of a run -/

/-- The frame an operation writes: the stream, the message and the outcome. -/
def Op.frame? : Op → Option (Tid × Message × Bool)
  | .send w m ok | .sendUnlock w m ok => some (w, m, ok)
  | _ => none

/-- The message an operation writes on stream `w`. -/
def Op.messageOn (w : Tid) (op : Op) : Option Message :=
  op.frame?.bind fun f => if f.1 = w then some f.2.1 else none

/-- The message an operation writes on stream `w` with success. -/
def Op.writtenOn (w : Tid) (op : Op) : Option Message :=
  op.frame?.bind fun f => if f.1 = w ∧ f.2.2 = true then some f.2.1 else none

/-- The frames of a run on stream `w` in order, failed writes included. -/
def messages (w : Tid) (ls : List (Tid × Op)) : List Message :=
  ls.filterMap fun a => a.2.messageOn w

/-- The frames of a run that were written on stream `w` with success. -/
def written (w : Tid) (ls : List (Tid × Op)) : List Message :=
  ls.filterMap fun a => a.2.writtenOn w

@[simp] theorem messages_nil (w : Tid) : messages w [] = [] := rfl

@[simp] theorem written_nil (w : Tid) : written w [] = [] := rfl

@[simp] theorem messages_snoc (w : Tid) (ls : List (Tid × Op)) (t : Tid) (op : Op) :
    messages w (ls ++ [(t, op)]) = messages w ls ++ (op.messageOn w).toList := by
  rw [messages, List.filterMap_append, messages]
  cases h : op.messageOn w <;> simp [h]

@[simp] theorem written_snoc (w : Tid) (ls : List (Tid × Op)) (t : Tid) (op : Op) :
    written w (ls ++ [(t, op)]) = written w ls ++ (op.writtenOn w).toList := by
  rw [written, List.filterMap_append, written]
  cases h : op.writtenOn w <;> simp [h]

theorem Op.messageOn_some {w : Tid} {op : Op} {m : Message} :
    op.messageOn w = some m ↔ ∃ ok, op.frame? = some (w, m, ok) := by
  simp only [messageOn, Option.bind_eq_some_iff]
  constructor
  · rintro ⟨⟨w', m', ok⟩, hf, h⟩
    split at h
    · rename_i hw
      cases hw
      cases h
      exact ⟨ok, hf⟩
    · cases h
  · rintro ⟨ok, hf⟩
    exact ⟨_, hf, if_pos rfl⟩

/-- A frame is on stream `w` if it was there before or the last operation wrote it. -/
theorem mem_messages_snoc {w t : Tid} {ls : List (Tid × Op)} {op : Op} {m : Message} :
    m ∈ messages w (ls ++ [(t, op)]) ↔ m ∈ messages w ls ∨ ∃ ok, op.frame? = some (w, m, ok) := by
  rw [messages_snoc, List.mem_append, Option.mem_toList, Op.messageOn_some]

theorem Op.messageOn_none {w : Tid} {op : Op} (h : op.frame? = none) : op.messageOn w = none := by
  simp [messageOn, h]

/-! ## The frame a task writes next -/

/-- The frame that `serve_tunnel` writes next. -/
def ServeTunnel.Pc.frame? (s : SessionCtx) : ServeTunnel.Pc → Option (Tid × Message)
  | .notify _ vis => some (s.task, notice vis)
  | _ => none

/-- The frame that `serve_cli_direct` writes next. -/
def ServeCliDirect.Pc.frame? (s : SessionCtx) (ctx : TunnelCtx) :
    ServeCliDirect.Pc → Option (Tid × Message)
  | .reject => some (s.task, .error ⟨"failed to open tunnel port"⟩)
  | .registered => some (s.task, registeredMsg ctx)
  | .serve pc => pc.frame? s
  | _ => none

/-- The frame that `serve_cli_via_node` writes next, to the CLI or to the node. -/
def ServeCliViaNode.Pc.frame? (s : SessionCtx) (ctx : TunnelCtx) (node : NodeInfo) :
    ServeCliViaNode.Pc → Option (Tid × Message)
  | .openTunnel => some (node.tx, openMsg ctx)
  | .fallback pc => pc.frame? s ctx
  | .registered => some (s.task, registeredMsg ctx node)
  | .closeTunnel => some (node.tx, closeMsg ctx)
  | _ => none

/-- The frame that `handle_cli` writes next. -/
def HandleCli.Pc.frame? (s : SessionCtx) : HandleCli.Pc → Option (Tid × Message)
  | .reject reason => some (s.task, .error ⟨reason⟩)
  | .direct ctx pc => pc.frame? s ctx
  | .viaNode ctx node pc => pc.frame? s ctx node
  | _ => none

/-- The frame that `handle_node` writes next. -/
def HandleNode.Pc.frame? (t : Tid) : HandleNode.Pc → Option (Tid × Message)
  | .reject reason => some (t, .error ⟨reason⟩)
  | .ack id => some (t, .nodeRegistered ⟨id⟩)
  | .forward _ report (.send route) =>
      some (route.writer, ForwardVisitor.notice report.connId route)
  | _ => none

/-- The stream and the message of the frame that task `t` writes next. -/
def ServerTask.frame? (t : Tid) : ServerTask → Option (Tid × Message)
  | .refuse reason => some (t, .error ⟨reason⟩)
  | .cli register pc => pc.frame? ⟨t, register⟩
  | .node _ _ pc => pc.frame? t
  | _ => none

/-! ## The writer a task holds -/

/-- The writer that `serve_cli_via_node` holds. -/
def ServeCliViaNode.Pc.holds? (t : Tid) (node : NodeInfo) : ServeCliViaNode.Pc → Option Tid
  | .openTunnel | .closeTunnel => some node.tx
  | .fallback _ | .unlockFallback | .registered => some t
  | _ => none

/-- The writer that `handle_cli` holds through `serve_cli_via_node`. -/
def HandleCli.Pc.holds? (t : Tid) : HandleCli.Pc → Option Tid
  | .viaNode _ node pc => pc.holds? t node
  | _ => none

/-- The writer that `handle_node` holds, its own. -/
def HandleNode.Pc.holds? (t : Tid) : HandleNode.Pc → Option Tid
  | .ack _ | .ackFailed _ | .unlockFailed _ => some t
  | .forward _ _ (.send route) => some route.writer
  | _ => none

/-- The writer whose mutex task `t` holds. -/
def ServerTask.holds? (t : Tid) : ServerTask → Option Tid
  | .cli _ pc => pc.holds? t
  | .node _ _ pc => pc.holds? t
  | _ => none

/-- A task that locks a writer holds none before, and one that unlocks a writer
    holds that one. -/
def WriterStep (before : Option Tid) (op : Op) (after : Option Tid) : Prop :=
  match op with
  | .lockWriter w => before = none ∧ after = some w
  | .unlockWriter w | .sendUnlock w _ _ => before = some w ∧ after = none
  | _ => after = before

theorem writerStep_of_not_onWriters {a : Option Tid} {op : Op} (h : op.onWriters = false) :
    WriterStep a op a := by
  cases op <;> first | rfl | cases h

section Steps

variable {tokens : List String} {s : SessionCtx} {ctx : TunnelCtx} {node : NodeInfo} {op : Op}
  {f : Tid × Message × Bool}

theorem ServeTunnel.Step.frame {pc : Pc} {fl : Flow Pc} (h : Step s ctx pc op fl)
    (hf : op.frame? = some f) : pc.frame? s = some (f.1, f.2.1) := by
  cases h with
  | notified | notifyFailed => cases hf; rfl
  | _ => cases hf

theorem ServeCliDirect.Step.frame {pc : Pc} {fl : Flow Pc} (h : Step s ctx pc op fl)
    (hf : op.frame? = some f) : pc.frame? s ctx = some (f.1, f.2.1) := by
  cases h with
  | rejected | registered | registerFailed => cases hf; rfl
  | serve h | served h => exact h.frame hf
  | _ => cases hf

theorem ServeCliViaNode.Step.frame {pc : Pc} {fl : Flow Pc} (h : Step s ctx node pc op fl)
    (hf : op.frame? = some f) : pc.frame? s ctx node = some (f.1, f.2.1) := by
  cases h with
  | opened | unreachable | registered | closeTunnel => cases hf; rfl
  | fallback h | fellBack h => exact h.frame hf
  | _ => cases hf

theorem HandleCli.Step.frame {pc pc' : Pc} (h : Step tokens s pc op pc')
    (hf : op.frame? = some f) : pc.frame? s = some (f.1, f.2.1) := by
  cases h with
  | rejected => cases hf; rfl
  | direct h | directRet h => exact h.frame hf
  | viaNode h | viaNodeRet h => exact h.frame hf
  | _ => cases hf

theorem HandleNode.Step.frame {t : Tid} {host : String} {reg : RegisterNode} {pc pc' : Pc}
    (h : Step tokens t host reg pc op pc') (hf : op.frame? = some f) :
    pc.frame? t = some (f.1, f.2.1) := by
  cases h with
  | rejected | acked | ackFailed => cases hf; rfl
  | forward h => cases h <;> cases hf
  | forwarded h =>
      cases h with
      | unknown => cases hf
      | send => cases hf; rfl
  | _ => cases hf

/-- A task writes the frame its program counter says and no other. -/
theorem ServerTask.Step.frame {t : Tid} {k k' : ServerTask} (h : Step tokens t k op k')
    (hf : op.frame? = some f) : k.frame? t = some (f.1, f.2.1) := by
  cases h with
  | refused => cases hf; rfl
  | cli h => exact h.frame hf
  | node h => exact h.frame hf
  | visitor h => cases h <;> cases hf
  | dataConn h => cases h <;> cases hf
  | close h => cases h <;> cases hf
  | _ => cases hf

theorem ServeCliDirect.Step.not_onWriters {pc : Pc} {fl : Flow Pc} (h : Step s ctx pc op fl) :
    op.onWriters = false := by
  cases h with
  | serve h | served h => cases h <;> rfl
  | _ => rfl

theorem ServeCliViaNode.Step.writer {pc pc' : Pc} (h : Step s ctx node pc op (.at pc')) :
    WriterStep (pc.holds? s.task node) op (pc'.holds? s.task node) := by
  cases h with
  | fallback h | fellBack h => exact writerStep_of_not_onWriters h.not_onWriters
  | _ => simp [WriterStep, Pc.holds?]

theorem ServeCliViaNode.Step.writer_ret {pc : Pc} (h : Step s ctx node pc op .ret) :
    WriterStep (pc.holds? s.task node) op none := by
  cases h <;> simp [WriterStep, Pc.holds?]

theorem HandleCli.Step.writer {pc pc' : Pc} (h : Step tokens s pc op pc') :
    WriterStep (pc.holds? s.task) op (pc'.holds? s.task) := by
  cases h with
  | direct h | directRet h => exact writerStep_of_not_onWriters h.not_onWriters
  | viaNode h => exact h.writer
  | viaNodeRet h => exact h.writer_ret
  | _ => rfl

theorem HandleNode.Step.writer {t : Tid} {host : String} {reg : RegisterNode} {pc pc' : Pc}
    (h : Step tokens t host reg pc op pc') : WriterStep (pc.holds? t) op (pc'.holds? t) := by
  cases h with
  | forward h | forwarded h => cases h <;> simp [WriterStep, Pc.holds?]
  | _ => simp [WriterStep, Pc.holds?]

theorem ServerTask.Step.writer {t : Tid} {k k' : ServerTask} (h : Step tokens t k op k') :
    WriterStep (k.holds? t) op (k'.holds? t) := by
  cases h with
  | @connect peer first =>
      have hd := handleClient_dispatched peer first
      generalize handleClient peer first = k' at hd ⊢
      cases hd <;> rfl
  | cli h => exact h.writer
  | node h => exact h.writer
  | visitor h => exact writerStep_of_not_onWriters (by cases h <;> rfl)
  | dataConn h => exact writerStep_of_not_onWriters (by cases h <;> rfl)
  | close h => exact writerStep_of_not_onWriters (by cases h <;> rfl)
  | _ => rfl

end Steps

/-! ## The mutexes -/

/-- A writer is locked by the task whose program counter says so. -/
def WriterInv (c : Server) : Prop :=
  ∀ w t, c.shared.writer w = some t ↔ (c.task t).holds? t = some w

section Invariant

variable {cfg : ServerConfig} {c c' : Server} {t : Tid} {op : Op}

theorem writerInv_step (hi : WriterInv c) (h : (server cfg).step c (t, op) = some c') :
    WriterInv c' := by
  have hx := server_step_exec h
  have hself := (server_step_self h).writer
  have hother : ∀ u, u ≠ t → (c'.task u).holds? u = (c.task u).holds? u := fun u hu =>
    server_step_attr (f := ServerTask.holds? u) (fun _ _ => rfl) h hu
  -- the task that steps gives up writer `w` or takes it
  have key : ∀ w new, c'.shared.writer = Function.update c.shared.writer w new →
      (c.shared.writer w = none ∧ new = some t ∧ (c'.task t).holds? t = some w ∨
        c.shared.writer w = some t ∧ new = none ∧ (c'.task t).holds? t = none) →
      ((c.task t).holds? t = none ∨ (c.task t).holds? t = some w) → WriterInv c' := by
    intro w new hw hnew hbefore w' u
    rw [hw]
    by_cases hut : u = t
    · subst hut
      by_cases hww : w' = w
      · subst hww
        rw [Function.update_self]
        obtain ⟨_, rfl, ha⟩ | ⟨_, rfl, ha⟩ := hnew <;> simp [ha]
      · rw [Function.update_of_ne hww, hi]
        obtain ⟨_, _, ha⟩ | ⟨_, _, ha⟩ := hnew <;> obtain hb | hb := hbefore <;>
          simp [ha, hb, Ne.symm hww]
    · rw [hother u hut, ← hi]
      by_cases hww : w' = w
      · subst hww
        rw [Function.update_self]
        obtain ⟨hn, rfl, _⟩ | ⟨hn, rfl, _⟩ := hnew <;> simp [hn, Ne.symm hut]
      · rw [Function.update_of_ne hww]
  have hframe : op.onWriters = false → WriterInv c' := by
    intro hop w u
    rw [ServerState.exec_writer hx hop, hi]
    by_cases hut : u = t
    · subst hut
      have : (c'.task u).holds? u = (c.task u).holds? u := by
        cases op <;> first | exact hself | cases hop
      rw [this]
    · rw [hother u hut]
  cases op with
  | lockWriter w =>
      obtain ⟨hn, hw⟩ := ServerState.exec_lockWriter hx
      exact key w (some t) hw (Or.inl ⟨hn, rfl, hself.2⟩) (Or.inl hself.1)
  | unlockWriter w =>
      obtain ⟨hn, hw⟩ := ServerState.exec_unlockWriter hx
      exact key w none hw (Or.inr ⟨hn, rfl, hself.2⟩) (Or.inr hself.1)
  | sendUnlock w m ok =>
      obtain ⟨hn, hw⟩ := ServerState.exec_sendUnlock hx
      exact key w none hw (Or.inr ⟨hn, rfl, hself.2⟩) (Or.inr hself.1)
  | _ => exact hframe rfl

theorem writerInv {ls : List (Tid × Op)} (h : (server cfg).Run ls c) : WriterInv c := by
  refine Conc.Lts.Run.induct (P := fun _ c => WriterInv c) ?_
    (fun _ _ _ _ _ hi hs => writerInv_step hi hs) h
  exact fun w u => ⟨nofun, nofun⟩

end Invariant

end Borehole
