/-
  Borehole.Server.Refusals

  Control connections whose first frame has no valid token.

  Such a connection is turned away before the first operation on anything shared:
  the run without it is a run with the same shared state and the same events.
  All that is written on its stream is one `Error`.
-/

import Borehole.Common.Frames
import Borehole.Conc.Erasure
import Borehole.Server.Streams
import Borehole.Server.Table

namespace Borehole

open Conc

/-! ## The first frame -/

/-- What `handle_client` makes of the first frame that a peer sends: `none` when
    the stream ends or fails before one. -/
def firstLine (fromStr : String → Option Message) (s : ByteStream) : Option Line :=
  match (readFrame s).1 with
  | .ok (some line) => some (fromLine fromStr line)
  | _ => none

/-- The frame is a `Register` or a `RegisterNode` with a token of the list. -/
def Authorized (tokens : List String) : Option Line → Prop
  | some (some (.register reg)) => reg.token ∈ tokens
  | some (some (.registerNode reg)) => reg.token ∈ tokens
  | _ => False

theorem firstLine_frame {fromStr : String → Option Message} (hserde : ReadsCompact fromStr)
    {m : Message} {frame rest : List UInt8} {fails : Bool} (hf : sendBytes m = some frame) :
    firstLine fromStr ⟨frame ++ rest, fails⟩ = some (some m) := by
  have hm : decodeLine fromStr (readFrame ⟨frame ++ rest, fails⟩).1 = some m :=
    (readFrame_frame hserde hf).1
  rw [firstLine]
  generalize (readFrame ⟨frame ++ rest, fails⟩).1 = r at hm ⊢
  rcases r with e | _ | line
  · cases hm
  · cases hm
  · exact congrArg some hm

/-! ## Tasks that are turned away -/

/-- The CLI has been refused, or will be if its token is not valid. -/
def HandleCli.Pc.turnedAway : HandleCli.Pc → Bool
  | .validate | .reject _ | .done none => true
  | _ => false

/-- The node has been refused, or will be if its token is not valid. -/
def HandleNode.Pc.turnedAway : HandleNode.Pc → Bool
  | .validate | .reject _ | .done none => true
  | _ => false

/-- A control connection without a valid token, at any point of its session. -/
def TurnedAway (tokens : List String) : ServerTask → Prop
  | .gone | .refuse _ => True
  | .cli register pc => register.token ∉ tokens ∧ pc.turnedAway = true
  | .node _ reg pc => reg.token ∉ tokens ∧ pc.turnedAway = true
  | _ => False

/-- The handler of the control connection has returned. -/
def ServerTask.returned : ServerTask → Bool
  | .gone | .cli _ (.done _) | .node _ _ (.done _) => true
  | _ => false

/-- The operation starts a session. -/
def Op.connects : Op → Bool
  | .connect .. => true
  | _ => false

/-- The operations of a session that is turned away. -/
inductive Refusal (t : Tid) : Op → Prop where
  | compute : Refusal t .compute
  | send {reason ok} : Refusal t (.send t (.error ⟨reason⟩) ok)

section Steps

variable {tokens : List String} {t : Tid} {k k' : ServerTask} {op : Op} {s s' : ServerState}

theorem turnedAway_connect {peer : String} {first : Option Line} (h : ¬Authorized tokens first) :
    TurnedAway tokens (handleClient peer first) := by
  rcases first with _ | _ | m
  · trivial
  · trivial
  · cases m with
    | register reg => exact ⟨h, rfl⟩
    | registerNode reg => exact ⟨h, rfl⟩
    | _ => trivial

/-- A session that is turned away checks the token, sends an `Error` and ends. -/
theorem TurnedAway.step (hk : TurnedAway tokens k) (h : ServerTask.Step tokens t k op k') :
    TurnedAway tokens k' ∧ k.returned = false ∧
      (op = .compute ∧ k.frame? t = none ∨
        ∃ reason ok, op = .send t (.error ⟨reason⟩) ok ∧ k'.returned = true) := by
  cases h with
  | refused => exact ⟨trivial, rfl, Or.inr ⟨_, _, rfl, rfl⟩⟩
  | cli h =>
      obtain ⟨htok, hpc⟩ := hk
      cases h with
      | badToken => exact ⟨⟨htok, rfl⟩, rfl, Or.inl ⟨rfl, rfl⟩⟩
      | rejected => exact ⟨⟨htok, rfl⟩, rfl, Or.inr ⟨_, _, rfl, rfl⟩⟩
      | hostname ht | anonymous ht => exact absurd ht htok
      | _ => cases hpc
  | node h =>
      obtain ⟨htok, hpc⟩ := hk
      cases h with
      | badToken => exact ⟨⟨htok, rfl⟩, rfl, Or.inl ⟨rfl, rfl⟩⟩
      | rejected => exact ⟨⟨htok, rfl⟩, rfl, Or.inr ⟨_, _, rfl, rfl⟩⟩
      | accepted ht => exact absurd ht htok
      | _ => cases hpc
  | _ => cases hk

theorem TurnedAway.refusal (hk : TurnedAway tokens k) (h : ServerTask.Step tokens t k op k') :
    Refusal t op := by
  obtain ⟨_, _, ⟨rfl, _⟩ | ⟨reason, ok, rfl, _⟩⟩ := hk.step h
  · exact .compute
  · exact .send

theorem Refusal.exec (h : Refusal t op) (hx : s.exec t op = some s') : s' = s := by
  cases h <;> exact (Option.some.inj hx).symm

theorem Refusal.child (h : Refusal t op) : op.child = none := by
  cases h <;> rfl

/-- The frame of a session that is turned away is an `Error` on its own stream. -/
theorem TurnedAway.frame {w : Tid} {m : Message} (hk : TurnedAway tokens k)
    (hf : k.frame? t = some (w, m)) :
    w = t ∧ k.returned = false ∧ ∃ reason, m = .error ⟨reason⟩ := by
  cases k with
  | refuse reason => cases hf; exact ⟨rfl, rfl, _, rfl⟩
  | cli register pc =>
      cases pc with
      | reject reason => cases hf; exact ⟨rfl, rfl, _, rfl⟩
      | direct | viaNode => cases hk.2
      | _ => cases hf
  | node host reg pc =>
      cases pc with
      | reject reason => cases hf; exact ⟨rfl, rfl, _, rfl⟩
      | ack | forward => cases hk.2
      | _ => cases hf
  | _ => cases hf

/-- Nobody has a handle to the writer of a session that is turned away. -/
theorem TurnedAway.not_shared (hk : TurnedAway tokens k) : k.shared = false := by
  cases k with
  | cli register pc =>
      cases pc with
      | validate | reject => rfl
      | done ctx => cases ctx <;> first | rfl | cases hk.2
      | _ => cases hk.2
  | node host reg pc =>
      cases pc with
      | validate | reject => rfl
      | done id => cases id <;> first | rfl | cases hk.2
      | _ => cases hk.2
  | _ => rfl

theorem HandleCli.Step.not_connects {s : SessionCtx} {pc pc' : Pc} (h : Step tokens s pc op pc') :
    op.connects = false := by
  have hdirect : ∀ {ctx : TunnelCtx} {pc : ServeCliDirect.Pc} {fl : Flow ServeCliDirect.Pc},
      ServeCliDirect.Step s ctx pc op fl → op.connects = false := by
    intro ctx pc fl h
    cases h with
    | serve h | served h => cases h <;> rfl
    | _ => rfl
  cases h with
  | direct h | directRet h => exact hdirect h
  | viaNode h =>
      cases h with
      | fallback h | fellBack h => exact hdirect h
      | _ => rfl
  | viaNodeRet h => cases h <;> rfl
  | _ => rfl

/-- A control connection is made by a task that has not started. -/
theorem ServerTask.Step.connected {peer : String} {first : Option Line} (h : Step tokens t k op k')
    (hop : op = .connect peer first) : k = .idle ∧ k' = handleClient peer first := by
  have hconn : op.connects = true := by rw [hop]; rfl
  cases h with
  | connect => cases hop; exact ⟨rfl, rfl⟩
  | cli h => rw [h.not_connects] at hconn; cases hconn
  | node h =>
      cases h with
      | forward h | forwarded h => cases h <;> cases hconn
      | _ => cases hconn
  | visitor h => cases h <;> cases hconn
  | dataConn h => cases h <;> cases hconn
  | close h => cases h <;> cases hconn
  | _ => cases hconn

/-- A session that is turned away can be erased from a run. -/
theorem turnedAway_traceless (cfg : ServerConfig) (t : Tid) :
    Tasks.Traceless (serverTasks cfg) t (TurnedAway cfg.tokens) := by
  refine ⟨fun k op k' hk h => ?_, fun k op k' hk h => ?_, fun k op k' s s' hk h hx => ?_,
    fun k u op k' hk hc h => ?_⟩
  · exact (hk.step (next_step h)).1
  · exact (hk.refusal (next_step h)).child
  · exact (hk.refusal (next_step h)).exec hx
  · have ha := adopt_step h
    cases ha <;> cases hk

end Steps

/-! ## The stream of a session that is turned away -/

/-- Until a session that is turned away ends, its stream holds what it has written
    of its first frame; afterwards nothing or one `Error`, of which a part may be
    missing if the write failed. -/
structure Rebuffed (tokens : List String) (t : Tid) (c : WiredServer) : Prop where
  away : TurnedAway tokens (c.state.task t)
  before : (c.state.task t).returned = false → c.stream t = c.sent t ∧ c.failed t = false
  after : (c.state.task t).returned = true → c.stream t = [] ∧ c.failed t = false ∨
    ∃ reason frame, sendBytes (.error ⟨reason⟩) = some frame ∧ c.stream t <+: frame ∧
      (c.failed t = false → c.stream t = frame)

section Stream

variable {cfg : ServerConfig} {t u w : Tid} {m : Message} {op : Op} {c c' : WiredServer}
  {ls : List (WireOp (Tid × Op) Tid UInt8)}

/-- Nobody else writes on the stream of a task whose writer nobody has. -/
theorem frame_elsewhere {ls : List (Tid × Op)} {c : Server} (h : (server cfg).Run ls c)
    (ht : (c.task t).shared = false) (hu : u ≠ t) (hf : (c.task u).frame? u = some (w, m)) :
    w ≠ t := by
  rintro rfl
  have hshared := shared_of_refs h (ServerTask.frame_other hf (Ne.symm hu)).2
  rw [ht] at hshared
  cases hshared

/-- What other tasks do changes nothing on that stream. -/
theorem stream_elsewhere {l : WireOp (Tid × Op) Tid UInt8} (hr : (wiredServer cfg).Run ls c)
    (ht : (c.state.task t).shared = false)
    (hl : (∃ u bytes, l = .part u bytes ∧ u ≠ t) ∨ ∃ u op, l = .step (u, op) ∧ u ≠ t)
    (h : (wiredServer cfg).step c l = some c') :
    c'.stream t = c.stream t ∧ c'.sent t = c.sent t ∧ c'.failed t = c.failed t := by
  have hbase := Wiring.run_base hr
  obtain ⟨u, bytes, rfl, hu⟩ | ⟨u, op, rfl, hu⟩ := hl
  · obtain ⟨w, frame, hf, _, hstate, hfailed, hstream, hsent⟩ := Wiring.step_part h
    obtain ⟨m, hm, _⟩ := serverWiring_frame.mp hf
    have hw := frame_elsewhere hbase ht hu hm
    rw [hstream, hsent, hfailed, Function.update_of_ne (Ne.symm hw),
      Function.update_of_ne (Ne.symm hu)]
    exact ⟨rfl, rfl, rfl⟩
  · obtain ⟨hs, hstream, hsent, _, hok⟩ := Wiring.step_step h
    have hne : ∀ frame, serverWiring.ends? (u, op) ≠ some (t, frame, false) := by
      intro frame he
      obtain ⟨m, hm, _⟩ := serverWiring_ends.mp he
      exact frame_elsewhere hbase ht hu ((server_step_self hs).frame hm) rfl
    have hfailed : c'.failed t = c.failed t := by
      rw [Bool.eq_iff_iff, ← not_iff_not, Bool.not_eq_true, Bool.not_eq_true, hok t]
      exact and_iff_left hne
    rw [hstream, hsent]
    exact ⟨rfl, Function.update_of_ne (Ne.symm hu) _ _, hfailed⟩

/-- Nothing has been written on the stream of a connection that has not been made. -/
theorem stream_idle (h : (wiredServer cfg).Run ls c) (ht : c.state.task t = .idle) :
    c.stream t = [] ∧ c.sent t = [] ∧ c.failed t = false := by
  refine Lts.Run.induct (P := fun _ c => c.state.task t = .idle →
    c.stream t = [] ∧ c.sent t = [] ∧ c.failed t = false) (fun _ => ⟨rfl, rfl, rfl⟩) ?_ h ht
  intro ls c l c' hr ih hs hidle
  have key : c.state.task t = .idle → ((∃ u bytes, l = .part u bytes ∧ u ≠ t) ∨
      ∃ u op, l = .step (u, op) ∧ u ≠ t) →
      c'.stream t = [] ∧ c'.sent t = [] ∧ c'.failed t = false := by
    intro hk hl
    obtain ⟨h₁, h₂, h₃⟩ := stream_elsewhere hr (by rw [hk]; rfl) hl hs
    rw [h₁, h₂, h₃]
    exact ih hk
  cases l with
  | part u bytes =>
      obtain ⟨w, frame, hf, _, hstate, _⟩ := Wiring.step_part hs
      rw [hstate] at hidle
      refine key hidle (Or.inl ⟨u, bytes, rfl, ?_⟩)
      rintro rfl
      obtain ⟨m, hm, _⟩ := serverWiring_frame.mp hf
      rw [hidle] at hm
      cases hm
  | step a =>
      obtain ⟨u, op⟩ := a
      have hstep := (Wiring.step_step hs).1
      have hu : u ≠ t := by
        rintro rfl
        exact (server_step_self hstep).not_idle hidle
      refine key ?_ (Or.inr ⟨u, op, rfl, hu⟩)
      obtain he | ⟨_, ha⟩ := server_step_other hstep (Ne.symm hu)
      · rw [← he, hidle]
      · rw [hidle] at ha
        generalize c.state.task t = k at ha
        cases ha

/-- Where a task has no frame to write, it has written nothing of one. -/
theorem sent_nil (h : (wiredServer cfg).Run ls c) (ht : (c.state.task t).frame? t = none) :
    c.sent t = [] := by
  have hinv := Wiring.inv serverWiring_orderly (fun _ _ hr => serverWiring_exclusive hr) h
  obtain hnil | ⟨w, frame, hf, _⟩ := hinv.sent t
  · exact hnil
  · obtain ⟨m, hm, _⟩ := serverWiring_frame.mp hf
    rw [ht] at hm
    cases hm

/-- What has been written of a frame is a part of it. -/
theorem sent_prefix {frame : List UInt8} (h : (wiredServer cfg).Run ls c)
    (ht : (c.state.task t).frame? t = some (w, m)) (hm : sendBytes m = some frame) :
    c.sent t <+: frame := by
  have hinv := Wiring.inv serverWiring_orderly (fun _ _ hr => serverWiring_exclusive hr) h
  obtain hnil | ⟨w', frame', hf, hpre⟩ := hinv.sent t
  · rw [hnil]
    exact List.nil_prefix
  · obtain ⟨m', hm', hframe⟩ := serverWiring_frame.mp hf
    rw [ht] at hm'
    cases hm'
    rw [hm] at hframe
    rw [Option.some.inj hframe]
    exact hpre

/-- A connection that is turned away starts with nothing on its stream. -/
theorem rebuffed_connect {peer : String} {first : Option Line} (hr : (wiredServer cfg).Run ls c)
    (hbad : ¬Authorized cfg.tokens first)
    (h : (wiredServer cfg).step c (.step (t, .connect peer first)) = some c') :
    Rebuffed cfg.tokens t c' := by
  obtain ⟨hs, hstream, hsent, _, hok⟩ := Wiring.step_step h
  obtain ⟨hidle, hk⟩ := (server_step_self hs).connected rfl
  obtain ⟨hst, _, hft⟩ := stream_idle hr hidle
  have hfailed : c'.failed t = false := (hok t).mpr ⟨hft, nofun⟩
  have hnil : c'.stream t = [] := by rw [hstream, hst]
  have hsent' : c'.sent t = [] := by rw [hsent]; exact Function.update_self _ _ _
  refine ⟨?_, fun _ => ⟨by rw [hnil, hsent'], hfailed⟩, fun _ => Or.inl ⟨hnil, hfailed⟩⟩
  rw [hk]
  exact turnedAway_connect hbad

theorem Rebuffed.part {bytes : List UInt8} (hi : Rebuffed cfg.tokens t c)
    (hr : (wiredServer cfg).Run ls c)
    (h : (wiredServer cfg).step c (.part u bytes) = some c') : Rebuffed cfg.tokens t c' := by
  obtain ⟨w, frame, hf, _, hstate, hfailed, hstream, hsent⟩ := Wiring.step_part h
  obtain ⟨m, hm, _⟩ := serverWiring_frame.mp hf
  by_cases hu : u = t
  -- the session writes its own `Error`
  · subst hu
    obtain ⟨rfl, hnot, _⟩ := hi.away.frame hm
    obtain ⟨hs, hft⟩ := hi.before hnot
    refine ⟨by rw [hstate]; exact hi.away, fun _ => ?_, fun hend => ?_⟩
    · rw [hfailed, hstream, hsent, Function.update_self, Function.update_self, hs]
      exact ⟨rfl, hft⟩
    · rw [hstate, hnot] at hend
      cases hend
  · obtain ⟨h₁, h₂, h₃⟩ := stream_elsewhere hr hi.away.not_shared (Or.inl ⟨u, bytes, rfl, hu⟩) h
    exact ⟨by rw [hstate]; exact hi.away, by rw [hstate, h₁, h₂, h₃]; exact hi.before,
      by rw [hstate, h₁, h₃]; exact hi.after⟩

theorem Rebuffed.step (hi : Rebuffed cfg.tokens t c) (hr : (wiredServer cfg).Run ls c)
    (h : (wiredServer cfg).step c (.step (u, op)) = some c') : Rebuffed cfg.tokens t c' := by
  obtain ⟨hs, hstream, hsent, hwhole, hok⟩ := Wiring.step_step h
  by_cases hu : u = t
  · subst hu
    have hself := server_step_self hs
    have hsent' : c'.sent u = [] := by rw [hsent]; exact Function.update_self _ _ _
    -- The session goes on to its refusal, or writes it.
    obtain ⟨haway, hnot, ⟨rfl, hnone⟩ | ⟨reason, ok, rfl, hend⟩⟩ := hi.away.step hself
    · obtain ⟨hst, hft⟩ := hi.before hnot
      have hnil : c'.stream u = [] := by rw [hstream, hst, sent_nil hr hnone]
      have hfailed : c'.failed u = false := (hok u).mpr ⟨hft, nofun⟩
      exact ⟨haway, fun _ => ⟨by rw [hnil, hsent'], hfailed⟩, fun _ => Or.inl ⟨hnil, hfailed⟩⟩
    · obtain ⟨hst, hft⟩ := hi.before hnot
      obtain ⟨frame, hframe⟩ := sendBytes_some (.error ⟨reason⟩)
      have he : serverWiring.ends? (u, .send u (.error ⟨reason⟩) ok) = some (u, frame, ok) :=
        serverWiring_ends.mpr ⟨_, rfl, hframe⟩
      refine ⟨haway, fun hne => ?_, fun _ => Or.inr ⟨reason, frame, hframe, ?_, fun hf => ?_⟩⟩
      · rw [hend] at hne
        cases hne
      · rw [hstream, hst]
        exact sent_prefix hr (hself.frame rfl) hframe
      · cases ok with
        | false => exact absurd he (((hok u).mp hf).2 frame)
        | true =>
            rw [hstream, hst]
            exact hwhole u frame he
  -- Another task neither moves the session nor writes on its stream.
  · have hkeep : c'.state.task t = c.state.task t := by
      obtain he | ⟨_, ha⟩ := server_step_other hs (Ne.symm hu)
      · exact he
      · have haway := hi.away
        generalize c.state.task t = k at ha haway
        generalize c'.state.task t = k' at ha
        cases ha <;> cases haway
    obtain ⟨h₁, h₂, h₃⟩ := stream_elsewhere hr hi.away.not_shared (Or.inr ⟨u, op, rfl, hu⟩) h
    exact ⟨by rw [hkeep]; exact hi.away, by rw [hkeep, h₁, h₂, h₃]; exact hi.before,
      by rw [hkeep, h₁, h₃]; exact hi.after⟩

/-- After the connection, its session only does what a refusal takes. -/
theorem rebuffed_run {post : List (WireOp (Tid × Op) Tid UInt8)} (hr : (wiredServer cfg).Run ls c)
    (hi : Rebuffed cfg.tokens t c) (h : (wiredServer cfg).runFrom c post = some c') :
    Rebuffed cfg.tokens t c' ∧
      ∀ op ∈ Tasks.opsOf t (post.filterMap WireOp.step?), Refusal t op := by
  refine Lts.runFrom_induct (P := fun post c' => Rebuffed cfg.tokens t c' ∧
    ∀ op ∈ Tasks.opsOf t (post.filterMap WireOp.step?), Refusal t op)
      ⟨hi, List.forall_mem_nil _⟩ ?_ h
  rintro post c₁ l c₂ hpost ⟨hi₁, hops⟩ hs
  have hr₁ := Lts.run_append.mpr ⟨c, hr, hpost⟩
  cases l with
  | part u bytes =>
      refine ⟨hi₁.part hr₁ hs, ?_⟩
      rw [List.filterMap_append, List.filterMap_cons_none rfl, List.filterMap_nil, List.append_nil]
      exact hops
  | step a =>
      obtain ⟨u, op⟩ := a
      refine ⟨hi₁.step hr₁ hs, fun op' hop' => ?_⟩
      rw [List.filterMap_append, Tasks.opsOf_append, List.mem_append] at hop'
      obtain hop' | hop' := hop'
      · exact hops op' hop'
      · have hmem := Tasks.mem_opsOf.mp hop'
        obtain ⟨l, hl, he⟩ := List.mem_filterMap.mp hmem
        rw [List.mem_singleton.mp hl] at he
        cases he
        exact hi₁.away.refusal (server_step_self (Wiring.step_step hs).1)

end Stream

/-! ## Connections without a valid token -/

/-- What has been written on the stream of session `t` is a part of one `Error`,
    and all of it or nothing once the session has ended, unless the write failed. -/
def AtMostOneError (c : WiredServer) (t : Tid) : Prop :=
  ∃ reason frame, sendBytes (.error ⟨reason⟩) = some frame ∧ c.stream t <+: frame ∧
    ((c.state.task t).returned = true → c.failed t = false → c.stream t = [] ∨ c.stream t = frame)

section Unauthorized

variable {cfg : ServerConfig} {t : Tid} {c : WiredServer}

theorem Rebuffed.atMostOneError {ls : List (WireOp (Tid × Op) Tid UInt8)}
    (hi : Rebuffed cfg.tokens t c) (hr : (wiredServer cfg).Run ls c) : AtMostOneError c t := by
  obtain ⟨frame₀, hframe₀⟩ := sendBytes_some (.error ⟨""⟩)
  cases hend : (c.state.task t).returned with
  | true =>
      obtain ⟨hnil, _⟩ | ⟨reason, frame, hframe, hpre, hall⟩ := hi.after hend
      · exact ⟨"", frame₀, hframe₀, by rw [hnil]; exact List.nil_prefix, fun _ _ => Or.inl hnil⟩
      · exact ⟨reason, frame, hframe, hpre, fun _ hf => Or.inr (hall hf)⟩
  | false =>
      have hst := (hi.before hend).1
      cases hf : (c.state.task t).frame? t with
      | none =>
          refine ⟨"", frame₀, hframe₀, ?_, fun he => absurd he (by rw [hend]; exact nofun)⟩
          rw [hst, sent_nil hr hf]
          exact List.nil_prefix
      | some f =>
          obtain ⟨rfl, _, reason, hm⟩ := hi.away.frame (w := f.1) (m := f.2) hf
          obtain ⟨frame, hframe⟩ := sendBytes_some (.error ⟨reason⟩)
          refine ⟨reason, frame, hframe, ?_, fun he => absurd he (by rw [hend]; exact nofun)⟩
          rw [hst]
          exact sent_prefix hr hf (by rw [hm, hframe])

/-- What a task that publishes nothing did does not matter for the events. -/
theorem published_erase {ls : List (Tid × Op)}
    (h : ∀ op ∈ Tasks.opsOf t ls, op.event? = none) :
      published (Tasks.erase t ls) = published ls := by
  induction ls with
  | nil => rfl
  | cons a ls ih =>
      obtain ⟨u, op⟩ := a
      have hls : ∀ op ∈ Tasks.opsOf t ls, op.event? = none := by
        intro op' hop'
        exact h op' (Tasks.mem_opsOf.mpr (List.mem_cons_of_mem _ (Tasks.mem_opsOf.mp hop')))
      by_cases hu : u = t
      · subst hu
        have hnone : op.event? = none := h op (Tasks.mem_opsOf.mpr List.mem_cons_self)
        rw [Tasks.erase, List.filter_cons_of_neg (by simp), ← Tasks.erase, ih hls]
        simp [published, hnone]
      · have hcons : ∀ ls', published ((u, op) :: ls') = published [(u, op)] ++ published ls' :=
          fun ls' => published_append [(u, op)] ls'
        rw [Tasks.erase, List.filter_cons_of_pos (by simpa using hu), ← Tasks.erase, hcons,
          ih hls, ← hcons]

/-- A connection whose first frame is no `Register` or `RegisterNode` with a valid
    token: the run without it ends in the same shared state, with the same other
    tasks and the same events.  Its session reads nothing more, and at most one
    `Error` is written to it. -/
theorem unauthorized_no_effect {fromStr : String → Option Message} {peer : String} {s : ByteStream}
    {pre post : List (WireOp (Tid × Op) Tid UInt8)}
    (h : (wiredServer cfg).Run (pre ++ .step (t, .connect peer (firstLine fromStr s)) :: post) c)
    (hbad : ¬Authorized cfg.tokens (firstLine fromStr s)) :
    (∃ d, (server cfg).Run
        (pre.filterMap WireOp.step? ++ Tasks.erase t (post.filterMap WireOp.step?)) d ∧
      d.shared = c.state.shared ∧ d.task t = .idle ∧ ∀ u, u ≠ t → d.task u = c.state.task u) ∧
    published (pre.filterMap WireOp.step? ++ Tasks.erase t (post.filterMap WireOp.step?)) =
      published ((pre ++ .step (t, .connect peer (firstLine fromStr s)) :: post).filterMap
        WireOp.step?) ∧
    (∀ op ∈ Tasks.opsOf t (post.filterMap WireOp.step?), Refusal t op) ∧ AtMostOneError c t := by
  obtain ⟨c₀, hpre, hrest⟩ := Lts.run_append.mp h
  obtain ⟨c₁, hconn, hpost⟩ := Option.bind_eq_some_iff.mp hrest
  have hr₁ := Lts.run_snoc.mpr ⟨c₀, hpre, hconn⟩
  have hreb := rebuffed_connect hpre hbad hconn
  obtain ⟨hreb', hops⟩ := rebuffed_run hr₁ hreb hpost
  refine ⟨?_, ?_, hops, hreb'.atMostOneError h⟩
  -- the connection changes nothing but its own task
  · have hstep := (Wiring.step_step hconn).1
    obtain ⟨hidle, _⟩ := (server_step_self hstep).connected rfl
    have hagree : Tasks.Agree t c₁.state c₀.state := by
      refine ⟨?_, fun u hu => (Tasks.step_others hstep rfl hu).symm⟩
      exact Option.some.inj (server_step_exec hstep)
    have hbase := Wiring.runFrom_base hpost
    obtain ⟨d, hd, ha, ht⟩ := (turnedAway_traceless cfg t).erase hreb.away hagree hbase
    exact ⟨d, Lts.run_append.mpr ⟨c₀.state, Wiring.run_base hpre, hd⟩, ha.shared, ht.trans hidle,
      ha.task⟩
  · have hevent : ∀ op ∈ Tasks.opsOf t (post.filterMap WireOp.step?), op.event? = none := by
      intro op hop
      cases hops op hop <;> rfl
    rw [published_append, published_erase hevent, List.filterMap_append, published_append]
    rfl

/-- A peer with a wrong token, and a node that registers meanwhile. -/
def intruder : Register := ⟨"guess", .tcp, 3000, some 7000, none, some "laptop"⟩

/-- The registration, up to where the peer connects. -/
def nodeArrives : List (WireOp (Tid × Op) Tid UInt8) :=
  nodeVisible.map .step

/-- A refusal and an acknowledgement, written in parts. -/
def turnedAwayRun : List (WireOp (Tid × Op) Tid UInt8) :=
  let refusal := (sendBytes (.error ⟨"invalid token"⟩)).getD []
  [.step (3, .compute), .part 3 (refusal.take 9), .step (2, .lockWriter 2),
   .part 2 ((sendBytes (.nodeRegistered ⟨"n"⟩)).getD []),
   .step (2, .sendUnlock 2 (.nodeRegistered ⟨"n"⟩) true), .part 3 (refusal.drop 9),
   .step (3, .send 3 (.error ⟨"invalid token"⟩) true)]

theorem unauthorized_no_effect_intruder :
    ∃ frame c d, sendBytes (.register intruder) = some frame ∧
      (wiredServer onePort).Run (nodeArrives ++ .step (3, .connect "10.0.0.66"
        (firstLine fromStr ⟨frame ++ [99, 10], false⟩)) :: turnedAwayRun) c ∧
      (server onePort).Run (nodeArrives.filterMap WireOp.step? ++
        Tasks.erase 3 (turnedAwayRun.filterMap WireOp.step?)) d ∧
      d.shared = c.state.shared ∧ AtMostOneError c 3 := by
  obtain ⟨frame, hframe⟩ := sendBytes_some (.register intruder)
  have hfirst : firstLine fromStr ⟨frame ++ [99, 10], false⟩ = some (some (.register intruder)) :=
    firstLine_frame fromStr_readsCompact hframe
  obtain ⟨c, hc, _⟩ : ∃ c, (wiredServer onePort).Run (nodeArrives ++
      .step (3, .connect "10.0.0.66" (some (some (.register intruder)))) :: turnedAwayRun) c ∧
      True := Lts.exists_run (by decide)
  rw [← hfirst] at hc
  have hbad : ¬Authorized onePort.tokens (firstLine fromStr ⟨frame ++ [99, 10], false⟩) := by
    rw [hfirst]
    exact show "guess" ∉ ["secret"] by decide
  obtain ⟨⟨d, hd, hshared, _⟩, _, _, hone⟩ := unauthorized_no_effect hc hbad
  exact ⟨frame, c, d, hframe, hc, hd, hshared, hone⟩

end Unauthorized

end Borehole
