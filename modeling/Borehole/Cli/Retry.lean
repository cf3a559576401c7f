/-
  Borehole.Cli.Retry

  `run_tunnel_loop` (crates/cli/src/main.rs) call by call: the outcomes of the
  successive calls of `tunnel::run`, and what the loop makes of them.

  The sender of a background worker is a value.  The loop gives it to the first
  call, which uses it if it registers and drops it if it does not.
-/

import Borehole.Cli.Records
import Borehole.Cli.Steps

namespace Borehole.Cli

/-- How one call of `tunnel::run` ends. -/
inductive Attempt where
  /-- It fails before the server has assigned a port. -/
  | failed
  /-- It registers and is disconnected later. -/
  | disconnected (port : UInt16)
  /-- It registers and is shut down. -/
  | closed (port : UInt16)
  deriving DecidableEq, Repr

/-- The port that the server assigned. -/
def Attempt.port? : Attempt → Option UInt16
  | .failed => none
  | .disconnected port | .closed port => some port

/-- What a loop has done after some calls. -/
structure Retried where
  /-- The port that went through `ready_tx`. -/
  reported : Option UInt16
  /-- What the loop returned, if it has. -/
  result : Option Bool
  deriving DecidableEq, Repr

/-- The loop, with `attempts` retries behind it and `ready_tx` in its hands or not,
    on the outcomes of the calls that follow. -/
def retries (attempts : Nat) (readyTx : Bool) : List Attempt → Retried
  | [] => ⟨none, none⟩
  | o :: os =>
      -- the call gets `ready_tx.take()`
      let reported := if readyTx then o.port? else none
      match o with
      | .closed _ => ⟨reported, some true⟩
      | .failed | .disconnected _ =>
          if attempts < 3 then
            let rest := retries (attempts + 1) false os
            ⟨reported.or rest.reported, rest.result⟩
          else ⟨reported, some false⟩

/-- The calls that the loop makes of a sequence of outcomes. -/
def calls (attempts : Nat) : List Attempt → List Attempt
  | [] => []
  | o :: os => o ::
      match o with
      | .closed _ => []
      | .failed | .disconnected _ => if attempts < 3 then calls (attempts + 1) os else []

/-- The first port that the server assigns. -/
def firstPort (os : List Attempt) : Option UInt16 :=
  os.findSome? Attempt.port?

/-- What the task that waits for `ready_tx` makes of the record. -/
def reportedRecord (r : TunnelRecord) : Option UInt16 → TunnelRecord
  | some port => r.active port
  | none => r

/-- If a call of the loop registers, the first port is reported, and the record
    becomes active with it. -/
def PortReported (os : List Attempt) (r : TunnelRecord) : Prop :=
  ∀ port, firstPort (calls 0 os) = some port →
    (retries 0 true os).reported = some port ∧
    (reportedRecord r (retries 0 true os).reported).state = stateActive ∧
    (reportedRecord r (retries 0 true os).reported).remotePort = some port

section Retries

variable {attempts : Nat} {o : Attempt} {os : List Attempt}

/-- Without the sender nothing is reported. -/
theorem retries_unreported : (retries attempts false os).reported = none := by
  induction os generalizing attempts with
  | nil => rfl
  | cons o os ih =>
      cases o with
      | closed port => rfl
      | failed | disconnected port =>
          rw [retries]
          simp only [Bool.false_eq_true, if_false]
          split
          · exact ih
          · rfl

/-- The first call decides what is reported. -/
theorem retries_reported : (retries attempts true (o :: os)).reported = o.port? := by
  cases o with
  | closed port => rfl
  | failed | disconnected port =>
      rw [retries]
      simp only [if_true]
      split
      · simp [retries_unreported]
      · rfl

theorem firstPort_calls : firstPort (calls attempts (o :: os)) =
    o.port?.or (firstPort (calls attempts (o :: os)).tail) := by
  cases o <;> simp [firstPort, calls, Attempt.port?, List.findSome?_cons]

/-- The first port is reported exactly if the first call registers or none does. -/
theorem port_reported_iff (os : List Attempt) (r : TunnelRecord) : PortReported os r ↔
    (os.head?.bind Attempt.port?).isSome = true ∨ firstPort (calls 0 os) = none := by
  cases os with
  | nil =>
      refine iff_of_true ?_ (Or.inr rfl)
      intro port hport
      cases hport
  | cons o os =>
      rw [PortReported, retries_reported, firstPort_calls, List.head?_cons, Option.bind_some]
      cases ho : o.port? with
      | some port =>
          refine iff_of_true ?_ (Or.inl rfl)
          rintro port' hport
          cases hport
          exact ⟨rfl, rfl, rfl⟩
      | none =>
          -- a later port is the first one, and nothing is left to report it through
          rw [Option.none_or]
          constructor
          · intro hall
            refine Or.inr (Option.eq_none_iff_forall_ne_some.mpr fun port hport => ?_)
            cases (hall port hport).1
          · rintro (hs | hn) port hport
            · cases hs
            · rw [hn] at hport
              cases hport

/-- The server is not there for the first call and is for the second. -/
theorem port_unreported :
    ¬ PortReported [.failed, .disconnected 7000] (.starting "1f" .tcp 3000 none none) := by
  intro hreported
  have hfirst := (hreported 7000 (by decide)).1
  exact absurd hfirst (by decide)

end Retries

/-! ## The loop operation by operation -/

/-- The channel of `ready_tx`. -/
inductive Ready where
  | empty
  | sent (port : UInt16)
  /-- The sender is gone. -/
  | dropped
  deriving DecidableEq, Repr

/-- What an operation does with the sender. -/
inductive Report where
  | none
  | send (port : UInt16)
  | drop
  deriving DecidableEq, Repr

/-- The channel after a call of `run`. -/
def Ready.after (ready : Ready) : Report → Ready
  | .none => ready
  | .send port => .sent port
  | .drop => .dropped

/-- The port that has been reported. -/
def Ready.port? : Ready → Option UInt16
  | .sent port => some port
  | _ => none

/-- `run_tunnel_loop` with a sender. -/
structure Loop where
  pc : RunTunnelLoop.Pc
  /-- The loop has `ready_tx`. -/
  readyTx : Bool
  /-- The current call of `run` has it. -/
  given : Bool
  /-- The port that the server has assigned to the current call. -/
  assigned : Option UInt16
  deriving DecidableEq, Repr

/-- The port of the verdict that a call of `run` reads. -/
def Run.verdict? : Run.Pc → Op → Option UInt16
  | .verdict _, .readLine (some (some (.registered r))) => some r.remotePort
  | _, _ => none

namespace Loop

/-- The first call has begun. -/
def start : Loop := ⟨.running 0 .load, false, true, none⟩

open RunTunnelLoop in
/-- One operation of the loop, and what it does with the sender. -/
def next (start : Start) (l : Loop) (op : Op) : Option (Loop × Report) :=
  match l.pc, op with
  | .running n pc, op =>
      (run start pc op).map fun
        | .at pc' =>
            match Run.verdict? pc op with
            | some port =>
                (⟨.running n pc', l.readyTx, false, some port⟩,
                  if l.given then .send port else .none)
            | none => (⟨.running n pc', l.readyTx, l.given, l.assigned⟩, .none)
        -- `run` has returned, and what it was given is gone
        | outcome => (⟨resume n outcome, l.readyTx, false, none⟩, if l.given then .drop else .none)
  -- the next call gets `ready_tx.take()`
  | .backoff n, .sleep => some (⟨.running (n + 1) .load, false, l.readyTx, none⟩, .none)
  | _, _ => none

/-- The port of a live registration. -/
def live? (l : Loop) : Option UInt16 :=
  match l.pc with
  | .running _ (.serve _) | .running _ (.spawn _ _) => l.assigned
  | _ => none

/-- The loop goes where `run_tunnel_loop` goes. -/
theorem next_pc {start : Start} {l : Loop} {op : Op} :
    (next start l op).map (fun x => x.1.pc) = runTunnelLoop start l.pc op := by
  obtain ⟨pc, readyTx, given, assigned⟩ := l
  cases pc with
  | running n pc =>
      change ((run start pc op).map _).map _ = (run start pc op).map _
      rw [Option.map_map]
      congr 1
      funext o
      cases o with
      | «at» pc' =>
          simp only [Function.comp_apply]
          split <;> rfl
      | ok | err => rfl
  | backoff n => cases op <;> rfl
  | exited ok => cases op <;> rfl

/-- The transitions of the loop. -/
inductive Step (start : Start) : Loop → Op → Loop → Report → Prop where
  | work {n pc pc' readyTx given assigned op} : Run.Step start pc op (.at pc') →
      Run.verdict? pc op = none →
      Step start ⟨.running n pc, readyTx, given, assigned⟩ op
        ⟨.running n pc', readyTx, given, assigned⟩ .none
  | registered {n cfg readyTx given assigned} {r : Registered} :
      Step start ⟨.running n (.verdict cfg), readyTx, given, assigned⟩
        (.readLine (some (some (.registered r))))
        ⟨.running n (.serve cfg), readyTx, false, some r.remotePort⟩
        (if given then .send r.remotePort else .none)
  | failed {n pc readyTx given assigned op} : Run.Step start pc op .err →
      Step start ⟨.running n pc, readyTx, given, assigned⟩ op
        ⟨RunTunnelLoop.resume n .err, readyTx, false, none⟩ (if given then .drop else .none)
  | closed {n cfg readyTx given assigned} :
      Step start ⟨.running n (.serve cfg), readyTx, given, assigned⟩ .ctrlC
        ⟨.exited true, readyTx, false, none⟩ (if given then .drop else .none)
  | again {n readyTx given assigned} :
      Step start ⟨.backoff n, readyTx, given, assigned⟩ .sleep
        ⟨.running (n + 1) .load, false, readyTx, none⟩ .none

theorem next_step {start : Start} {l l' : Loop} {op : Op} {rep : Report}
    (h : next start l op = some (l', rep)) : Step start l op l' rep := by
  obtain ⟨pc, readyTx, given, assigned⟩ := l
  cases pc with
  | running n pc =>
      obtain ⟨o, ho, he⟩ := Option.map_eq_some_iff.mp h
      have hs := run_step ho
      cases o with
      | «at» pc' =>
          simp only at he
          split at he
          · rename_i port hport
            cases hs with
            | registered => cases hport; cases he; exact .registered
            | _ => cases hport
          · rename_i hport
            cases he
            exact .work hs hport
      | ok => cases he; cases hs; exact .closed
      | err => cases he; exact .failed hs
  | backoff n =>
      cases op with
      | sleep => cases h; exact .again
      | _ => cases h
  | exited ok => cases op <;> cases h

/-- What the loop has returned, if it has. -/
def result? (l : Loop) : Option Bool :=
  match l.pc with
  | .exited ok => some ok
  | _ => none

/-- The outcome of a call that is live, if it goes on no longer. -/
def current (l : Loop) : List Attempt :=
  l.assigned.toList.map .disconnected

/-- The outcome of the call that an operation ends. -/
def ends? (l l' : Loop) : Option Attempt :=
  match l.pc, l'.pc, l.assigned with
  | .running _ _, .running _ _, _ => none
  | .running _ _, .exited true, some port => some (.closed port)
  | .running _ _, _, some port => some (.disconnected port)
  | .running _ _, _, none => some .failed
  | _, _, _ => none

end Loop

/-- The loop, its channel, and the outcomes of the calls that have ended. -/
structure LoopRun where
  loop : Loop
  ready : Ready
  ended : List Attempt

/-- A call that fails ends with the port it was assigned. -/
theorem Loop.ends_failed (n : Nat) (pc : Run.Pc) (readyTx given : Bool)
    (assigned : Option UInt16) :
    ∃ o, Loop.ends? ⟨.running n pc, readyTx, given, assigned⟩
        ⟨RunTunnelLoop.resume n .err, readyTx, false, none⟩ = some o ∧
      (∀ port, o ≠ .closed port) ∧ o.port? = assigned := by
  rw [RunTunnelLoop.resume]
  by_cases hn : n < 3
  · rw [if_pos hn]
    cases assigned with
    | none => exact ⟨.failed, rfl, nofun, rfl⟩
    | some port => exact ⟨.disconnected port, rfl, nofun, rfl⟩
  · rw [if_neg hn]
    cases assigned with
    | none => exact ⟨.failed, rfl, nofun, rfl⟩
    | some port => exact ⟨.disconnected port, rfl, nofun, rfl⟩

/-- The operations of the loop of a background worker. -/
def workerLoop (start : Start) : Conc.Lts LoopRun Op where
  init := ⟨Loop.start, .empty, []⟩
  step s op := (s.loop.next start op).map fun x =>
    ⟨x.1, s.ready.after x.2, s.ended ++ (s.loop.ends? x.1).toList⟩

section WorkerLoop

variable {attempts : Nat} {os : List Attempt} {o : Attempt}

/-- The attempts that leave the loop going. -/
def Attempt.retried : Attempt → Bool
  | .closed _ => false
  | _ => true

theorem retries_cons {readyTx : Bool} (ho : o.retried = true) (ha : attempts < 3) :
    (retries attempts readyTx (o :: os)).result = (retries (attempts + 1) false os).result := by
  cases o with
  | closed port => cases ho
  | failed | disconnected port => simp [retries, ha]

/-- While calls are retried the loop goes on as without them, three times. -/
theorem retries_append {readyTx : Bool} (hos : ∀ o ∈ os, o.retried = true)
    (hlen : attempts + os.length ≤ 3) (os' : List Attempt) :
    (retries attempts readyTx (os ++ os')).result =
      (retries (attempts + os.length) (readyTx && os.isEmpty) os').result := by
  induction os generalizing attempts readyTx with
  | nil => simp
  | cons o os ih =>
      have hlen' : attempts + 1 + os.length ≤ 3 := by
        rw [List.length_cons] at hlen
        omega
      have ha : attempts < 3 := by omega
      rw [List.cons_append, retries_cons (hos o List.mem_cons_self) ha,
        ih (fun o ho => hos o (List.mem_cons_of_mem _ ho)) hlen']
      simp [Nat.add_assoc, Nat.add_comm 1]

theorem retries_reported_head :
    (retries attempts true os).reported = os.head?.bind Attempt.port? := by
  cases os with
  | nil => rfl
  | cons o os => exact retries_reported

/-- A call of `run` has a port from the verdict on. -/
def Run.Pc.serving : Run.Pc → Bool
  | .serve _ | .spawn _ _ => true
  | _ => false

/-- Where the loop is, on the outcomes so far. -/
def RunTunnelLoop.Pc.At (ended : List Attempt) : RunTunnelLoop.Pc → Prop
  | .running n _ => ended.length = n ∧ n ≤ 3 ∧ ∀ o ∈ ended, o.retried = true
  | .backoff n => ended.length = n + 1 ∧ n < 3 ∧ ∀ o ∈ ended, o.retried = true
  | .exited ok => (retries 0 true ended).result = some ok

/-- The sender is in the first call until that registers or ends. -/
structure LoopRunInv (s : LoopRun) : Prop where
  readyTx : s.loop.readyTx = false
  given : s.loop.given = true → s.ended = [] ∧ s.loop.assigned = none ∧ s.ready = .empty
  used : s.loop.given = false → s.ended = [] → s.loop.assigned ≠ none
  assigned : ∀ n pc, s.loop.pc = .running n pc → s.loop.assigned.isSome = pc.serving
  idle : (∀ n pc, s.loop.pc ≠ .running n pc) → s.loop.assigned = none
  reported : s.ready.port? = ((s.ended ++ s.loop.current).head?).bind Attempt.port?
  at' : s.loop.pc.At s.ended

/-- A registration is live as long as its port is there. -/
theorem LoopRunInv.live {s : LoopRun} (hi : LoopRunInv s) : s.loop.live? = s.loop.assigned := by
  rw [Loop.live?]
  split
  · rfl
  · rfl
  · rename_i hserve hspawn
    cases hpc : s.loop.pc with
    | running n pc =>
        have ha := hi.assigned n pc hpc
        cases pc with
        | serve cfg => exact absurd hpc (hserve n cfg)
        | spawn cfg notice => exact absurd hpc (hspawn n cfg notice)
        | _ => exact (Option.not_isSome_iff_eq_none.mp (by rw [ha]; nofun)).symm
    | backoff n => exact (hi.idle (by rw [hpc]; nofun)).symm
    | exited ok => exact (hi.idle (by rw [hpc]; nofun)).symm

/-- The loop has no sender to use once a port has been sent. -/
theorem LoopRunInv.sent {s : LoopRun} {start : Start} {op : Op} {l' : Loop} {rep : Report}
    {port : UInt16} (hi : LoopRunInv s) (h : Loop.Step start s.loop op l' rep)
    (hp : s.ready.port? = some port) : s.ready.after rep = s.ready := by
  have hgiven : s.loop.given = false := by
    cases hg : s.loop.given with
    | false => rfl
    | true =>
        rw [(hi.given hg).2.2] at hp
        cases hp
  obtain ⟨l, ready, ended⟩ := s
  cases h with
  | work | again => rfl
  | registered | failed | closed =>
      simp only at hgiven
      rw [hgiven]
      rfl

theorem Run.Step.serving {start : Start} {pc pc' : Run.Pc} {op : Op}
    (h : Run.Step start pc op (.at pc')) (hv : Run.verdict? pc op = none) :
    pc'.serving = pc.serving := by
  cases h with
  | registered => cases hv
  | _ => rfl

/-- Dropping the sender sends nothing. -/
theorem ready_after_drop {given : Bool} {ready : Ready} (h : given = true → ready = .empty) :
    (ready.after (if given then .drop else .none)).port? = ready.port? := by
  cases given with
  | false => rfl
  | true =>
      rw [h rfl]
      rfl

theorem loopRunInv_step {start : Start} {s s' : LoopRun} {op : Op} (hi : LoopRunInv s)
    (h : (workerLoop start).step s op = some s') : LoopRunInv s' := by
  obtain ⟨⟨l', rep⟩, hn, rfl⟩ := Option.map_eq_some_iff.mp h
  obtain ⟨hrtx, hgiven, hused, hassigned, hidle, hrep, hat⟩ := hi
  obtain ⟨l, ready, ended⟩ := s
  simp only at *
  have hs := Loop.next_step hn
  clear hn h
  cases hs with
  | @work n pc pc' readyTx given assigned op hrun hv =>
      rw [show Loop.ends? _ _ = none from rfl, Option.toList_none, List.append_nil]
      refine ⟨hrtx, hgiven, hused, ?_, fun hne => ?_, hrep, hat⟩
      · intro n' q hq
        cases hq
        rw [hrun.serving hv]
        exact hassigned n pc rfl
      · exact absurd rfl (hne n pc')
  | @registered n cfg readyTx given assigned r =>
      have hnone : assigned = none := by
        have ha := hassigned n (.verdict cfg) rfl
        exact Option.isNone_iff_eq_none.mp (by rw [← Option.not_isSome, ha]; rfl)
      subst hnone
      rw [show Loop.ends? _ _ = none from rfl, Option.toList_none, List.append_nil]
      refine ⟨hrtx, nofun, fun _ _ => nofun, ?_, fun hne => ?_, ?_, hat⟩
      · intro n' q hq
        cases hq
        rfl
      · exact absurd rfl (hne n (.serve cfg))
      · cases given with
        | true =>
            obtain ⟨rfl, _, _⟩ := hgiven rfl
            rfl
        | false =>
            -- the head is the outcome of the first call, which has ended
            cases ended with
            | nil => exact absurd rfl (hused rfl rfl)
            | cons o os => exact hrep
  | @failed n pc readyTx given assigned op hrun =>
      obtain ⟨hlen, hn, hall⟩ := hat
      obtain ⟨o, ho, hopen, hport⟩ :=
        Loop.ends_failed n pc readyTx given assigned
      have hretried : o.retried = true := by
        cases o with
        | closed port => exact absurd rfl (hopen port)
        | _ => rfl
      have hall' : ∀ o' ∈ ended ++ [o], o'.retried = true := by
        intro o' ho'
        obtain ho' | ho' := List.mem_append.mp ho'
        · exact hall o' ho'
        · rw [List.mem_singleton.mp ho']
          exact hretried
      rw [ho, Option.toList_some]
      refine ⟨hrtx, nofun, fun _ he => ?_, fun n' q hq => ?_, fun _ => rfl, ?_, ?_⟩
      · exact absurd he (by simp)
      · rw [RunTunnelLoop.resume] at hq
        split at hq <;> cases hq
      · rw [Loop.current, Option.toList_none, List.map_nil, List.append_nil]
        rw [ready_after_drop (fun hg => (hgiven hg).2.2), hrep, Loop.current]
        cases ended with
        | cons o' os => rfl
        | nil => cases assigned <;> exact hport.symm
      · rw [RunTunnelLoop.resume]
        split
        · refine ⟨?_, ‹_›, hall'⟩
          rw [List.length_append, hlen, List.length_singleton]
        · have hn3 : n = 3 := by omega
          rw [RunTunnelLoop.Pc.At, retries_append hall (by omega), Nat.zero_add, hlen, hn3]
          cases o <;> first | rfl | cases hretried
  | @closed n cfg readyTx given assigned =>
      obtain ⟨hlen, hn, hall⟩ := hat
      obtain ⟨port, rfl⟩ : ∃ port, assigned = some port :=
        Option.isSome_iff_exists.mp (hassigned n (.serve cfg) rfl)
      rw [show Loop.ends? _ _ = some (.closed port) from rfl, Option.toList_some]
      refine ⟨hrtx, nofun, fun _ he => ?_, fun n' q hq => ?_, fun _ => rfl, ?_, ?_⟩
      · exact absurd he (by simp)
      · cases hq
      · rw [Loop.current, Option.toList_none, List.map_nil, List.append_nil]
        rw [ready_after_drop (fun hg => (hgiven hg).2.2), hrep, Loop.current]
        cases ended <;> rfl
      · rw [RunTunnelLoop.Pc.At, retries_append hall (by omega)]
        rfl
  | @again n readyTx given assigned =>
      obtain ⟨hlen, hn, hall⟩ := hat
      have hnone : assigned = none := hidle fun _ _ => nofun
      rw [show Loop.ends? _ _ = none from rfl, Option.toList_none, List.append_nil]
      refine ⟨rfl, fun hg => ?_, fun _ he => ?_, fun n' q hq => ?_, fun hne => ?_, ?_, ?_⟩
      · rw [show readyTx = false from hrtx] at hg
        cases hg
      · rw [show ended = [] from he] at hlen
        cases hlen
      · cases hq
        rfl
      · exact rfl
      · rw [hnone] at hrep
        exact hrep
      · exact ⟨hlen, hn, hall⟩

theorem loopRunInv {start : Start} {ops : List Op} {s : LoopRun}
    (hr : (workerLoop start).Run ops s) : LoopRunInv s := by
  refine Conc.Lts.Run.induct (P := fun _ s => LoopRunInv s) ?_ ?_ hr
  · refine ⟨rfl, fun _ => ⟨rfl, rfl, rfl⟩, fun hg => ?_, fun n pc hpc => ?_,
      fun hne => absurd rfl (hne 0 .load), rfl, ⟨rfl, Nat.zero_le 3, fun o ho => ?_⟩⟩
    · cases hg
    · cases hpc
      rfl
    · cases ho
  · intro _ s op s' _ hi hs
    exact loopRunInv_step hi hs

/-- What the loop has reported and returned is what `retries` makes of the
    outcomes of its calls. -/
theorem workerLoop_retries {start : Start} {ops : List Op} {s : LoopRun}
    (hr : (workerLoop start).Run ops s) :
    (retries 0 true (s.ended ++ s.loop.current)).reported = s.ready.port? ∧
    (retries 0 true s.ended).result = s.loop.result? := by
  have hi := loopRunInv hr
  refine ⟨by rw [retries_reported_head, hi.reported], ?_⟩
  have hat := hi.at'
  rw [Loop.result?]
  cases hpc : s.loop.pc with
  | running n pc | backoff n =>
      rw [hpc] at hat
      obtain ⟨hlen, hn, hall⟩ := hat
      have happend : (retries 0 true (s.ended ++ [])).result =
          (retries (0 + s.ended.length) (true && s.ended.isEmpty) []).result :=
        retries_append hall (by omega) []
      rw [List.append_nil] at happend
      rw [happend]
      rfl
  | exited ok =>
      rw [hpc] at hat
      exact hat

end WorkerLoop

/-! ## Giving up -/

/-- The loop returns an error only after a call that failed or was disconnected and
    three calls in a row that did not register, and never if every call registers. -/
structure GivesUpLate (os : List Attempt) : Prop where
  inRow : ∀ readyTx, (retries 0 readyTx os).result = some false →
    ∃ before o, calls 0 os = before ++ [o, .failed, .failed, .failed] ∧ o.retried = true
  reconnects : ∀ readyTx, (∀ o ∈ calls 0 os, o.port?.isSome = true) →
    (retries 0 readyTx os).result ≠ some false

section GivesUp

variable {attempts left : Nat} {os : List Attempt}

theorem Attempt.closed_of_not_retried {o : Attempt} (h : o.retried = false) :
    ∃ port, o = .closed port := by
  cases o with
  | closed port => exact ⟨port, rfl⟩
  | failed | disconnected port => cases h

/-- The loop gives up on the call after its last retry, whatever the calls were that
    it has retried. -/
theorem retries_error_iff {readyTx : Bool} (hleft : attempts + left = 3) :
    (retries attempts readyTx os).result = some false ↔
      left < os.length ∧ ∀ o ∈ os.take (left + 1), o.retried = true := by
  induction os generalizing attempts left readyTx with
  | nil => simp [retries]
  | cons o os ih =>
      cases ho : o.retried with
      | false =>
          obtain ⟨port, rfl⟩ := Attempt.closed_of_not_retried ho
          refine iff_of_false nofun ?_
          rintro ⟨_, hall⟩
          have hclosed := hall (.closed port) List.mem_cons_self
          cases hclosed
      | true =>
          cases left with
          | zero =>
              -- the three retries are used up
              have ha : ¬ attempts < 3 := by omega
              refine iff_of_true ?_ ⟨Nat.succ_pos _, ?_⟩
              · cases o with
                | closed port => cases ho
                | failed | disconnected port => simp [retries, ha]
              · intro o' ho'
                rw [List.take_succ_cons, List.take_zero, List.mem_singleton] at ho'
                rw [ho', ho]
          | succ left =>
              have ha : attempts < 3 := by omega
              rw [retries_cons ho ha, ih (show attempts + 1 + left = 3 by omega),
                List.take_succ_cons, List.length_cons]
              simp [ho]

/-- A loop that retries all it can makes one call more than it has retries. -/
theorem calls_eq_take (hleft : attempts + left = 3)
    (hall : ∀ o ∈ os.take (left + 1), o.retried = true) :
    calls attempts os = os.take (left + 1) := by
  induction os generalizing attempts left with
  | nil => rfl
  | cons o os ih =>
      rw [List.take_succ_cons] at hall
      have ho : o.retried = true := hall o List.mem_cons_self
      have hrest : calls attempts (o :: os) =
          o :: if attempts < 3 then calls (attempts + 1) os else [] := by
        cases o with
        | closed port => cases ho
        | failed | disconnected port => rfl
      rw [hrest, List.take_succ_cons]
      cases left with
      | zero =>
          have ha : ¬ attempts < 3 := by omega
          rw [if_neg ha, List.take_zero]
      | succ left =>
          have ha : attempts < 3 := by omega
          rw [if_pos ha, ih (by omega) fun o' ho' => hall o' (List.mem_cons_of_mem _ ho')]

/-- The counter of the retries is never reset: of four calls that all fail or are
    disconnected the loop does not live through the last, registered or not. -/
theorem gives_up_late_iff (os : List Attempt) : GivesUpLate os ↔
    os.length < 4 ∨ (∃ o ∈ os.take 4, o.retried = false) ∨
      (os.take 4).tail = [.failed, .failed, .failed] := by
  have hiff : ∀ readyTx, (retries 0 readyTx os).result = some false ↔
      3 < os.length ∧ ∀ o ∈ os.take 4, o.retried = true :=
    fun _ => retries_error_iff rfl
  by_cases herr : 3 < os.length ∧ ∀ o ∈ os.take 4, o.retried = true
  · obtain ⟨hlen, hall⟩ := herr
    have hresult : ∀ readyTx, (retries 0 readyTx os).result = some false :=
      fun readyTx => (hiff readyTx).mpr ⟨hlen, hall⟩
    have hcalls : calls 0 os = os.take 4 := calls_eq_take rfl hall
    have htake : (os.take 4).length = 4 := by
      rw [List.length_take]
      omega
    constructor
    · rintro ⟨hrow, -⟩
      obtain ⟨before, o, ho, -⟩ := hrow true (hresult true)
      -- four calls are made, so nothing comes before the last four
      rw [hcalls] at ho
      have hnil : before = [] := by
        rw [ho, List.length_append] at htake
        exact List.length_eq_zero_iff.mp (Nat.add_right_cancel (htake.trans (Nat.zero_add 4).symm))
      rw [hnil, List.nil_append] at ho
      exact Or.inr (Or.inr (by rw [ho]; rfl))
    · intro hcond
      have htail : (os.take 4).tail = [.failed, .failed, .failed] := by
        obtain hlt | ⟨o, ho, hclosed⟩ | htail := hcond
        · exact absurd hlt (by omega)
        · rw [hall o ho] at hclosed
          cases hclosed
        · exact htail
      obtain ⟨o, rest, htake4⟩ : ∃ o rest, os.take 4 = o :: rest :=
        List.exists_cons_of_length_pos (by omega)
      have hrest : rest = [.failed, .failed, .failed] := by
        rw [htake4] at htail
        exact htail
      have hmem : o ∈ os.take 4 := by
        rw [htake4]
        exact List.mem_cons_self
      refine ⟨fun _ _ => ⟨[], o, ?_, hall o hmem⟩, fun _ hport => ?_⟩
      · rw [hcalls, htake4, hrest]
        rfl
      · have hfailed : Attempt.failed ∈ calls 0 os := by
          rw [hcalls, htake4, hrest]
          exact List.mem_cons_of_mem _ List.mem_cons_self
        cases hport _ hfailed
  -- the loop ends cleanly or goes on
  · have hresult : ∀ readyTx, (retries 0 readyTx os).result ≠ some false :=
      fun readyTx h => herr ((hiff readyTx).mp h)
    refine iff_of_true ⟨fun readyTx h => absurd h (hresult readyTx), fun readyTx _ =>
      hresult readyTx⟩ ?_
    by_cases hlen : os.length < 4
    · exact Or.inl hlen
    · refine Or.inr (Or.inl ?_)
      by_contra hnone
      refine herr ⟨by omega, fun o ho => ?_⟩
      cases hretried : o.retried with
      | true => rfl
      | false => exact absurd ⟨o, ho, hretried⟩ hnone

/-- Every reconnection succeeds, and the fourth disconnect is the last. -/
theorem gives_up_connected : ¬ GivesUpLate
    [.disconnected 7000, .disconnected 7000, .disconnected 7000, .disconnected 7000] := by
  rintro ⟨-, hreconnects⟩
  exact hreconnects true (by decide) rfl

end GivesUp

end Borehole.Cli
