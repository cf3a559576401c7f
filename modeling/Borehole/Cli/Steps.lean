/-
  Borehole.Cli.Steps

  Inversion of the transition functions of `Borehole.Cli.Control`, one named rule
  for each transition.
-/

import Borehole.Cli.Control

namespace Borehole.Cli

variable {start : Start} {op : Op}

/-- The transitions of `tunnel::run`. -/
inductive Run.Step (start : Start) : Pc → Op → Outcome → Prop where
  | loaded {cfg} : Step start .load (.load (some cfg)) (.at (.connect cfg))
  | unconfigured : Step start .load (.load none) .err
  | connected {cfg} :
      Step start (.connect cfg) (.connect cfg.serverAddr true) (.at (.handshake cfg))
  | unreachable {cfg} : Step start (.connect cfg) (.connect cfg.serverAddr false) .err
  | secured {cfg} : Step start (.handshake cfg) (.handshake true) (.at (.hostname cfg))
  | insecure {cfg} : Step start (.handshake cfg) (.handshake false) .err
  | hostname {cfg name} : Step start (.hostname cfg) (.hostname name) (.at (.register cfg name))
  | register {cfg name} :
      Step start (.register cfg name) (.sendRegister (registerMsg start cfg name) true)
        (.at (.verdict cfg))
  | registerFailed {cfg name} :
      Step start (.register cfg name) (.sendRegister (registerMsg start cfg name) false) .err
  | registered {cfg r} :
      Step start (.verdict cfg) (.readLine (some (some (.registered r)))) (.at (.serve cfg))
  | rejected {cfg line} : (∀ r, line ≠ some (some (.registered r))) →
      Step start (.verdict cfg) (.readLine line) .err
  | ctrlC {cfg} : Step start (.serve cfg) .ctrlC .ok
  | visitor {cfg notice} :
      Step start (.serve cfg) (.readLine (some (some (.newConn notice)))) (.at (.spawn cfg notice))
  | ignored {cfg line} : (∀ notice, line ≠ some (.newConn notice)) →
      Step start (.serve cfg) (.readLine (some line)) (.at (.serve cfg))
  | disconnected {cfg} : Step start (.serve cfg) (.readLine none) .err
  | spawn {cfg notice d} :
      Step start (.spawn cfg notice) (.spawn d (dataCtx start cfg notice)) (.at (.serve cfg))

theorem run_step {pc : Run.Pc} {o : Run.Outcome} (h : run start pc op = some o) :
    Run.Step start pc op o := by
  revert h
  fun_cases run start pc op
  case case15 hl => intro h; cases h; exact .rejected hl
  case case18 hl => intro h; cases h; exact .ignored hl
  all_goals
    intro h
    cases h
    all_goals constructor

/-- The transitions of `run_tunnel_loop`. -/
inductive RunTunnelLoop.Step (start : Start) : Pc → Op → Pc → Prop where
  | run {n pc op o} : Run.Step start pc op o → Step start (.running n pc) op (resume n o)
  | again {n} : Step start (.backoff n) .sleep (.running (n + 1) .load)

theorem runTunnelLoop_step {pc pc' : RunTunnelLoop.Pc} (h : runTunnelLoop start pc op = some pc') :
    RunTunnelLoop.Step start pc op pc' := by
  revert h
  fun_cases runTunnelLoop start pc op
  case case1 n pc =>
      intro h
      obtain ⟨o, ho, rfl⟩ := Option.map_eq_some_iff.mp h
      exact .run (run_step ho)
  all_goals
    intro h
    cases h
    all_goals constructor

/-- The transitions of `handle_data_conn`. -/
inductive HandleDataConn.Step (ctx : DataCtx) : Pc → Op → Pc → Prop where
  | dial {ok} : Step ctx .connect (.dial (endpoint ctx) ok) (if ok then .announce else .done)
  | announce {ok} :
      Step ctx .announce (.announce (.dataConn ⟨ctx.connId⟩) ok) (if ok then .dialLocal else .done)
  | dialLocal {ok} :
      Step ctx .dialLocal (.dialLocal ctx.localPort ok) (if ok then .piping else .done)
  | copied : Step ctx .piping .copied .done

theorem handleDataConn_step {ctx : DataCtx} {pc pc' : HandleDataConn.Pc}
    (h : handleDataConn ctx pc op = some pc') : HandleDataConn.Step ctx pc op pc' := by
  cases pc with
  | connect =>
      cases op with
      | dial e ok =>
          obtain ⟨rfl, hpc⟩ := Option.ite_none_right_eq_some.mp h
          rw [← Option.some.inj hpc]
          exact .dial
      | _ => cases h
  | announce =>
      cases op with
      | announce m ok =>
          obtain ⟨rfl, hpc⟩ := Option.ite_none_right_eq_some.mp h
          rw [← Option.some.inj hpc]
          exact .announce
      | _ => cases h
  | dialLocal =>
      cases op with
      | dialLocal port ok =>
          obtain ⟨rfl, hpc⟩ := Option.ite_none_right_eq_some.mp h
          rw [← Option.some.inj hpc]
          exact .dialLocal
      | _ => cases h
  | piping =>
      cases op with
      | copied => cases h; exact .copied
      | _ => cases h
  | done => cases h

/-- The transitions of a task. -/
inductive CliTask.Step (start : Start) : CliTask → Op → CliTask → Prop where
  | main {pc op pc'} : RunTunnelLoop.Step start pc op pc' → Step start (.main pc) op (.main pc')
  | data {ctx pc op pc'} : HandleDataConn.Step ctx pc op pc' →
      Step start (.data ctx pc) op (.data ctx pc')

theorem cliTask_step {k k' : CliTask} (h : CliTask.next start k op = some k') :
    CliTask.Step start k op k' := by
  cases k with
  | idle => cases h
  | main pc =>
      obtain ⟨pc', hs, rfl⟩ := Option.map_eq_some_iff.mp h
      exact .main (runTunnelLoop_step hs)
  | data ctx pc =>
      obtain ⟨pc', hs, rfl⟩ := Option.map_eq_some_iff.mp h
      exact .data (handleDataConn_step hs)

section Step

variable {c c' : Process} {t u : Tid}

theorem cli_step_self (h : (cli start).step c (t, op) = some c') :
    CliTask.Step start (c.task t) op (c'.task t) :=
  cliTask_step (Conc.Tasks.step_next h)

/-- Another task stays where it is, unless it is spawned. -/
theorem cli_step_other (h : (cli start).step c (t, op) = some c') (hu : u ≠ t) :
    c'.task u = c.task u ∨
      ∃ ctx, op = .spawn u ctx ∧ c.task u = .idle ∧ c'.task u = .data ctx .connect := by
  obtain rfl | ⟨_, hc, ha⟩ | ⟨_, _, he⟩ := Conc.Tasks.step_task h u
  · exact absurd rfl hu
  · cases op with
    | spawn d ctx =>
        cases hc
        change CliTask.adopt (.spawn u ctx) (c.task u) = some (c'.task u) at ha
        refine Or.inr ⟨ctx, rfl, ?_⟩
        generalize c.task u = k at ha
        cases k with
        | idle => exact ⟨rfl, (Option.some.inj ha).symm⟩
        | _ => cases ha
    | _ => cases hc
  · exact Or.inl he

end Step

end Borehole.Cli
