/-
  Borehole.Cli.Visitors

  The visitors that a process is told of.

  A task serves the `conn_id` of one `NewConn` that the main task has read, and
  dials the port of the start command for it.
-/

import Borehole.Cli.Steps

namespace Borehole.Cli

open Conc

/-- The `conn_id` that a task has been told of. -/
def CliTask.told? : CliTask → Option String
  | .main (.running _ (.spawn _ notice)) => some notice.connId
  | .data ctx _ => some ctx.connId
  | _ => none

/-- What the task of a visitor has captured. -/
def CliTask.data? : CliTask → Option DataCtx
  | .data ctx _ => some ctx
  | _ => none

section Steps

variable {start : Start} {k k' : CliTask} {op : Op} {d : Tid} {ctx : DataCtx}

/-- The main task spawns a task for the notice it has read, with the port of the
    start command. -/
theorem CliTask.Step.spawns (h : Step start k (.spawn d ctx) k') :
    k.told? = some ctx.connId ∧ ctx.localPort = start.localPort := by
  cases h with
  | main h =>
      cases h with
      | run h =>
          cases h
          exact ⟨rfl, rfl⟩
  | data h => cases h

theorem CliTask.Step.told {connId : String} (h : Step start k op k')
    (hk : k'.told? = some connId) :
    k.told? = some connId ∨ ∃ notice, notice.connId = connId ∧
      op = .readLine (some (some (.newConn notice))) ∧ ∃ a pc, k = .main (.running a pc) := by
  cases h with
  | data => exact Or.inl hk
  | main h =>
      cases h with
      | again => cases hk
      | @run a pc _ o h =>
          cases h with
          | visitor =>
              cases hk
              exact Or.inr ⟨_, rfl, rfl, _, _, rfl⟩
          | unconfigured | unreachable | insecure | registerFailed | rejected | disconnected =>
              rw [RunTunnelLoop.resume] at hk
              split at hk <;> cases hk
          | _ => cases hk

theorem CliTask.Step.keeps_data (h : Step start k op k') : k'.data? = k.data? := by
  cases h <;> rfl

theorem CliTask.Step.dialsLocal {port : UInt16} {ok : Bool}
    (h : Step start k (.dialLocal port ok) k') :
    ∃ ctx, k.data? = some ctx ∧ port = ctx.localPort := by
  cases h with
  | main h =>
      cases h with
      | run h => cases h
  | data h =>
      cases h
      exact ⟨_, rfl, rfl⟩

end Steps

section Process

variable {start : Start} {ls : List (Tid × Op)} {c c' : Process} {t k : Tid} {op : Op}
  {ctx : DataCtx}

theorem cli_step_data (h : (cli start).step c (t, op) = some c')
    (hk : (c.task k).data? = some ctx) : (c'.task k).data? = some ctx := by
  by_cases hkt : k = t
  · subst hkt
    rw [(cli_step_self h).keeps_data, hk]
  · obtain he | ⟨_, _, hidle, _⟩ := cli_step_other h hkt
    · rw [he, hk]
    · rw [hidle] at hk
      cases hk

/-- What a task is told, it has read, or another task has been told before. -/
theorem cli_step_told {connId : String} (h : (cli start).step c (t, op) = some c')
    (hk : (c'.task k).told? = some connId) :
    (∃ u, (c.task u).told? = some connId) ∨ ∃ notice, notice.connId = connId ∧
      op = .readLine (some (some (.newConn notice))) ∧
        ∃ a pc, c.task t = .main (.running a pc) := by
  by_cases hkt : k = t
  · subst hkt
    exact ((cli_step_self h).told hk).imp_left fun hk => ⟨k, hk⟩
  · obtain he | ⟨ctx, rfl, _, he⟩ := cli_step_other h hkt
    · exact Or.inl ⟨k, he ▸ hk⟩
    · rw [he] at hk
      rw [← Option.some.inj hk]
      exact Or.inl ⟨t, (cli_step_self h).spawns.1⟩

/-- Every visitor is connected to the port of the start command. -/
theorem data_localPort (h : (cli start).Run ls c) (hk : (c.task k).data? = some ctx) :
    ctx.localPort = start.localPort := by
  refine Lts.Run.induct (P := fun _ c => ∀ k ctx, (c.task k).data? = some ctx →
    ctx.localPort = start.localPort) ?_ ?_ h k ctx hk
  · intro k ctx hk
    simp only [cli, Tasks.lts, Process.start] at hk
    split at hk <;> cases hk
  · rintro ls c ⟨t, op⟩ c' - ih hs k ctx hk
    by_cases hkt : k = t
    · subst hkt
      rw [(cli_step_self hs).keeps_data] at hk
      exact ih k ctx hk
    · obtain he | ⟨ctx', rfl, _, he⟩ := cli_step_other hs hkt
      · exact ih k ctx (he ▸ hk)
      · rw [he] at hk
        rw [← Option.some.inj hk]
        exact (cli_step_self hs).spawns.2

/-- The task of a visitor dials the port it has captured, and no other. -/
theorem dialLocal_data {port : UInt16} {ok : Bool} (h : (cli start).Run ls c)
    (hop : (k, .dialLocal port ok) ∈ ls) :
    ∃ ctx, (c.task k).data? = some ctx ∧ port = ctx.localPort := by
  refine Lts.Run.induct (P := fun ls c => (k, .dialLocal port ok) ∈ ls →
    ∃ ctx, (c.task k).data? = some ctx ∧ port = ctx.localPort) nofun ?_ h hop
  rintro ls c ⟨t, op⟩ c' - ih hs hop
  obtain hop | hop := List.mem_append.mp hop
  · obtain ⟨ctx, hctx, hport⟩ := ih hop
    exact ⟨ctx, cli_step_data hs hctx, hport⟩
  · obtain ⟨rfl, rfl⟩ := Prod.mk.inj (List.mem_singleton.mp hop)
    obtain ⟨ctx, hctx, hport⟩ := (cli_step_self hs).dialsLocal
    exact ⟨ctx, cli_step_data hs hctx, hport⟩

end Process

end Borehole.Cli
