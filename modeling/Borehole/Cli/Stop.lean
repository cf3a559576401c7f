/-
  Borehole.Cli.Stop

  Whether `borehole stop` stops a background tunnel: what `run_stop` leaves once it
  has returned success and the processes have nothing more to do.

  Two orders go wrong.  A stop that has read the record before the worker has
  saved its process id signals nobody, and the worker goes on without a record or
  with a new one.  And the task that flips the record to `active` saves it again
  if it has read it before the last of the two removals.
-/

import Borehole.Cli.Worker

namespace Borehole.Cli.Worker

/-! ## The question -/

/-- An operation that the tunnel itself waits for, and not a step that remains to be
    taken. -/
def Op.ofTunnel : Op → Bool
  | .tunnel _ _ => true
  | _ => false

/-- The processes have nothing left to do: no signal to be delivered, no file
    operation to be made. -/
def Settled (d : Detached) (s : State) : Prop :=
  ∀ a : Actor × Op, a.2.ofTunnel = false → (background d).step s a = none

/-- No worker serves the tunnel, and its record is gone. -/
def Stopped (s : State) : Prop :=
  (∀ record loop, s.worker ≠ .select record loop) ∧ s.shared.file.path = none

/-- The worker has opened its record and has not come to its cleanup. -/
def WorkerPc.underWay : WorkerPc → Bool
  | .readRecord _ | .create _ | .write _ _ | .spawn _ | .arm _ | .select _ _ => true
  | _ => false

/-- The updater has the record open and is going to open it for writing. -/
def UpdaterPc.midSave : UpdaterPc → Bool
  | .readRecord _ _ | .create _ => true
  | _ => false

/-- The two orders that go wrong do not happen: a stop that has signalled nobody
    does not finish while the worker is under way, and the updater is not in the
    middle of a save at the last removal. -/
def StopsCleanly (s : State) (a : Actor × Op) : Prop :=
  match a.1, a.2, s.stop with
  | .stop, .pathExists false, .pathExists r | .stop, .unlink true, .unlink r =>
      (r.pid = 0 → s.worker.underWay = false) ∧ (s.worker = .exit → s.updater.midSave = false)
  | .worker, .pathExists false, .done _ | .worker, .unlink _, .done _ =>
      s.updater.midSave = false
  | _, _, _ => True

instance (s : State) (a : Actor × Op) : Decidable (StopsCleanly s a) := by
  unfold StopsCleanly
  split <;> infer_instance

/-! ## The worker and its task -/

/-- Where the task can be, by where the worker is. -/
def TaskAt (ready : Ready) (u : UpdaterPc) : WorkerPc → Prop
  | .openRecord | .readRecord _ | .create _ | .write _ _ | .spawn _ => u = .idle ∧ ready = .empty
  | .arm _ => u = .waiting ∧ ready = .empty
  | .select _ _ | .pathExists | .unlink | .exit => u ≠ .idle
  -- a port that has been sent has been received before the runtime was dropped
  | .exited => u = .idle ∨ u = .done ∨ u = .waiting ∧ ready = .dropped

section Tasks

variable {d : Detached} {s s' : State} {op : Op}

theorem taskAt_worker {pid : UInt32} {pc pc' : WorkerPc} {u u' : UpdaterPc} {sh sh' : Shared}
    (hi : TaskAt sh.ready u pc) (hx : sh.exec pid op = some sh') (hw : WorkerPc.Step pid pc op pc')
    (ha : adopt op u = some u') : TaskAt sh'.ready u' pc' := by
  cases hw with
  | opened | loaded | created =>
      cases ha
      rw [exec_ready hx rfl]
      exact hi
  | missing | corrupt | createFailed =>
      cases ha
      exact Or.inl hi.1
  | write =>
      cases ha
      rw [exec_ready hx rfl]
      split
      · exact hi
      · exact Or.inl hi.1
  | spawn =>
      obtain ⟨rfl, hempty⟩ := hi
      cases ha
      exact ⟨rfl, (exec_ready hx rfl).trans hempty⟩
  | arm =>
      obtain ⟨rfl, -⟩ := hi
      cases ha
      nofun
  | tunnel hn | pathExists =>
      cases ha
      split <;> exact hi
  | shutdown | unlink =>
      cases ha
      exact hi
  | @killed pc hun =>
      cases ha
      obtain ⟨_, hx⟩ := Option.ite_none_right_eq_some.mp hx
      have hdropped : sh.ready = .empty → sh'.ready = .dropped := by
        intro hempty
        rw [← Option.some.inj hx, hempty]
        rfl
      cases pc with
      | openRecord | readRecord | create | write | spawn => exact Or.inl hi.1
      | arm => exact Or.inr (Or.inr ⟨hi.1, hdropped hi.2⟩)
      | _ => cases hun
  | exit =>
      -- the runtime waits for a task that is not at its `await`
      cases u <;> cases ha
      all_goals exact Or.inr (Or.inl rfl)

/-- The task moves only once the worker serves. -/
theorem taskAt_updater {pid : UInt32} {pc : WorkerPc} {u u' : UpdaterPc} {sh sh' : Shared}
    (hi : TaskAt sh.ready u pc) (hx : sh.exec pid op = some sh') (hu : UpdaterPc.Step u op u') :
    TaskAt sh'.ready u' pc := by
  have hempty : u = .waiting → sh.ready ≠ .empty := by
    rintro rfl he
    cases hu with
    | received | dropped =>
        obtain ⟨hr, _⟩ := Option.ite_none_right_eq_some.mp hx
        rw [he] at hr
        cases hr
  have hsome : u ≠ .idle := by
    rintro rfl
    cases hu
  rw [exec_ready hx hu.keeps_ready]
  cases pc with
  | openRecord | readRecord | create | write | spawn => exact absurd hi.1 hsome
  | arm => exact absurd hi.2 (hempty hi.1)
  | exited =>
      obtain rfl | rfl | ⟨rfl, hdropped⟩ := hi
      · cases hu
      · cases hu
      · cases hu with
        | received =>
            obtain ⟨hr, _⟩ := Option.ite_none_right_eq_some.mp hx
            rw [hdropped] at hr
            cases hr
        | dropped => exact Or.inr (Or.inl rfl)
  | _ => cases hu <;> nofun

theorem taskAt {ls : List (Actor × Op)} (hr : (background d).Run ls s) :
    TaskAt s.shared.ready s.updater s.worker := by
  refine Conc.Lts.Run.induct (P := fun _ s => TaskAt s.shared.ready s.updater s.worker) ?_ ?_ hr
  · exact ⟨rfl, rfl⟩
  · intro _ s a s' _ hi hs
    obtain ⟨hx, ⟨_, hw, ha, _⟩ | ⟨_, hu, hw, _⟩ | ⟨_, hs, hw, hu⟩⟩ := background_step hs
    · exact taskAt_worker hi hx hw ha
    · rw [hw]
      exact taskAt_updater hi hx hu
    · rw [hw, hu, exec_ready hx hs.keeps_ready]
      exact hi

end Tasks

/-! ## Process ids -/

/-- The record that the stopping process has read. -/
def StopPc.record? : StopPc → Option TunnelRecord
  | .kill r | .pathExists r | .unlink r | .done r => some r
  | _ => none

/-- The worker has not saved its process id. -/
def WorkerPc.unsaved : WorkerPc → Bool
  | .openRecord | .readRecord _ | .create _ | .write _ _ => true
  | _ => false

/-- A record holds no process id or the worker's, and holds none before the worker
    has saved it. -/
structure PidInv (d : Detached) (s : State) : Prop where
  file : ∀ i r, s.shared.file.data i = some r → r.pid = 0 ∨ r.pid = d.pid
  worker : ∀ r, s.worker.saving? = some r → r.pid = d.pid
  updater : ∀ r, s.updater.saving? = some r → r.pid = 0 ∨ r.pid = d.pid
  stop : ∀ r, s.stop.record? = some r → r.pid = 0 ∨ r.pid = d.pid
  unsaved : s.worker.unsaved = true →
    (∀ i r, s.shared.file.data i = some r → r.pid = 0) ∧ ∀ r, s.stop.record? = some r → r.pid = 0

section Pids

variable {d : Detached} {s s' : State} {op : Op}

theorem StopPc.Step.record {k k' : StopPc} {r : TunnelRecord} (h : StopPc.Step k op k')
    (hr : k'.record? = some r) : k.record? = some r ∨ ∃ i, op = .read i (some r) := by
  cases h with
  | @loaded i loaded =>
      refine Or.inr ⟨i, ?_⟩
      split at hr <;> cases hr <;> rfl
  | kill | pathExists | unlink => split at hr <;> first | exact Or.inl hr | cases hr
  | _ => cases hr

theorem StopPc.Step.written {k k' : StopPc} (h : StopPc.Step k op k') : op.written? = none := by
  cases h <;> rfl

theorem WorkerPc.Step.unsaved {pid : UInt32} {pc pc' : WorkerPc} (h : WorkerPc.Step pid pc op pc')
    (hu : pc'.unsaved = true) : pc.unsaved = true ∧ op.written? = none := by
  cases h with
  | write | tunnel hn | pathExists => split at hu <;> cases hu
  | opened | loaded | created => exact ⟨rfl, rfl⟩
  | _ => cases hu

/-- What is read is in the file. -/
theorem exec_read {pid : UInt32} {sh sh' : Shared} {i : Inode} {r : TunnelRecord}
    (h : sh.exec pid (.read i (some r)) = some sh') : sh.file.data i = some r :=
  (Option.ite_none_right_eq_some.mp h).1

theorem pidInv_step {a : Actor × Op} (hi : PidInv d s)
    (htask : TaskAt s.shared.ready s.updater s.worker)
    (h : (background d).step s a = some s') : PidInv d s' := by
  have hfile : ∀ i r, s'.shared.file.data i = some r → r.pid = 0 ∨ r.pid = d.pid := by
    intro i r hr
    obtain hr | ha := exec_data (background_step h).1 hr
    · exact hi.file i r hr
    · obtain hw | hu := write_saving h ha
      · exact Or.inr (hi.worker r hw)
      · exact hi.updater r hu
  obtain ⟨actor, op⟩ := a
  obtain ⟨hx, ⟨_, hw, ha, hk⟩ | ⟨_, hu, hw, hk⟩ | ⟨_, hs, hw, hu⟩⟩ := background_step h
  -- the worker's own step
  · refine ⟨hfile, fun r hr => ?_, fun r hr => ?_, ?_, fun hun => ?_⟩
    · obtain ⟨_, rfl⟩ | hr := hw.saving hr
      · rfl
      · exact hi.worker r hr
    · obtain he | ⟨_, _, he⟩ | ⟨_, _, he⟩ := adopt_some ha
      · exact hi.updater r (he ▸ hr)
      · rw [he] at hr
        cases hr
      · rw [he] at hr
        cases hr
    · rw [hk]
      exact hi.stop
    · obtain ⟨hun, hnone⟩ := hw.unsaved hun
      refine ⟨fun i r hr => ?_, ?_⟩
      · obtain hr | hwritten := exec_data hx hr
        · exact (hi.unsaved hun).1 i r hr
        · rw [hnone] at hwritten
          cases hwritten
      · rw [hk]
        exact (hi.unsaved hun).2
  -- the updater's: it saves what it has read
  · refine ⟨hfile, ?_, fun r hr => ?_, ?_, fun hun => ?_⟩
    · rw [hw]
      exact hi.worker
    · obtain ⟨port, i, loaded, _, rfl, rfl⟩ | hr := hu.saving hr
      · exact hi.file i loaded (exec_read hx)
      · exact hi.updater r hr
    · rw [hk]
      exact hi.stop
    -- the updater has not been started
    · rw [hw] at hun
      have hidle : s.updater = .idle := by
        generalize s.worker = pc at htask hun
        cases pc with
        | openRecord | readRecord | create | write => exact htask.1
        | _ => cases hun
      rw [hidle] at hu
      cases hu
  -- the stopping process's
  · refine ⟨hfile, ?_, ?_, fun r hr => ?_, fun hun => ?_⟩
    · rw [hw]
      exact hi.worker
    · rw [hu]
      exact hi.updater
    · obtain hr | ⟨i, rfl⟩ := hs.record hr
      · exact hi.stop r hr
      · exact hi.file i r (exec_read hx)
    · rw [hw] at hun
      obtain ⟨hdata, hrec⟩ := hi.unsaved hun
      refine ⟨fun i r hr => ?_, fun r hr => ?_⟩
      · obtain hr | hwritten := exec_data hx hr
        · exact hdata i r hr
        · rw [hs.written] at hwritten
          cases hwritten
      · obtain hr | ⟨i, rfl⟩ := hs.record hr
        · exact hrec r hr
        · exact hdata i r (exec_read hx)

theorem pidInv {ls : List (Actor × Op)} (hr : (background d).Run ls s) : PidInv d s := by
  refine Conc.Lts.Run.induct (P := fun _ s => PidInv d s) ?_ ?_ hr
  · have hzero : ∀ i r, (RecordFile.saved d.record).data i = some r → r.pid = 0 := by
      intro i r hr
      obtain ⟨_, he⟩ := Option.ite_none_right_eq_some.mp hr
      rw [← Option.some.inj he]
      rfl
    exact ⟨fun i r hr => Or.inl (hzero i r hr), nofun, nofun, nofun, fun _ => ⟨hzero, nofun⟩⟩
  · intro _ s a s' hr hi hs
    exact pidInv_step hi (taskAt hr) hs

end Pids

/-! ## Signal and removal -/

/-- The record whose worker has been signalled, if it has one. -/
def StopPc.signalled? : StopPc → Option TunnelRecord
  | .pathExists r | .unlink r | .done r => some r
  | _ => none

/-- The worker's cleanup is still to come. -/
def WorkerPc.cleansUp : WorkerPc → Bool
  | .select _ _ | .pathExists | .unlink => true
  | _ => false

/-- The worker does not serve any more. -/
def WorkerPc.ending : WorkerPc → Bool
  | .pathExists | .unlink | .exit | .exited => true
  | _ => false

/-- A stop that has returned has signalled the worker or has found it outside its
    work, and what it removed stays removed unless the worker will remove it again. -/
structure StopInv (s : State) : Prop where
  signalled : ∀ r, s.stop.signalled? = some r → r.pid ≠ 0 →
    s.shared.signal = true ∨ s.worker.ending = true
  unsignalled : ∀ r, s.stop = .done r → r.pid = 0 →
    s.worker = .openRecord ∨ s.worker.ending = true
  removed : ∀ r, s.stop = .done r → s.worker.cleansUp = false →
    s.shared.file.path = none ∧ s.updater.midSave = false

section Stops

variable {d : Detached} {s s' : State} {op : Op} {pid : UInt32} {sh sh' : Shared}

/-- Only its arrival takes a signal away. -/
theorem exec_signal (h : sh.exec pid op = some sh') (hs : sh.signal = true) :
    sh'.signal = true ∨ op = .terminated := by
  revert h
  fun_cases Shared.exec pid sh op
  all_goals
    intro h
    cases h
  case case15 => exact Or.inr rfl
  case case21 => exact Or.inl (by simp only [hs, Bool.true_or])
  all_goals exact Or.inl hs

/-- An operation that opens nothing for writing and removes nothing leaves the path. -/
def Op.onPath : Op → Bool
  | .create _ | .unlink _ => true
  | _ => false

theorem exec_path (h : sh.exec pid op = some sh') (hop : op.onPath = false) :
    sh'.file.path = sh.file.path := by
  revert h
  fun_cases Shared.exec pid sh op
  all_goals
    intro h
    cases h
  case case5 | case6 | case12 => cases hop
  all_goals rfl

theorem WorkerPc.not_ending {pc : WorkerPc} (h : pc.unsaved = true) : pc.ending = false := by
  cases pc with
  | openRecord | readRecord | create | write => rfl
  | _ => cases h

theorem WorkerPc.Step.ending {pc pc' : WorkerPc} (h : WorkerPc.Step pid pc op pc')
    (he : pc.ending = true ∨ op = .terminated) : pc'.ending = true := by
  cases h with
  | shutdown | killed | exit | unlink => rfl
  | pathExists => split <;> rfl
  | _ => exact he.elim nofun nofun

theorem StopPc.Step.signalled {k k' : StopPc} {r : TunnelRecord} (h : StopPc.Step k op k')
    (hr : k'.signalled? = some r) (hpid : r.pid ≠ 0) :
    k.signalled? = some r ∨ k.record? = some r ∧ op = .kill r.pid true := by
  cases h with
  | loaded =>
      split at hr
      · cases hr
        exact absurd ‹_› hpid
      · cases hr
  | kill =>
      split at hr
      · cases hr
        exact Or.inr ⟨rfl, by simp only [*]⟩
      · cases hr
  | pathExists | unlink => split at hr <;> first | exact Or.inl hr | cases hr
  | _ => cases hr

/-- The operations by which `run_stop` returns success. -/
theorem StopPc.Step.done {k k' : StopPc} {r : TunnelRecord} (h : StopPc.Step k op k')
    (hr : k' = .done r) :
    k = .pathExists r ∧ op = .pathExists false ∨ k = .unlink r ∧ op = .unlink true := by
  cases h with
  | @pathExists r found =>
      cases found <;> cases hr
      exact Or.inl ⟨rfl, rfl⟩
  | @unlink r ok =>
      cases ok <;> cases hr
      exact Or.inr ⟨rfl, rfl⟩
  | kill | loaded => split at hr <;> cases hr
  | _ => cases hr

theorem signalled_step {a : Actor × Op} (hi : StopInv s) (hp : PidInv d s)
    (h : (background d).step s a = some s') (r : TunnelRecord)
    (hr : s'.stop.signalled? = some r) (hpid : r.pid ≠ 0) :
    s'.shared.signal = true ∨ s'.worker.ending = true := by
  obtain ⟨actor, op⟩ := a
  obtain ⟨hx, ⟨_, hw, _, hk⟩ | ⟨_, hu, hw, hk⟩ | ⟨_, hs, hw, _⟩⟩ := background_step h
  · rw [hk] at hr
    obtain hsig | he := hi.signalled r hr hpid
    · exact (exec_signal hx hsig).imp_right fun ht => hw.ending (Or.inr ht)
    · exact Or.inr (hw.ending (Or.inl he))
  · rw [hk] at hr
    rw [hw]
    refine (hi.signalled r hr hpid).imp_left fun hsig => ?_
    obtain hsig | rfl := exec_signal hx hsig
    · exact hsig
    · cases hu.keeps_ready
  · rw [hw]
    obtain hr | ⟨hr, rfl⟩ := hs.signalled hr hpid
    · refine (hi.signalled r hr hpid).imp_left fun hsig => ?_
      obtain hsig | rfl := exec_signal hx hsig
      · exact hsig
      · cases hs.keeps_ready
    -- the process that it signals is the worker
    · have hd : r.pid = d.pid := (hp.stop r hr).resolve_left hpid
      refine Or.inl ?_
      rw [← Option.some.inj hx]
      simp [hd]

theorem unsignalled_step {a : Actor × Op} (hi : StopInv s) (hok : StopsCleanly s a)
    (h : (background d).step s a = some s') (r : TunnelRecord)
    (hr : s'.stop = .done r) (hpid : r.pid = 0) :
    s'.worker = .openRecord ∨ s'.worker.ending = true := by
  obtain ⟨actor, op⟩ := a
  obtain ⟨hx, ⟨_, hw, _, hk⟩ | ⟨_, _, hw, hk⟩ | ⟨rfl, hs, hw, _⟩⟩ := background_step h
  -- The worker steps: it is about to open the record, or on its way out.
  · rw [hk] at hr
    obtain ho | he := hi.unsignalled r hr hpid
    -- the record is gone before the worker opens it
    · obtain ⟨hpath, _⟩ := hi.removed r hr (by rw [ho]; rfl)
      rw [ho] at hw
      generalize s'.worker = pc' at hw
      cases hw with
      | opened =>
          obtain ⟨hopen, _⟩ := Option.ite_none_right_eq_some.mp hx
          rw [hpath] at hopen
          cases hopen
      | missing | killed => exact Or.inr rfl
    · exact Or.inr (hw.ending (Or.inl he))
  · rw [hw]
    exact hi.unsignalled r (hk ▸ hr) hpid
  -- The stopping process returns without a process id to signal.
  · rw [hw]
    have hclean : s.worker.underWay = false := by
      obtain ⟨hk, rfl⟩ | ⟨hk, rfl⟩ := hs.done hr
      all_goals
        rw [StopsCleanly, hk] at hok
        exact hok.1 hpid
    generalize s.worker = pc at hclean
    cases pc with
    | openRecord => exact Or.inl rfl
    | pathExists | unlink | exit | exited => exact Or.inr rfl
    | _ => cases hclean

/-- Before the worker serves, and after it has ended, its task saves nothing. -/
theorem TaskAt.midSave {ready : Ready} {u : UpdaterPc} {pc : WorkerPc} (h : TaskAt ready u pc)
    (hc : pc.cleansUp = false) (he : pc ≠ .exit) : u.midSave = false := by
  cases pc with
  | openRecord | readRecord | create | write | spawn | arm =>
      rw [h.1]
      rfl
  | exit => exact absurd rfl he
  | exited => obtain rfl | rfl | ⟨rfl, _⟩ := h <;> rfl
  | _ => cases hc

theorem removed_worker {pc pc' : WorkerPc} {u u' : UpdaterPc}
    (hw : WorkerPc.Step pid pc op pc') (hx : sh.exec pid op = some sh')
    (ha : adopt op u = some u') (htask : TaskAt sh.ready u pc)
    (hunsaved : pc.unsaved = true → pc = .openRecord)
    (hi : pc.cleansUp = false → sh.file.path = none ∧ u.midSave = false)
    (hok : op = .pathExists false ∨ (∃ ok, op = .unlink ok) → u.midSave = false)
    (hc : pc'.cleansUp = false) : sh'.file.path = none ∧ u'.midSave = false := by
  cases hw with
  | opened =>
      -- There is no file to open any more.
      obtain ⟨hopen, _⟩ := Option.ite_none_right_eq_some.mp hx
      rw [(hi rfl).1] at hopen
      cases hopen
  | loaded | corrupt | created | createFailed | write => cases hunsaved rfl
  | missing =>
      cases ha
      exact ⟨(exec_path hx rfl).trans (hi rfl).1, (hi rfl).2⟩
  | spawn =>
      -- The task that is spawned has read nothing yet.
      obtain ⟨rfl, _⟩ := htask
      cases ha
      exact ⟨(exec_path hx rfl).trans (hi rfl).1, rfl⟩
  | arm | shutdown => cases hc
  | tunnel hn => split at hc <;> cases hc
  | @killed pc hun =>
      cases ha
      have hcleans : pc.cleansUp = false := by
        cases pc <;> first | rfl | cases hun
      exact ⟨(exec_path hx rfl).trans (hi hcleans).1, (hi hcleans).2⟩
  | @pathExists found =>
      cases found with
      | true => cases hc
      | false =>
          cases ha
          obtain ⟨hfound, _⟩ := Option.ite_none_right_eq_some.mp hx
          refine ⟨(exec_path hx rfl).trans ?_, hok (Or.inl rfl)⟩
          exact Option.not_isSome_iff_eq_none.mp (by rw [hfound]; nofun)
  | unlink =>
      cases ha
      obtain ⟨_, hx⟩ := Option.ite_none_right_eq_some.mp hx
      refine ⟨?_, hok (Or.inr ⟨_, rfl⟩)⟩
      rw [← Option.some.inj hx]
      rfl
  | exit =>
      refine ⟨(exec_path hx rfl).trans (hi rfl).1, ?_⟩
      cases u <;> cases ha <;> rfl

theorem removed_step {a : Actor × Op} (hi : StopInv s) (hp : PidInv d s)
    (htask : TaskAt s.shared.ready s.updater s.worker) (hok : StopsCleanly s a)
    (h : (background d).step s a = some s') (r : TunnelRecord)
    (hr : s'.stop = .done r) (hc : s'.worker.cleansUp = false) :
    s'.shared.file.path = none ∧ s'.updater.midSave = false := by
  obtain ⟨actor, op⟩ := a
  obtain ⟨hx, ⟨rfl, hw, ha, hk⟩ | ⟨_, hu, hw, hk⟩ | ⟨rfl, hs, hw, hu⟩⟩ := background_step h
  -- The worker steps after the stopping process has returned.
  · rw [hk] at hr
    refine removed_worker hw hx ha htask (fun hun => ?_) (hi.removed r hr) (fun hop => ?_) hc
    -- a record without the process id has been read, and nobody was signalled
    · have hpid := (hp.unsaved hun).2 r (by rw [hr]; rfl)
      refine (hi.unsignalled r hr hpid).resolve_right ?_
      rw [WorkerPc.not_ending hun]
      exact Bool.false_ne_true
    · rw [StopsCleanly, hr] at hok
      obtain rfl | ⟨ok, rfl⟩ := hop
      · exact hok
      · exact hok
  -- The updater steps: it opens no record, since the file has gone.
  · rw [hw] at hc
    obtain ⟨hpath, hmid⟩ := hi.removed r (hk ▸ hr) hc
    generalize s.updater = u at hu hmid
    generalize s'.updater = u' at hu
    cases hu with
    | opened =>
        obtain ⟨hopen, _⟩ := Option.ite_none_right_eq_some.mp hx
        rw [hpath] at hopen
        cases hopen
    | loaded | corrupt | created | createFailed => cases hmid
    | _ => exact ⟨(exec_path hx rfl).trans hpath, rfl⟩
  · rw [hw] at hc
    rw [hu]
    -- The stopping process returns: the file was missing, or it is unlinked now.
    obtain ⟨hk, rfl⟩ | ⟨hk, rfl⟩ := hs.done hr
    all_goals
      rw [StopsCleanly, hk] at hok
      obtain ⟨hfound, hx⟩ := Option.ite_none_right_eq_some.mp hx
      refine ⟨?_, ?_⟩
    · rw [← Option.some.inj hx]
      exact Option.not_isSome_iff_eq_none.mp (by rw [hfound]; nofun)
    · by_cases he : s.worker = .exit
      · exact hok.2 he
      · exact htask.midSave hc he
    · rw [← Option.some.inj hx]
      rfl
    · by_cases he : s.worker = .exit
      · exact hok.2 he
      · exact htask.midSave hc he

theorem stopInv_step {a : Actor × Op} (hi : StopInv s) (hp : PidInv d s)
    (htask : TaskAt s.shared.ready s.updater s.worker) (hok : StopsCleanly s a)
    (h : (background d).step s a = some s') : StopInv s' where
  signalled := signalled_step hi hp h
  unsignalled := unsignalled_step hi hok h
  removed := removed_step hi hp htask hok h

theorem stopInv {ls : List (Actor × Op)} (hr : (background d).Run ls s)
    (hok : (background d).Along StopsCleanly ls) : StopInv s := by
  refine Conc.Lts.Run.induct_along (P := fun _ s => StopInv s) ?_ ?_ hr hok
  · refine ⟨fun r hr => ?_, fun r hr => ?_, fun r hr => ?_⟩
    all_goals cases hr
  · intro _ s a s' hr hi hok hs
    exact stopInv_step hi (pidInv hr) (taskAt hr) hok hs

/-- An operation that the worker can make is not blocked by what it shares. -/
theorem worker_step {pc : WorkerPc} {u : UpdaterPc}
    (hx : s.shared.exec d.pid op = some sh) (hw : runWorker d.pid s.worker op = some pc)
    (ha : adopt op s.updater = some u) : (background d).step s (.worker, op) ≠ none := by
  have hs : (background d).step s (.worker, op) =
      some { s with shared := sh, worker := pc, updater := u } := by
    simp only [background, step, hx, hw, ha, Option.bind_some, Option.map_some]
  rw [hs]
  nofun

theorem updater_ready {u : UpdaterPc} (hx : s.shared.exec d.pid op = some sh)
    (hu : updater s.updater op = some u) : (background d).step s (.updater, op) ≠ none := by
  have hs : (background d).step s (.updater, op) = some { s with shared := sh, updater := u } := by
    simp only [background, step, hx, hu, Option.bind_some, Option.map_some]
  rw [hs]
  nofun

/-- A task that is past its `await` can go on. -/
theorem settled_updater (hs : Settled d s) :
    s.updater = .idle ∨ s.updater = .waiting ∨ s.updater = .done := by
  cases hu : s.updater with
  | idle => exact Or.inl rfl
  | waiting => exact Or.inr (Or.inl rfl)
  | done => exact Or.inr (Or.inr rfl)
  | openRecord port =>
      cases hp : s.shared.file.path with
      | none =>
          exact absurd (hs (.updater, .openRead none) rfl)
            (updater_ready (if_pos hp) (by rw [hu]; rfl))
      | some i =>
          exact absurd (hs (.updater, .openRead (some i)) rfl)
            (updater_ready (if_pos hp) (by rw [hu]; rfl))
  | readRecord port i =>
      cases hd : s.shared.file.data i with
      | none =>
          exact absurd (hs (.updater, .read i none) rfl)
            (updater_ready (if_pos hd) (by rw [hu]; exact if_pos rfl))
      | some r =>
          exact absurd (hs (.updater, .read i (some r)) rfl)
            (updater_ready (if_pos hd) (by rw [hu]; exact if_pos rfl))
  | create r =>
      exact absurd (hs (.updater, .create none) rfl) (updater_ready rfl (by rw [hu]; rfl))
  | write i r =>
      exact absurd (hs (.updater, .write i r false) rfl)
        (updater_ready rfl (by rw [hu]; exact if_pos ⟨rfl, rfl⟩))

/-- A worker that has not ended can go on, unless it serves. -/
theorem settled_worker (hs : Settled d s) (htask : TaskAt s.shared.ready s.updater s.worker) :
    s.worker = .exited ∨ ∃ record loop, s.worker = .select record loop ∧
      s.shared.signal = false := by
  cases hw : s.worker with
  | exited => exact Or.inl rfl
  | select record loop =>
      refine Or.inr ⟨record, loop, rfl, Bool.eq_false_iff.mpr fun hsig => ?_⟩
      exact absurd (hs (.worker, .terminated) rfl) (worker_step (if_pos hsig) (by rw [hw]; rfl) rfl)
  | openRecord =>
      cases hp : s.shared.file.path with
      | none =>
          exact absurd (hs (.worker, .openRead none) rfl)
            (worker_step (if_pos hp) (by rw [hw]; rfl) rfl)
      | some i =>
          exact absurd (hs (.worker, .openRead (some i)) rfl)
            (worker_step (if_pos hp) (by rw [hw]; rfl) rfl)
  | readRecord i =>
      cases hd : s.shared.file.data i with
      | none =>
          exact absurd (hs (.worker, .read i none) rfl)
            (worker_step (if_pos hd) (by rw [hw]; exact if_pos rfl) rfl)
      | some r =>
          exact absurd (hs (.worker, .read i (some r)) rfl)
            (worker_step (if_pos hd) (by rw [hw]; exact if_pos rfl) rfl)
  | create r =>
      exact absurd (hs (.worker, .create none) rfl) (worker_step rfl (by rw [hw]; rfl) rfl)
  | write i r =>
      exact absurd (hs (.worker, .write i r false) rfl)
        (worker_step rfl (by rw [hw]; exact if_pos ⟨rfl, rfl⟩) rfl)
  | spawn r =>
      rw [hw] at htask
      exact absurd (hs (.worker, .spawn) rfl)
        (worker_step rfl (by rw [hw]; rfl) (by rw [htask.1]; rfl))
  | arm r => exact absurd (hs (.worker, .arm) rfl) (worker_step rfl (by rw [hw]; rfl) rfl)
  | pathExists =>
      exact absurd (hs (.worker, .pathExists s.shared.file.path.isSome) rfl)
        (worker_step (if_pos rfl) (by rw [hw]; rfl) rfl)
  | unlink =>
      exact absurd (hs (.worker, .unlink s.shared.file.path.isSome) rfl)
        (worker_step (if_pos rfl) (by rw [hw]; rfl) rfl)
  | exit =>
      -- the runtime waits for its task, which goes on
      rw [hw] at htask
      obtain hu | hu | hu := settled_updater hs
      · exact absurd hu htask
      · exact absurd (hs (.worker, .exit) rfl) (worker_step rfl (by rw [hw]; rfl) (by rw [hu]; rfl))
      · exact absurd (hs (.worker, .exit) rfl) (worker_step rfl (by rw [hw]; rfl) (by rw [hu]; rfl))

/-- In a run in which neither order happens, a stop that has returned success has
    stopped the tunnel once the processes have settled. -/
theorem stop_stops {ls : List (Actor × Op)} {r : TunnelRecord} (hr : (background d).Run ls s)
    (hok : (background d).Along StopsCleanly ls) (hk : s.stop = .done r) (hs : Settled d s) :
    Stopped s := by
  have hi := stopInv hr hok
  obtain hw | ⟨record, loop, hw, hsig⟩ := settled_worker hs (taskAt hr)
  · refine ⟨fun record loop hsel => ?_, (hi.removed r hk (by rw [hw]; rfl)).1⟩
    rw [hw] at hsel
    cases hsel
  -- a worker at its `select!` has been signalled
  · exfalso
    by_cases hpid : r.pid = 0
    · obtain ho | he := hi.unsignalled r hk hpid
      · rw [hw] at ho
        cases ho
      · rw [hw] at he
        cases he
    · obtain hsig' | he := hi.signalled r (by rw [hk]; rfl) hpid
      · rw [hsig] at hsig'
        cases hsig'
      · rw [hw] at he
        cases he

/-- Nothing is left to do when nothing is in the middle of an operation. -/
theorem settled_of {r : TunnelRecord}
    (hw : s.worker = .exited ∨ ∃ record loop, s.worker = .select record loop ∧
      s.shared.signal = false)
    (hu : s.updater = .done ∨ s.updater = .waiting ∧ s.shared.ready = .empty)
    (hk : s.stop = .done r) : Settled d s := by
  rintro ⟨actor, op⟩ hop
  refine Option.eq_none_iff_forall_ne_some.mpr fun s' h => ?_
  obtain ⟨hx, ⟨_, hstep, _⟩ | ⟨_, hstep, _⟩ | ⟨_, hstep, _⟩⟩ := background_step h
  -- The worker has left, or waits for a signal that does not come.
  · generalize s'.worker = pc' at hstep
    obtain hw | ⟨record, loop, hw, hsig⟩ := hw
    · rw [hw] at hstep
      cases hstep with
      | killed hun => cases hun
    · rw [hw] at hstep
      cases hstep with
      | tunnel => cases hop
      | shutdown =>
          obtain ⟨harrives, _⟩ := Option.ite_none_right_eq_some.mp hx
          rw [hsig] at harrives
          cases harrives
      | killed hun => cases hun
  -- The updater has ended, or waits for a port that is not sent.
  · generalize s'.updater = u' at hstep
    obtain hu | ⟨hu, hempty⟩ := hu
    · rw [hu] at hstep
      cases hstep
    · rw [hu] at hstep
      cases hstep with
      | received | dropped =>
          obtain ⟨hready, _⟩ := Option.ite_none_right_eq_some.mp hx
          rw [hempty] at hready
          cases hready
  -- The stopping process has returned.
  · generalize s'.stop = k' at hstep
    rw [hk] at hstep
    cases hstep

/-! ## Runs -/

/-- A stop that reads a record and signals its worker. -/
def stopsRecord (r : TunnelRecord) : List (Actor × Op) :=
  [(.stop, .openRead (some 0)), (.stop, .read 0 (some r)), (.stop, .kill 42 true),
   (.stop, .pathExists true), (.stop, .unlink true)]

theorem stop_stops_serving : ∃ s, (background background3000).Run
    (comesUp ++ stopsRecord startedRecord ++
      [(.worker, .terminated), (.worker, .pathExists false), (.worker, .exit)]) s ∧ Stopped s := by
  obtain ⟨s, hr, hw, hu, hk⟩ : ∃ s, (background background3000).Run
      (comesUp ++ stopsRecord startedRecord ++
        [(.worker, .terminated), (.worker, .pathExists false), (.worker, .exit)]) s ∧
      s.worker = .exited ∧ s.updater = .done ∧ s.stop = .done startedRecord :=
    Conc.Lts.exists_run (by decide)
  exact ⟨s, hr, stop_stops hr (by decide) hk (settled_of (Or.inl hw) (Or.inl hu) hk)⟩

/-- The worker has read its record when a stop that finds no process id removes it. -/
def stopsTooEarly : List (Actor × Op) :=
  [(.worker, .openRead (some 0)), (.worker, .read 0 (some background3000.record)),
   (.stop, .openRead (some 0)), (.stop, .read 0 (some background3000.record)),
   (.stop, .pathExists true), (.stop, .unlink true),
   (.worker, .create (some 1)), (.worker, .write 1 startedRecord true),
   (.worker, .spawn), (.worker, .arm)]

/-- The updater has read the record when it is removed. -/
def savesTooLate : List (Actor × Op) :=
  comesUp ++ registersAt 7000 (.send 7000) ++
    [(.updater, .received (some 7000)), (.updater, .openRead (some 0)),
     (.updater, .read 0 (some startedRecord))] ++
    stopsRecord startedRecord ++ [(.worker, .terminated), (.worker, .pathExists false),
      (.updater, .create (some 1)), (.updater, .write 1 (startedRecord.active 7000) true),
      (.worker, .exit)]

/-- A worker is left that serves, or a record that no worker belongs to. -/
theorem stop_stops_not :
    (¬ ∀ d ls s r, (background d).Run ls s → s.stop = .done r → Settled d s →
      ∀ record loop, s.worker ≠ .select record loop) ∧
    ¬ ∀ d ls s r, (background d).Run ls s → s.stop = .done r → Settled d s →
      s.worker = .exited → s.shared.file.path = none := by
  refine ⟨fun hall => ?_, fun hall => ?_⟩
  · obtain ⟨s, hr, hw, hsig, hu, hempty, hk⟩ : ∃ s,
        (background background3000).Run stopsTooEarly s ∧
        s.worker = .select startedRecord Loop.start ∧ s.shared.signal = false ∧
        s.updater = .waiting ∧ s.shared.ready = .empty ∧ s.stop = .done background3000.record :=
      Conc.Lts.exists_run (by decide)
    exact hall _ _ s _ hr hk
      (settled_of (Or.inr ⟨_, _, hw, hsig⟩) (Or.inr ⟨hu, hempty⟩) hk) _ _ hw
  · obtain ⟨s, hr, hw, hu, hk, hpath⟩ : ∃ s, (background background3000).Run savesTooLate s ∧
        s.worker = .exited ∧ s.updater = .done ∧ s.stop = .done startedRecord ∧
        s.shared.file.path = some 1 := Conc.Lts.exists_run (by decide)
    have hnone := hall _ _ s _ hr hk (settled_of (Or.inl hw) (Or.inl hu) hk) hw
    rw [hpath] at hnone
    cases hnone

end Stops

end Borehole.Cli.Worker
