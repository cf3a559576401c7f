/-
  Borehole.Cli.Worker

  A background tunnel: the worker process (`run_worker` in crates/cli/src/main.rs)
  with the task it spawns to flip its record to `active`, and a `borehole stop`
  process (`run_stop`), on the same record file.

  Each system call is an operation of its own.  A SIGTERM ends the worker where it
  stands until `shutdown_signal` has installed its handler, and is one of the
  branches of the `select!` from then on.  When `run_worker` has returned, the
  runtime is dropped: the spawned task is dropped where it awaits, and finishes
  the file operations it has begun.
-/

import Borehole.Cli.Retry

namespace Borehole.Cli.Worker

/-- What the processes share: the record file, the channel of `ready_tx`, and a
    SIGTERM that is on its way to the worker. -/
structure Shared where
  file : RecordFile
  ready : Ready
  signal : Bool

/-- The operations of the processes. -/
inductive Op where
  /-- Opens the record for reading: the inode that the path names. -/
  | openRead (got : Option Inode)
  | read (i : Inode) (got : Option TunnelRecord)
  /-- Opens the record for writing: `none` on an I/O error. -/
  | create (got : Option Inode)
  | write (i : Inode) (r : TunnelRecord) (ok : Bool)
  | pathExists (found : Bool)
  /-- `remove_file` fails when the path names no file. -/
  | unlink (ok : Bool)
  /-- `tokio::spawn` of the task that waits for the port. -/
  | spawn
  /-- The signal handler is installed. -/
  | arm
  /-- An operation of `run_tunnel_loop`. -/
  | tunnel (op : Cli.Op) (report : Report)
  /-- The SIGTERM arrives. -/
  | terminated
  /-- The runtime is dropped. -/
  | exit
  /-- `ready_rx.await`: `none` when the sender is gone. -/
  | received (port : Option UInt16)
  /-- `kill pid`: whether the program could be run. -/
  | kill (pid : UInt32) (ok : Bool)
  deriving DecidableEq

/-- An operation that may use the channel of `ready_tx`. -/
def Op.onReady : Op → Bool
  | .tunnel _ _ | .terminated => true
  | _ => false

/-- The record that an operation puts into the file. -/
def Op.written? : Op → Option TunnelRecord
  | .write _ r true => some r
  | _ => none

/-- What an operation does, where the worker's process id is `pid`; `none` if it
    cannot have the result it carries. -/
def Shared.exec (pid : UInt32) (s : Shared) : Op → Option Shared
  | .openRead got => if s.file.path = got then some s else none
  | .read i got => if s.file.data i = got then some s else none
  | .create none => some s
  | .create (some i) =>
      if s.file.create.1 = i then some { s with file := s.file.create.2 } else none
  | .write i r true => some { s with file := s.file.write i r }
  | .write _ _ false => some s
  | .pathExists found => if s.file.path.isSome = found then some s else none
  | .unlink ok => if s.file.path.isSome = ok then some { s with file := s.file.unlink } else none
  | .tunnel _ report => some { s with ready := s.ready.after report }
  | .terminated =>
      if s.signal then
        some { s with signal := false, ready := if s.ready = .empty then .dropped else s.ready }
      else none
  | .received (some port) => if s.ready = .sent port then some s else none
  | .received none => if s.ready = .dropped then some s else none
  | .kill p true => some { s with signal := s.signal || p == pid }
  | .kill _ false | .spawn | .arm | .exit => some s

/-! ## `run_worker` -/

/-- Where the worker is: its own steps, then the tunnel. -/
inductive WorkerPc where
  | openRecord
  | readRecord (i : Inode)
  | create (record : TunnelRecord)
  | write (i : Inode) (record : TunnelRecord)
  | spawn (record : TunnelRecord)
  | arm (record : TunnelRecord)
  /-- At the `select!`. -/
  | select (record : TunnelRecord) (loop : Loop)
  | pathExists
  | unlink
  | exit
  /-- The process has ended. -/
  | exited
  deriving DecidableEq

/-- The arguments of the loop of a worker. -/
def startOf (record : TunnelRecord) : Start where
  localPort := record.localPort
  remotePort := record.remotePort
  protocol := if record.protocol = "http" then .http else .tcp
  node := record.node

/-- Serves one tunnel until stopped, and cleans its record up. -/
def runWorker (pid : UInt32) : WorkerPc → Op → Option WorkerPc
  | .openRecord, .openRead (some i) => some (.readRecord i)
  | .openRecord, .openRead none => some .exited
  | .readRecord i, .read i' (some r) => if i' = i then some (.create (r.started pid)) else none
  | .readRecord i, .read i' none => if i' = i then some .exited else none
  | .create r, .create (some i) => some (.write i r)
  | .create _, .create none => some .exited
  | .write i r, .write i' r' ok =>
      if i' = i ∧ r' = r then some (if ok then .spawn r else .exited) else none
  | .spawn r, .spawn => some (.arm r)
  | .arm r, .arm => some (.select r Loop.start)
  | .select r loop, .tunnel op report =>
      match loop.next (startOf r) op with
      | some (loop', report') =>
          if report' = report then
            some (if loop'.result?.isSome then .pathExists else .select r loop')
          else none
      | none => none
  | .select _ _, .terminated => some .pathExists
  -- no handler yet: the process is killed
  | .openRecord, .terminated | .readRecord _, .terminated | .create _, .terminated
  | .write _ _, .terminated | .spawn _, .terminated | .arm _, .terminated => some .exited
  | .pathExists, .pathExists found => some (if found then .unlink else .exit)
  | .unlink, .unlink _ => some .exit
  | .exit, .exit => some .exited
  | _, _ => none

/-! ## The task that waits for the port -/

/-- Where the task is that reports the port. -/
inductive UpdaterPc where
  /-- Not spawned. -/
  | idle
  | waiting
  | openRecord (port : UInt16)
  | readRecord (port : UInt16) (i : Inode)
  | create (record : TunnelRecord)
  | write (i : Inode) (record : TunnelRecord)
  | done
  deriving DecidableEq

/-- Flips the record to `active` when the server has assigned a port. -/
def updater : UpdaterPc → Op → Option UpdaterPc
  | .waiting, .received (some port) => some (.openRecord port)
  | .waiting, .received none => some .done
  | .openRecord port, .openRead (some i) => some (.readRecord port i)
  | .openRecord _, .openRead none => some .done
  | .readRecord port i, .read i' (some r) => if i' = i then some (.create (r.active port)) else none
  | .readRecord _ i, .read i' none => if i' = i then some .done else none
  | .create r, .create (some i) => some (.write i r)
  | .create _, .create none => some .done
  | .write i r, .write i' r' _ => if i' = i ∧ r' = r then some .done else none
  | _, _ => none

/-- What an operation of the worker does to its task. -/
def adopt : Op → UpdaterPc → Option UpdaterPc
  | .spawn, .idle => some .waiting
  | .exit, .waiting | .exit, .done => some .done
  | .spawn, _ | .exit, _ => none
  | _, u => some u

/-! ## `run_stop` -/

/-- Where `borehole stop` is. -/
inductive StopPc where
  | openRecord
  | readRecord (i : Inode)
  | kill (record : TunnelRecord)
  | pathExists (record : TunnelRecord)
  | unlink (record : TunnelRecord)
  /-- It has returned success. -/
  | done (record : TunnelRecord)
  | failed
  deriving DecidableEq

/-- Signals the worker and removes the record. -/
def runStop : StopPc → Op → Option StopPc
  | .openRecord, .openRead (some i) => some (.readRecord i)
  | .openRecord, .openRead none => some .failed
  | .readRecord i, .read i' (some r) =>
      if i' = i then some (if r.pid = 0 then .pathExists r else .kill r) else none
  | .readRecord i, .read i' none => if i' = i then some .failed else none
  | .kill r, .kill p ok => if p = r.pid then some (if ok then .pathExists r else .failed) else none
  | .pathExists r, .pathExists found => some (if found then .unlink r else .done r)
  | .unlink r, .unlink ok => some (if ok then .done r else .failed)
  | _, _ => none

/-! ## The system -/

/-- What `start --detach` was asked for, and the process id of the worker. -/
structure Detached where
  id : String
  protocol : Protocol
  localPort : UInt16
  remotePort : Option UInt16
  node : Option String
  pid : UInt32

/-- The record that `borehole start` writes first. -/
def Detached.record (d : Detached) : TunnelRecord :=
  .starting d.id d.protocol d.localPort d.remotePort d.node

/-- The file and the three that use it. -/
structure State where
  shared : Shared
  worker : WorkerPc
  updater : UpdaterPc
  stop : StopPc

/-- Who does an operation. -/
inductive Actor where
  | worker
  | updater
  | stop
  deriving DecidableEq

/-- An operation of one of the three. -/
def step (d : Detached) (s : State) (a : Actor × Op) : Option State :=
  (s.shared.exec d.pid a.2).bind fun shared =>
    match a.1 with
    | .worker =>
        (runWorker d.pid s.worker a.2).bind fun pc =>
          (adopt a.2 s.updater).map fun u =>
            { s with shared := shared, worker := pc, updater := u }
    | .updater =>
        (updater s.updater a.2).map fun pc => { s with shared := shared, updater := pc }
    | .stop => (runStop s.stop a.2).map fun pc => { s with shared := shared, stop := pc }

/-- Every interleaving from the moment `start --detach` has saved the record. -/
def background (d : Detached) : Conc.Lts State (Actor × Op) where
  init := ⟨⟨.saved d.record, .empty, false⟩, .openRecord, .idle, .openRecord⟩
  step := step d

/-! ## Inversion -/

/-- The worker has not installed its signal handler. -/
def WorkerPc.unarmed : WorkerPc → Bool
  | .openRecord | .readRecord _ | .create _ | .write _ _ | .spawn _ | .arm _ => true
  | _ => false

/-- The transitions of `run_worker`. -/
inductive WorkerPc.Step (pid : UInt32) : WorkerPc → Op → WorkerPc → Prop where
  | opened {i} : Step pid .openRecord (.openRead (some i)) (.readRecord i)
  | missing : Step pid .openRecord (.openRead none) .exited
  | loaded {i r} : Step pid (.readRecord i) (.read i (some r)) (.create (r.started pid))
  | corrupt {i} : Step pid (.readRecord i) (.read i none) .exited
  | created {r i} : Step pid (.create r) (.create (some i)) (.write i r)
  | createFailed {r} : Step pid (.create r) (.create none) .exited
  | write {i r ok} : Step pid (.write i r) (.write i r ok) (if ok then .spawn r else .exited)
  | spawn {r} : Step pid (.spawn r) .spawn (.arm r)
  | arm {r} : Step pid (.arm r) .arm (.select r Loop.start)
  | tunnel {r loop loop' op report} : loop.next (startOf r) op = some (loop', report) →
      Step pid (.select r loop) (.tunnel op report)
        (if loop'.result?.isSome then .pathExists else .select r loop')
  | shutdown {r loop} : Step pid (.select r loop) .terminated .pathExists
  | killed {pc} : pc.unarmed = true → Step pid pc .terminated .exited
  | pathExists {found} :
      Step pid .pathExists (.pathExists found) (if found then .unlink else .exit)
  | unlink {ok} : Step pid .unlink (.unlink ok) .exit
  | exit : Step pid .exit .exit .exited

theorem runWorker_step {pid : UInt32} {pc pc' : WorkerPc} {op : Op}
    (h : runWorker pid pc op = some pc') : WorkerPc.Step pid pc op pc' := by
  revert h
  fun_cases runWorker pid pc op
  case case13 hn => intro h; cases h; exact .tunnel hn
  all_goals
    intro h
    cases h
    all_goals try casesm* _ ∧ _
    all_goals subst_vars
    all_goals first
      | exact .killed rfl
      | constructor

/-- The transitions of the task that waits for the port. -/
inductive UpdaterPc.Step : UpdaterPc → Op → UpdaterPc → Prop where
  | received {port} : Step .waiting (.received (some port)) (.openRecord port)
  | dropped : Step .waiting (.received none) .done
  | opened {port i} : Step (.openRecord port) (.openRead (some i)) (.readRecord port i)
  | missing {port} : Step (.openRecord port) (.openRead none) .done
  | loaded {port i r} : Step (.readRecord port i) (.read i (some r)) (.create (r.active port))
  | corrupt {port i} : Step (.readRecord port i) (.read i none) .done
  | created {r i} : Step (.create r) (.create (some i)) (.write i r)
  | createFailed {r} : Step (.create r) (.create none) .done
  | write {i r ok} : Step (.write i r) (.write i r ok) .done

theorem updater_step {pc pc' : UpdaterPc} {op : Op} (h : updater pc op = some pc') :
    UpdaterPc.Step pc op pc' := by
  cases pc with
  | idle | done => cases h
  | waiting =>
      cases op with
      | received port =>
          cases port with
          | none => cases h; exact .dropped
          | some port => cases h; exact .received
      | _ => cases h
  | openRecord port =>
      cases op with
      | openRead got =>
          cases got with
          | none => cases h; exact .missing
          | some i => cases h; exact .opened
      | _ => cases h
  | readRecord port i =>
      cases op with
      | read i' got =>
          cases got with
          | none =>
              obtain ⟨rfl, hpc⟩ := Option.ite_none_right_eq_some.mp h
              cases hpc
              exact .corrupt
          | some r =>
              obtain ⟨rfl, hpc⟩ := Option.ite_none_right_eq_some.mp h
              cases hpc
              exact .loaded
      | _ => cases h
  | create r =>
      cases op with
      | create got =>
          cases got with
          | none => cases h; exact .createFailed
          | some i => cases h; exact .created
      | _ => cases h
  | write i r =>
      cases op with
      | write i' r' ok =>
          obtain ⟨⟨rfl, rfl⟩, hpc⟩ := Option.ite_none_right_eq_some.mp h
          cases hpc
          exact .write
      | _ => cases h

/-- The transitions of `run_stop`. -/
inductive StopPc.Step : StopPc → Op → StopPc → Prop where
  | opened {i} : Step .openRecord (.openRead (some i)) (.readRecord i)
  | missing : Step .openRecord (.openRead none) .failed
  | loaded {i r} :
      Step (.readRecord i) (.read i (some r)) (if r.pid = 0 then .pathExists r else .kill r)
  | corrupt {i} : Step (.readRecord i) (.read i none) .failed
  | kill {r ok} : Step (.kill r) (.kill r.pid ok) (if ok then .pathExists r else .failed)
  | pathExists {r found} :
      Step (.pathExists r) (.pathExists found) (if found then .unlink r else .done r)
  | unlink {r ok} : Step (.unlink r) (.unlink ok) (if ok then .done r else .failed)

theorem runStop_step {pc pc' : StopPc} {op : Op} (h : runStop pc op = some pc') :
    StopPc.Step pc op pc' := by
  revert h
  fun_cases runStop pc op
  all_goals
    intro h
    cases h
    all_goals constructor

section Step

variable {d : Detached} {s s' : State} {op : Op}

/-- A step belongs to one of the three. -/
theorem background_step {a : Actor × Op} (h : (background d).step s a = some s') :
    s.shared.exec d.pid a.2 = some s'.shared ∧
    (a.1 = .worker ∧ WorkerPc.Step d.pid s.worker a.2 s'.worker ∧
        adopt a.2 s.updater = some s'.updater ∧ s'.stop = s.stop ∨
      a.1 = .updater ∧ UpdaterPc.Step s.updater a.2 s'.updater ∧ s'.worker = s.worker ∧
        s'.stop = s.stop ∨
      a.1 = .stop ∧ StopPc.Step s.stop a.2 s'.stop ∧ s'.worker = s.worker ∧
        s'.updater = s.updater) := by
  obtain ⟨actor, op⟩ := a
  obtain ⟨shared, hx, h⟩ := Option.bind_eq_some_iff.mp h
  cases actor with
  | worker =>
      obtain ⟨pc, hpc, h⟩ := Option.bind_eq_some_iff.mp h
      obtain ⟨u, hu, rfl⟩ := Option.map_eq_some_iff.mp h
      exact ⟨hx, Or.inl ⟨rfl, runWorker_step hpc, hu, rfl⟩⟩
  | updater =>
      obtain ⟨pc, hpc, rfl⟩ := Option.map_eq_some_iff.mp h
      exact ⟨hx, Or.inr (Or.inl ⟨rfl, updater_step hpc, rfl, rfl⟩)⟩
  | stop =>
      obtain ⟨pc, hpc, rfl⟩ := Option.map_eq_some_iff.mp h
      exact ⟨hx, Or.inr (Or.inr ⟨rfl, runStop_step hpc, rfl, rfl⟩)⟩

/-- The worker starts and drops its task, and leaves it alone otherwise. -/
theorem adopt_some {u u' : UpdaterPc} (h : adopt op u = some u') :
    u' = u ∨ op = .spawn ∧ u = .idle ∧ u' = .waiting ∨
      op = .exit ∧ (u = .waiting ∨ u = .done) ∧ u' = .done := by
  cases op with
  | spawn =>
      cases u with
      | idle => exact Or.inr (Or.inl ⟨rfl, rfl, (Option.some.inj h).symm⟩)
      | _ => cases h
  | exit =>
      cases u with
      | waiting => exact Or.inr (Or.inr ⟨rfl, Or.inl rfl, (Option.some.inj h).symm⟩)
      | done => exact Or.inr (Or.inr ⟨rfl, Or.inr rfl, (Option.some.inj h).symm⟩)
      | _ => cases h
  | _ => exact Or.inl (Option.some.inj h).symm

/-- What an operation may put into the file is what it carries. -/
theorem exec_data {pid : UInt32} {sh sh' : Shared} {i : Inode} {r : TunnelRecord}
    (h : sh.exec pid op = some sh') (hr : sh'.file.data i = some r) :
    sh.file.data i = some r ∨ op.written? = some r := by
  revert h
  fun_cases Shared.exec pid sh op
  all_goals
    intro h
    cases h
  case case6 => exact Or.inl (RecordFile.create_data hr)
  case case8 j r' =>
      obtain hr | rfl := RecordFile.write_data hr
      · exact Or.inl hr
      · exact Or.inr rfl
  all_goals exact Or.inl hr

/-- An operation that is not one of the loop's, and is no SIGTERM, leaves the
    channel alone. -/
theorem exec_ready {pid : UInt32} {sh sh' : Shared} (h : sh.exec pid op = some sh')
    (hop : op.onReady = false) : sh'.ready = sh.ready := by
  revert h
  fun_cases Shared.exec pid sh op
  all_goals
    intro h
    cases h
  case case14 | case15 => cases hop
  all_goals rfl

end Step

/-! ## The record shows the port -/

/-- The port of the verdict that the worker reads. -/
def State.verdict? (s : State) (op : Op) : Option UInt16 :=
  match s.worker, op with
  | .select _ ⟨.running _ pc, _, _, _⟩, .tunnel op _ => Run.verdict? pc op
  | _, _ => none

/-- Whoever reads a verdict gets the port that has gone through `ready_tx`, if one
    has. -/
def SamePort (s : State) (a : Actor × Op) : Prop :=
  ∀ port ∈ s.verdict? a.2, ∀ port' ∈ s.shared.ready.port?, port = port'

instance (s : State) (a : Actor × Op) : Decidable (SamePort s a) :=
  -- named, since there is also an instance that tries every port
  have : DecidablePred fun port => ∀ port' ∈ s.shared.ready.port?, port = port' :=
    fun _ => Option.decidableForallMem _
  Option.decidableForallMem (s.verdict? a.2)

/-- A record that is active while the worker holds a live registration shows the
    port of that registration. -/
def ShowsPort (s : State) : Prop :=
  ∀ record loop port r, s.worker = .select record loop → loop.live? = some port →
    s.shared.file.record? = some r → r.state = stateActive → r.remotePort = some port

/-- A record that the updater is about to save. -/
def UpdaterPc.saving? : UpdaterPc → Option TunnelRecord
  | .create r | .write _ r => some r
  | _ => none

/-- The port that the updater has received. -/
def UpdaterPc.port? : UpdaterPc → Option UInt16
  | .openRecord port | .readRecord port _ => some port
  | _ => none

/-- A record that the worker is about to save. -/
def WorkerPc.saving? : WorkerPc → Option TunnelRecord
  | .create r | .write _ r => some r
  | _ => none

/-- Only the port that went through the channel becomes the port of an active
    record, and a live registration has no other. -/
structure PortInv (s : State) : Prop where
  file : ∀ i r, s.shared.file.data i = some r → r.state = stateActive →
    r.remotePort.isSome = true ∧ r.remotePort = s.shared.ready.port?
  received : ∀ port, s.updater.port? = some port → s.shared.ready.port? = some port
  updater : ∀ r, s.updater.saving? = some r →
    r.remotePort.isSome = true ∧ r.remotePort = s.shared.ready.port?
  worker : ∀ r, s.worker.saving? = some r → r.state ≠ stateActive
  loop : ∀ record loop, s.worker = .select record loop →
    ∃ ended, LoopRunInv ⟨loop, s.shared.ready, ended⟩
  live : ∀ record loop port, s.worker = .select record loop → loop.assigned = some port →
    ∀ port' ∈ s.shared.ready.port?, port = port'
  unarmed : s.worker.unarmed = true → s.shared.ready = .empty

section Runs

variable {d : Detached} {s s' : State} {op : Op}

theorem UpdaterPc.Step.keeps_ready {u u' : UpdaterPc} (h : UpdaterPc.Step u op u') :
    op.onReady = false := by
  cases h <;> rfl

theorem StopPc.Step.keeps_ready {u u' : StopPc} (h : StopPc.Step u op u') :
    op.onReady = false := by
  cases h <;> rfl

/-- A port that has gone through the channel stays there. -/
theorem PortInv.keeps {a : Actor × Op} {port : UInt16} (hi : PortInv s)
    (h : (background d).step s a = some s') (hp : s.shared.ready.port? = some port) :
    s'.shared.ready.port? = some port := by
  obtain ⟨actor, op⟩ := a
  obtain ⟨hx, ⟨_, hw, _⟩ | ⟨_, hu, _⟩ | ⟨_, hs, _⟩⟩ := background_step h
  · generalize hpc : s.worker = pc at hw
    generalize s'.worker = pc' at hw
    cases hw with
    | tunnel hn =>
        obtain ⟨_, hinv⟩ := hi.loop _ _ hpc
        rw [← Option.some.inj hx]
        change (s.shared.ready.after _).port? = some port
        rw [hinv.sent (Loop.next_step hn) hp]
        exact hp
    | shutdown | killed =>
        obtain ⟨_, hx⟩ := Option.ite_none_right_eq_some.mp hx
        have hne : s.shared.ready ≠ .empty := by
          intro he
          rw [he] at hp
          cases hp
        rw [← Option.some.inj hx, if_neg hne]
        exact hp
    | _ =>
        rw [exec_ready hx rfl]
        exact hp
  · rw [exec_ready hx hu.keeps_ready]
    exact hp
  · rw [exec_ready hx hs.keeps_ready]
    exact hp

/-- What is written is what somebody was about to save. -/
theorem write_saving {a : Actor × Op} {r : TunnelRecord}
    (h : (background d).step s a = some s') (ha : a.2.written? = some r) :
    s.worker.saving? = some r ∨ s.updater.saving? = some r := by
  obtain ⟨actor, op⟩ := a
  obtain ⟨hx, ⟨_, hw, _⟩ | ⟨_, hu, _⟩ | ⟨_, hs, _⟩⟩ := background_step h
  · generalize s.worker = pc at hw
    generalize s'.worker = pc' at hw
    cases hw with
    | @write i r' ok =>
        cases ok <;> cases ha
        exact Or.inl rfl
    | _ => cases ha
  · generalize s.updater = u at hu
    generalize s'.updater = u' at hu
    cases hu with
    | @write i r' ok =>
        cases ok <;> cases ha
        exact Or.inr rfl
    | _ => cases ha
  · generalize s.stop = k at hs
    generalize s'.stop = k' at hs
    cases hs <;> cases ha

/-- A worker without its handler has had none before, and has not used the channel. -/
theorem WorkerPc.Step.unarmed {pid : UInt32} {pc pc' : WorkerPc} (h : WorkerPc.Step pid pc op pc')
    (hu : pc'.unarmed = true) : pc.unarmed = true ∧ op.onReady = false := by
  cases h with
  | tunnel hn | pathExists => split at hu <;> cases hu
  | arm | shutdown | unlink | exit | killed | missing | corrupt | createFailed => cases hu
  | _ => exact ⟨rfl, rfl⟩

/-- The worker saves a record that is starting, with its own process id. -/
theorem WorkerPc.Step.saving {pid : UInt32} {pc pc' : WorkerPc} {r : TunnelRecord}
    (h : WorkerPc.Step pid pc op pc') (hr : pc'.saving? = some r) :
    (∃ loaded : TunnelRecord, r = loaded.started pid) ∨ pc.saving? = some r := by
  cases h with
  | loaded => cases hr; exact Or.inl ⟨_, rfl⟩
  | created => exact Or.inr hr
  | write | tunnel hn | pathExists => split at hr <;> cases hr
  | _ => cases hr

/-- The worker is at the `select!` since it has installed its handler. -/
theorem WorkerPc.Step.select {pid : UInt32} {pc pc' : WorkerPc} {record : TunnelRecord}
    {loop : Loop} (h : WorkerPc.Step pid pc op pc') (he : pc' = .select record loop) :
    (pc = .arm record ∧ op = .arm ∧ loop = Loop.start) ∨
      ∃ loop₀ op' report, pc = .select record loop₀ ∧ op = .tunnel op' report ∧
        loop₀.next (startOf record) op' = some (loop, report) := by
  cases h with
  | arm => cases he; exact Or.inl ⟨rfl, rfl, rfl⟩
  | tunnel hn =>
      split at he
      · cases he
      · cases he
        exact Or.inr ⟨_, _, _, rfl, rfl, hn⟩
  | write | pathExists => split at he <;> cases he
  | _ => cases he

/-- The updater saves what it has read, with the port that it has received. -/
theorem UpdaterPc.Step.saving {u u' : UpdaterPc} {r : TunnelRecord}
    (h : UpdaterPc.Step u op u') (hr : u'.saving? = some r) :
    (∃ port i loaded, u.port? = some port ∧ op = .read i (some loaded) ∧ r = loaded.active port) ∨
      u.saving? = some r := by
  cases h with
  | loaded => cases hr; exact Or.inl ⟨_, _, _, rfl, rfl, rfl⟩
  | created => exact Or.inr hr
  | _ => cases hr

/-- A port that the updater receives is in the channel. -/
theorem UpdaterPc.Step.port {u u' : UpdaterPc} {port : UInt16} (h : UpdaterPc.Step u op u')
    (hp : u'.port? = some port) : u.port? = some port ∨ op = .received (some port) := by
  cases h with
  | received => cases hp; exact Or.inr rfl
  | opened => exact Or.inl hp
  | _ => cases hp

/-- A step of the loop leaves it with the port that has gone through the channel,
    or with none. -/
theorem assigned_step {loop loop' : Loop} {record : TunnelRecord} {op' : Cli.Op} {report : Report}
    {ready : Ready} {ended : List Attempt} {port : UInt16} (hinv : LoopRunInv ⟨loop, ready, ended⟩)
    (hlive : ∀ p, loop.assigned = some p → ∀ p' ∈ ready.port?, p = p')
    (hsame : ∀ n pc, loop.pc = .running n pc →
      ∀ p ∈ Run.verdict? pc op', ∀ p' ∈ ready.port?, p = p')
    (hs : Loop.Step (startOf record) loop op' loop' report) (hp : loop'.assigned = some port) :
    ∀ p' ∈ (ready.after report).port?, port = p' := by
  cases hs with
  | work => exact hlive port hp
  | @registered n cfg readyTx given assigned r =>
      cases hp
      cases given with
      | true =>
          intro p' hp'
          exact (Option.some.inj hp')
      | false => exact hsame n (.verdict cfg) rfl r.remotePort rfl
  | failed | closed | again => cases hp

/-- A record that shows the port in the channel goes on showing it. -/
theorem PortInv.shown {a : Actor × Op} {r : TunnelRecord} (hi : PortInv s)
    (h : (background d).step s a = some s')
    (hr : r.remotePort.isSome = true ∧ r.remotePort = s.shared.ready.port?) :
    r.remotePort.isSome = true ∧ r.remotePort = s'.shared.ready.port? := by
  obtain ⟨hs, he⟩ := hr
  obtain ⟨port, hp⟩ := Option.isSome_iff_exists.mp hs
  exact ⟨hs, hp.trans (hi.keeps h (he.symm.trans hp)).symm⟩

/-- An active record in the file was there, or the updater has just saved it. -/
theorem PortInv.file_step {a : Actor × Op} {i : ℕ} {r : TunnelRecord} (hi : PortInv s)
    (h : (background d).step s a = some s') (hr : s'.shared.file.data i = some r)
    (hactive : r.state = stateActive) :
    r.remotePort.isSome = true ∧ r.remotePort = s'.shared.ready.port? := by
  obtain hr | ha := exec_data (background_step h).1 hr
  · exact hi.shown h (hi.file i r hr hactive)
  · obtain hw | hu := write_saving h ha
    · exact absurd hactive (hi.worker r hw)
    · exact hi.shown h (hi.updater r hu)

/-- The worker's loop starts on an empty channel, and each of its steps leaves the
    channel and the live registration with one port. -/
theorem PortInv.select_step {record : TunnelRecord} {loop : Loop} (hi : PortInv s)
    (hok : SamePort s (.worker, op)) (hx : s.shared.exec d.pid op = some s'.shared)
    (hw : WorkerPc.Step d.pid s.worker op s'.worker) (hsel : s'.worker = .select record loop) :
    (∃ ended, LoopRunInv ⟨loop, s'.shared.ready, ended⟩) ∧
      ∀ port, loop.assigned = some port → ∀ port' ∈ s'.shared.ready.port?, port = port' := by
  obtain ⟨hpc, rfl, rfl⟩ | ⟨loop₀, op', report, hpc, rfl, hn⟩ := hw.select hsel
  -- The handler has just been installed.
  · have hempty : s'.shared.ready = .empty := by
      rw [exec_ready hx rfl]
      exact hi.unarmed (by rw [hpc]; rfl)
    rw [hempty]
    exact ⟨⟨[], @loopRunInv (startOf record) [] _ rfl⟩, fun _ _ _ => nofun⟩
  · obtain ⟨ended, hinv⟩ := hi.loop _ _ hpc
    have hready : s'.shared.ready = s.shared.ready.after report := by
      rw [← Option.some.inj hx]
    rw [hready]
    refine ⟨⟨ended ++ (loop₀.ends? loop).toList, @loopRunInv_step (startOf record)
      ⟨loop₀, s.shared.ready, ended⟩ _ op' hinv ?_⟩, fun port hp => ?_⟩
    · change Option.map _ _ = _
      rw [hn]
      rfl
    · refine assigned_step hinv (fun p => hi.live _ _ p hpc) ?_ (Loop.next_step hn) hp
      intro n pc hrun
      obtain ⟨lpc, _, _, _⟩ := loop₀
      cases hrun
      have hv : s.verdict? (.tunnel op' report) = Run.verdict? pc op' := by
        unfold State.verdict?
        rw [hpc]
      rw [SamePort, hv] at hok
      exact hok

theorem portInv_step {a : Actor × Op} (hi : PortInv s) (hok : SamePort s a)
    (h : (background d).step s a = some s') : PortInv s' := by
  obtain ⟨actor, op⟩ := a
  obtain ⟨hx, ⟨_, hw, ha, _⟩ | ⟨_, hu, hw, _⟩ | ⟨_, hs, hw, hu⟩⟩ := background_step h
  -- the worker's own step; its task is where it was, or has nothing to save
  · have hupd : s'.updater.port? = none ∧ s'.updater.saving? = none ∨ s'.updater = s.updater := by
      obtain he | ⟨_, _, he⟩ | ⟨_, _, he⟩ := adopt_some ha
      · exact Or.inr he
      · rw [he]
        exact Or.inl ⟨rfl, rfl⟩
      · rw [he]
        exact Or.inl ⟨rfl, rfl⟩
    have hsel (record : TunnelRecord) (loop : Loop) (he : s'.worker = .select record loop) :=
      hi.select_step hok hx hw he
    refine ⟨fun _ _ => hi.file_step h, fun port hp => ?_, fun r hr => ?_, fun r hr => ?_,
      fun _ _ he => (hsel _ _ he).1, fun _ _ port he => (hsel _ _ he).2 port, fun hun => ?_⟩
    · obtain ⟨hn, _⟩ | he := hupd
      · rw [hn] at hp
        cases hp
      · rw [he] at hp
        exact hi.keeps h (hi.received port hp)
    · obtain ⟨_, hn⟩ | he := hupd
      · rw [hn] at hr
        cases hr
      · rw [he] at hr
        exact hi.shown h (hi.updater r hr)
    -- What the worker saves is starting.
    · obtain ⟨_, rfl⟩ | hr := hw.saving hr
      · exact (by decide : stateStarting ≠ stateActive)
      · exact hi.worker r hr
    · obtain ⟨hun, hop⟩ := hw.unarmed hun
      rw [exec_ready hx hop]
      exact hi.unarmed hun
  -- the updater's
  · have hready := exec_ready hx hu.keeps_ready
    refine ⟨fun _ _ => hi.file_step h, fun port hp => ?_, fun r hr => ?_, ?_, ?_, ?_, ?_⟩
    · rw [hready]
      obtain hp | rfl := hu.port hp
      · exact hi.received port hp
      · obtain ⟨he, _⟩ := Option.ite_none_right_eq_some.mp hx
        rw [he]
        rfl
    -- It saves what it has read, with the port that it has received.
    · obtain ⟨port, _, _, hp, _, rfl⟩ | hr := hu.saving hr
      · rw [hready, hi.received port hp]
        exact ⟨rfl, rfl⟩
      · exact hi.shown h (hi.updater r hr)
    · rw [hw]
      exact hi.worker
    · rw [hw, hready]
      exact hi.loop
    · rw [hw, hready]
      exact hi.live
    · rw [hw, hready]
      exact hi.unarmed
  -- the stopping process's
  · have hready := exec_ready hx hs.keeps_ready
    refine ⟨fun _ _ => hi.file_step h, ?_, fun r hr => ?_, ?_, ?_, ?_, ?_⟩
    · rw [hu, hready]
      exact hi.received
    · rw [hu] at hr
      exact hi.shown h (hi.updater r hr)
    · rw [hw]
      exact hi.worker
    · rw [hw, hready]
      exact hi.loop
    · rw [hw, hready]
      exact hi.live
    · rw [hw, hready]
      exact hi.unarmed

theorem portInv {ls : List (Actor × Op)} (hr : (background d).Run ls s)
    (hok : (background d).Along SamePort ls) : PortInv s := by
  refine Conc.Lts.Run.induct_along (P := fun _ s => PortInv s) ?_ ?_ hr hok
  -- at the start the record is not active, and neither task has read anything
  · refine ⟨fun i r hr hactive => ?_, fun _ hp => ?_, fun _ hr => ?_, fun _ hr => ?_,
      fun _ _ hw => ?_, fun _ _ _ hw => ?_, fun _ => rfl⟩
    · obtain ⟨_, he⟩ := Option.ite_none_right_eq_some.mp hr
      rw [← Option.some.inj he] at hactive
      exact absurd hactive (show stateStarting ≠ stateActive by decide)
    · cases hp
    · cases hr
    · cases hr
    · cases hw
    · cases hw
  · intro _ s a s' _ hi hok hs
    exact portInv_step hi hok hs

/-- In a run in which every registration gets the port that the first one
    reported, an active record shows the port of the live registration. -/
theorem active_record_port {ls : List (Actor × Op)} (hr : (background d).Run ls s)
    (hok : (background d).Along SamePort ls) : ShowsPort s := by
  intro record loop port r hw hlive hrec hactive
  have hi := portInv hr hok
  obtain ⟨ended, hinv⟩ := hi.loop record loop hw
  obtain ⟨i, _, hdata⟩ := Option.bind_eq_some_iff.mp hrec
  obtain ⟨hsome, hready⟩ := hi.file i r hdata hactive
  obtain ⟨port', hp⟩ := Option.isSome_iff_exists.mp hsome
  have hassigned : loop.assigned = some port := hinv.live.symm.trans hlive
  rw [hp, hi.live record loop port hw hassigned port' (hready.symm.trans hp)]

end Runs

section Reconnects

/-- A tunnel to port 3000 in the background. -/
def background3000 : Detached where
  id := "1f"
  protocol := .tcp
  localPort := 3000
  remotePort := none
  node := none
  pid := 42

/-- Its record with the worker in it. -/
def startedRecord : TunnelRecord := background3000.record.started 42

/-- A complete configuration. -/
def configured : Config := ⟨"borehole.dev:7835", "tok"⟩

/-- The worker up to its `select!`. -/
def comesUp : List (Actor × Op) :=
  [(.worker, .openRead (some 0)), (.worker, .read 0 (some background3000.record)),
   (.worker, .create (some 0)), (.worker, .write 0 startedRecord true),
   (.worker, .spawn), (.worker, .arm)]

/-- A call of `run` that is assigned a port. -/
def registersAt (port : UInt16) (report : Report) : List (Actor × Op) :=
  [(.worker, .tunnel (.load (some configured)) .none),
   (.worker, .tunnel (.connect configured.serverAddr true) .none),
   (.worker, .tunnel (.handshake true) .none), (.worker, .tunnel (.hostname none) .none),
   (.worker, .tunnel (.sendRegister
     (Run.registerMsg (startOf startedRecord) configured none) true) .none),
   (.worker, .tunnel (.readLine (some (some (.registered ⟨port, none, none⟩)))) report)]

/-- The updater with the port of the first registration. -/
def becomesActive (port : UInt16) : List (Actor × Op) :=
  [(.updater, .received (some port)), (.updater, .openRead (some 0)),
   (.updater, .read 0 (some startedRecord)), (.updater, .create (some 0)),
   (.updater, .write 0 (startedRecord.active port) true)]

/-- A registration that is lost and renewed, at the ports that the server assigns. -/
def reconnects (first second : UInt16) : List (Actor × Op) :=
  comesUp ++ registersAt first (.send first) ++ becomesActive first ++
    [(.worker, .tunnel (.readLine none) .none), (.worker, .tunnel .sleep .none)] ++
    registersAt second .none

theorem active_record_port_renewed : ∃ s,
    (background background3000).Run (reconnects 7000 7000) s ∧ ShowsPort s := by
  obtain ⟨s, hr, -⟩ : ∃ s, (background background3000).Run (reconnects 7000 7000) s ∧ True :=
    Conc.Lts.exists_run (by decide)
  exact ⟨s, hr, active_record_port hr (by decide)⟩

/-- The renewed registration has another port, and the record keeps the first. -/
theorem active_record_port_stale : ¬ ∀ d ls s, (background d).Run ls s → ShowsPort s := by
  intro hall
  obtain ⟨s, hr, hrec, record, loop, hw, hlive⟩ : ∃ s,
      (background background3000).Run (reconnects 7000 7001) s ∧
      s.shared.file.record? = some (startedRecord.active 7000) ∧
      ∃ record loop, s.worker = .select record loop ∧ loop.live? = some 7001 := by
    obtain ⟨s, hr, hrec, hw⟩ : ∃ s, (background background3000).Run (reconnects 7000 7001) s ∧
        s.shared.file.record? = some (startedRecord.active 7000) ∧
        s.worker = .select startedRecord
          ⟨.running 1 (.serve configured), false, false, some 7001⟩ :=
      Conc.Lts.exists_run (by decide)
    exact ⟨s, hr, hrec, _, _, hw, rfl⟩
  have hport := hall _ _ s hr record loop 7001 _ hw hlive hrec rfl
  exact absurd hport (by decide)

end Reconnects

end Borehole.Cli.Worker
