/-
  Borehole.Cli.Records

  The record of a background tunnel (crates/cli/src/tunnels.rs) and the file it
  is kept in.

  A file is an inode that its path names.  `fs::write` opens the path, which
  truncates the file or makes a new one, and then writes; `remove_file` takes the
  name away, and whoever has the file open goes on with an inode that has no name.
-/

import Borehole.Common.Proto
import Mathlib.Logic.Function.Basic

namespace Borehole.Cli

/-- Persisted description of a background tunnel. -/
structure TunnelRecord where
  id : String
  /-- OS process id of the worker serving this tunnel (0 until it starts). -/
  pid : UInt32
  protocol : String
  localPort : UInt16
  /-- Remote port assigned by the server. -/
  remotePort : Option UInt16
  node : Option String
  state : String
  deriving DecidableEq, Repr

/-- The tunnel is being set up. -/
def stateStarting : String := "starting"

/-- The tunnel is open. -/
def stateActive : String := "active"

/-- Wire name of a protocol. -/
def protocolName : Protocol → String
  | .tcp => "tcp"
  | .http => "http"

namespace TunnelRecord

/-- The record that `start --detach` saves. -/
def starting (id : String) (protocol : Protocol) (localPort : UInt16) (remotePort : Option UInt16)
    (node : Option String) : TunnelRecord where
  id := id
  pid := 0
  protocol := protocolName protocol
  localPort := localPort
  remotePort := remotePort
  node := node
  state := stateStarting

/-- The record of a worker that has started. -/
def started (r : TunnelRecord) (pid : UInt32) : TunnelRecord :=
  { r with pid := pid, state := stateStarting }

/-- The record of a tunnel that the server has assigned a port to. -/
def active (r : TunnelRecord) (port : UInt16) : TunnelRecord :=
  { r with remotePort := some port, state := stateActive }

end TunnelRecord

/-- A file, whatever its path. -/
abbrev Inode := Nat

/-- The file of one record. -/
structure RecordFile where
  /-- The inode that the path names. -/
  path : Option Inode
  /-- What an inode holds; `none` while it is truncated, which does not parse. -/
  data : Inode → Option TunnelRecord
  /-- The next new inode. -/
  next : Inode

namespace RecordFile

/-- The file that `start --detach` leaves. -/
def saved (r : TunnelRecord) : RecordFile where
  path := some 0
  data := fun i => if i = 0 then some r else none
  next := 1

/-- What the path holds. -/
def record? (f : RecordFile) : Option TunnelRecord :=
  f.path.bind f.data

/-- Opens the path for writing: the inode, truncated. -/
def create (f : RecordFile) : Inode × RecordFile :=
  match f.path with
  | some i => (i, { f with data := Function.update f.data i none })
  | none =>
      (f.next,
        { path := some f.next, data := Function.update f.data f.next none, next := f.next + 1 })

/-- What was in the file is replaced. -/
def write (f : RecordFile) (i : Inode) (r : TunnelRecord) : RecordFile :=
  { f with data := Function.update f.data i (some r) }

/-- The path leads nowhere, and the file stays for those that have it open. -/
def unlink (f : RecordFile) : RecordFile :=
  { f with path := none }

variable {f : RecordFile} {i j : Inode} {r r' : TunnelRecord}

/-- Opening for writing adds no content. -/
theorem create_data (h : f.create.2.data j = some r) : f.data j = some r := by
  unfold create at h
  split at h
  all_goals
    simp only [Function.update_apply] at h
    split at h
    · cases h
    · exact h

theorem write_data (h : (f.write i r).data j = some r') : f.data j = some r' ∨ r' = r := by
  simp only [write, Function.update_apply] at h
  split at h
  · exact Or.inr (Option.some.inj h).symm
  · exact Or.inl h

end RecordFile
end Borehole.Cli
