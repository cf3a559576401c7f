/-
  Borehole.Server.History

  What the server keeps for and tells the dashboard: the fixed-capacity history
  of closed tunnels and past connections (crates/server/src/history.rs), the
  lifecycle events (events.rs) and the known devices (devices.rs and
  `upsert_device` in control.rs).

  The source stores and publishes times as RFC 3339 strings.  Here they stay
  the instants those strings render.
-/

import Mathlib.Data.List.Basic

namespace Borehole

/-- `DateTime<Utc>`, in nanoseconds. -/
abbrev DateTime := Int

/-- `(stop - start).num_seconds().max(0)`. -/
def durationSecs (start stop : DateTime) : Nat :=
  ((stop - start).tdiv 1000000000).toNat

/-- A tunnel session that has ended. -/
structure TunnelHistory where
  tunnelId : String
  protocol : String
  localPort : UInt16
  remotePort : UInt16
  node : Option String
  startedAt : DateTime
  endedAt : DateTime
  durationSecs : Nat
  deriving DecidableEq, Repr

/-- A single visitor connection that has been served (direct path only). -/
structure ConnectionHistory where
  tunnelId : String
  connId : String
  sourceIp : String
  sourcePort : UInt16
  connectedAt : DateTime
  durationSecs : Nat
  deriving DecidableEq, Repr

/-- Keep the last 500 closed tunnels. -/
def maxTunnels : Nat := 500

/-- Keep the last 1000 connections. -/
def maxConnections : Nat := 1000

/-- Pushes to a capped queue, evicting the oldest entry if at capacity. -/
def pushCapped {α : Type} (cap : Nat) (queue : List α) (entry : α) : List α :=
  (if queue.length = cap then queue.drop 1 else queue) ++ [entry]

/-- Two capped ring buffers. -/
structure History where
  tunnels : List TunnelHistory
  connections : List ConnectionHistory
  deriving DecidableEq

namespace History

/-- Nothing has been recorded. -/
def new : History := ⟨[], []⟩

/-- Records a closed tunnel, evicting the oldest if at capacity. -/
def recordTunnel (h : History) (entry : TunnelHistory) : History :=
  { h with tunnels := pushCapped maxTunnels h.tunnels entry }

/-- Records a finished connection, evicting the oldest if at capacity. -/
def recordConnection (h : History) (entry : ConnectionHistory) : History :=
  { h with connections := pushCapped maxConnections h.connections entry }

end History

/-- A dashboard-facing real-time event. -/
inductive BhEvent where
  | tunnelOpened (tunnelId protocol : String) (localPort remotePort : UInt16) (node : String)
      (startedAt : DateTime)
  | tunnelClosed (tunnelId : String)
  | nodeConnected (nodeId name : String)
  | nodeLeft (nodeId : String)
  deriving DecidableEq, Repr

/-- A CLI host seen by the server. -/
structure DeviceRecord where
  id : String
  hostname : String
  lastSeenAt : DateTime
  deriving DecidableEq, Repr

/-- The critical section of `upsert_device`: refreshes the first record of
    `hostname`, or adds one under the fresh `id`. -/
def upsertDevice (hostname : String) (now : DateTime) (id : String) :
    List DeviceRecord → List DeviceRecord
  | [] => [⟨id, hostname, now⟩]
  | d :: ds =>
      if d.hostname = hostname then { d with lastSeenAt := now } :: ds
      else d :: upsertDevice hostname now id ds

end Borehole
