/-
  Borehole.Common.Proto

  The control protocol (crates/common/src/proto.rs): the message envelope and
  its newline-delimited JSON frame.

  A frame is the compact JSON object that serde derives for the internally
  tagged enum `Message` (the `"type"` tag first, then the fields in declaration
  order, an absent option as `null`), followed by `'\n'`.
-/

import Borehole.Common.Json
import Mathlib.Data.List.Basic

namespace Borehole

/-! ## Messages -/

/-- Tunnel protocol requested by the CLI. -/
inductive Protocol where
  | tcp
  | http
  deriving DecidableEq, Repr

/-- Sent by the CLI to the server to open a tunnel. -/
structure Register where
  token : String
  protocol : Protocol
  localPort : UInt16
  remotePort : Option UInt16
  node : Option String
  hostname : Option String
  deriving DecidableEq, Repr

/-- Server reply after a successful `Register`. -/
structure Registered where
  remotePort : UInt16
  nodeHost : Option String
  nodePort : Option UInt16
  deriving DecidableEq, Repr

/-- Server -> CLI: an external connection arrived; open a data connection. -/
structure NewConn where
  connId : String
  nodeHost : Option String
  nodePort : Option UInt16
  deriving DecidableEq, Repr

/-- CLI -> server: which `conn_id` a data connection serves. -/
structure DataConn where
  connId : String
  deriving DecidableEq, Repr

/-- Node -> server: a visitor reached the public port. -/
structure VisitorConn where
  tunnelId : String
  connId : String
  deriving DecidableEq, Repr

/-- Node registration request to the server. -/
structure RegisterNode where
  token : String
  name : String
  dataPort : UInt16
  deriving DecidableEq, Repr

/-- Server reply to a `RegisterNode`. -/
structure NodeRegistered where
  nodeId : String
  deriving DecidableEq, Repr

/-- Server -> node: open a public tunnel listener. -/
structure OpenTunnel where
  tunnelId : String
  remotePort : UInt16
  deriving DecidableEq, Repr

/-- Server -> node: tear a tunnel down. -/
structure CloseTunnel where
  tunnelId : String
  deriving DecidableEq, Repr

/-- Generic error, server -> client. -/
structure ErrorMsg where
  reason : String
  deriving DecidableEq, Repr

/-- Envelope wrapping every message exchanged on the control channel. -/
inductive Message where
  | register (m : Register)
  | registered (m : Registered)
  | newConn (m : NewConn)
  | dataConn (m : DataConn)
  | visitorConn (m : VisitorConn)
  | registerNode (m : RegisterNode)
  | nodeRegistered (m : NodeRegistered)
  | openTunnel (m : OpenTunnel)
  | closeTunnel (m : CloseTunnel)
  | error (m : ErrorMsg)
  deriving DecidableEq, Repr

/-! ## Serialization -/

/-- The lower-case name of a protocol. -/
def Protocol.json : Protocol → List Char
  | .tcp => Json.string "tcp"
  | .http => Json.string "http"

/-- The members after the `"type"` tag, and the tag itself. -/
def Message.members : Message → String × List (List Char)
  | .register m => ("register",
      [Json.member "token" (Json.string m.token),
       Json.member "protocol" m.protocol.json,
       Json.member "local_port" (Json.u16 m.localPort),
       Json.member "remote_port" (Json.option Json.u16 m.remotePort),
       Json.member "node" (Json.option Json.string m.node),
       Json.member "hostname" (Json.option Json.string m.hostname)])
  | .registered m => ("registered",
      [Json.member "remote_port" (Json.u16 m.remotePort),
       Json.member "node_host" (Json.option Json.string m.nodeHost),
       Json.member "node_port" (Json.option Json.u16 m.nodePort)])
  | .newConn m => ("new_conn",
      [Json.member "conn_id" (Json.string m.connId),
       Json.member "node_host" (Json.option Json.string m.nodeHost),
       Json.member "node_port" (Json.option Json.u16 m.nodePort)])
  | .dataConn m => ("data_conn", [Json.member "conn_id" (Json.string m.connId)])
  | .visitorConn m => ("visitor_conn",
      [Json.member "tunnel_id" (Json.string m.tunnelId),
       Json.member "conn_id" (Json.string m.connId)])
  | .registerNode m => ("register_node",
      [Json.member "token" (Json.string m.token),
       Json.member "name" (Json.string m.name),
       Json.member "data_port" (Json.u16 m.dataPort)])
  | .nodeRegistered m => ("node_registered", [Json.member "node_id" (Json.string m.nodeId)])
  | .openTunnel m => ("open_tunnel",
      [Json.member "tunnel_id" (Json.string m.tunnelId),
       Json.member "remote_port" (Json.u16 m.remotePort)])
  | .closeTunnel m => ("close_tunnel", [Json.member "tunnel_id" (Json.string m.tunnelId)])
  | .error m => ("error", [Json.member "reason" (Json.string m.reason)])

/-- `serde_json::to_string(msg)`. -/
def Message.json (m : Message) : List Char :=
  Json.object (Json.member "type" (Json.string m.members.1) :: m.members.2)

/-- `to_line`: the JSON of a message and a trailing newline.  Serialization of
    these types cannot fail, so the source's error case is never taken. -/
def toLine (m : Message) : Option String :=
  some (String.ofList (m.json ++ ['\n']))

/-- `str::as_bytes`. -/
def asBytes (s : String) : List UInt8 :=
  s.toList.flatMap String.utf8EncodeChar

theorem toLine_bytes (m : Message) :
    (toLine m).map asBytes = some ((m.json ++ ['\n']).flatMap String.utf8EncodeChar) := by
  rw [toLine, Option.map_some, asBytes, String.toList_ofList]

/-- The bytes that `send` writes for a message. -/
def sendBytes (m : Message) : Option (List UInt8) :=
  (toLine m).map asBytes

theorem sendBytes_some (m : Message) : ∃ frame, sendBytes m = some frame :=
  ⟨_, toLine_bytes m⟩

/-- A frame begins with the brace of its object and the quote of the tag. -/
theorem toLine_head (m : Message) :
    ∃ rest, (toLine m).map asBytes = some (123 :: 34 :: rest) := by
  rw [toLine_bytes]
  obtain ⟨rest, hjson⟩ : ∃ rest, m.json = '\x7b' :: '"' :: rest := by
    cases m <;> exact ⟨_, rfl⟩
  rw [hjson, List.cons_append, List.cons_append, List.flatMap_cons, List.flatMap_cons,
    show String.utf8EncodeChar '\x7b' = [123] by decide,
    show String.utf8EncodeChar '"' = [34] by decide]
  exact ⟨_, rfl⟩

example : toLine (.newConn { connId := "a\"b", nodeHost := none, nodePort := some 7001 }) =
    some ("\x7b\"type\":\"new_conn\",\"conn_id\":\"a\\\"b\",\"node_host\":null," ++
      "\"node_port\":7001\x7d\n") := by
  decide

end Borehole
