/-
  Borehole.Common.Frames

  Reading frames off a byte stream: `from_line` (crates/common/src/proto.rs),
  `read_frame` and `read_line_opt` (crates/server/src/control.rs; the node has
  the same `read_frame`).

  `serde_json::from_str::<Message>` is a parameter.  Of it we use what the
  documentation of serde_json and of serde's internally tagged enums says about
  compact objects: the text is read back to its members, the tag selects the
  variant, and the other members are its fields.
-/

import Borehole.Common.Proto
import Borehole.Common.Utf8

namespace Borehole

open Json (Scalar)

/-! ## The derived deserialization -/

/-- A member by its name: `none` if there is more than one. -/
def Json.field (name : String) (members : List (String × Scalar)) : Option (Option Scalar) :=
  match members.filter fun m => m.1 = name with
  | [] => some none
  | [m] => some (some m.2)
  | _ => none

/-- A field that has to be there. -/
def Json.required {α : Type} (read : Scalar → Option α) (name : String)
    (members : List (String × Scalar)) : Option α :=
  (Json.field name members).bind fun v => v.bind read

/-- `None` for a member that is absent or null. -/
def Json.orNull {α : Type} (read : Scalar → Option α) : Option Scalar → Option (Option α)
  | none | some .null => some none
  | some v => (read v).map some

/-- An `Option` field. -/
def Json.nullable {α : Type} (read : Scalar → Option α) (name : String)
    (members : List (String × Scalar)) : Option (Option α) :=
  (Json.field name members).bind (Json.orNull read)

/-- A string. -/
def Json.string? : Scalar → Option String
  | .string s => some s
  | _ => none

/-- A number of 16 bits. -/
def Json.u16? : Scalar → Option UInt16
  | .nat n => if n < 65536 then some (UInt16.ofNat n) else none
  | _ => none

/-- A protocol, by its lower-case name. -/
def Protocol.ofJson : Scalar → Option Protocol
  | .string s => if s = "tcp" then some .tcp else if s = "http" then some .http else none
  | _ => none

section Derived

open Json

variable (members : List (String × Scalar))

/-- `Register`, from the members of an object. -/
def Register.ofMembers : Option Register := do
  return {
    token := ← required string? "token" members
    protocol := ← required Protocol.ofJson "protocol" members
    localPort := ← required u16? "local_port" members
    remotePort := ← nullable u16? "remote_port" members
    node := ← nullable string? "node" members
    hostname := ← nullable string? "hostname" members }

/-- `Registered`, from the members of an object. -/
def Registered.ofMembers : Option Registered := do
  return {
    remotePort := ← required u16? "remote_port" members
    nodeHost := ← nullable string? "node_host" members
    nodePort := ← nullable u16? "node_port" members }

/-- `NewConn`, from the members of an object. -/
def NewConn.ofMembers : Option NewConn := do
  return {
    connId := ← required string? "conn_id" members
    nodeHost := ← nullable string? "node_host" members
    nodePort := ← nullable u16? "node_port" members }

/-- `DataConn`, from the members of an object. -/
def DataConn.ofMembers : Option DataConn := do
  return { connId := ← required string? "conn_id" members }

/-- `VisitorConn`, from the members of an object. -/
def VisitorConn.ofMembers : Option VisitorConn := do
  return {
    tunnelId := ← required string? "tunnel_id" members
    connId := ← required string? "conn_id" members }

/-- `RegisterNode`, from the members of an object. -/
def RegisterNode.ofMembers : Option RegisterNode := do
  return {
    token := ← required string? "token" members
    name := ← required string? "name" members
    dataPort := ← required u16? "data_port" members }

/-- `NodeRegistered`, from the members of an object. -/
def NodeRegistered.ofMembers : Option NodeRegistered := do
  return { nodeId := ← required string? "node_id" members }

/-- `OpenTunnel`, from the members of an object. -/
def OpenTunnel.ofMembers : Option OpenTunnel := do
  return {
    tunnelId := ← required string? "tunnel_id" members
    remotePort := ← required u16? "remote_port" members }

/-- `CloseTunnel`, from the members of an object. -/
def CloseTunnel.ofMembers : Option CloseTunnel := do
  return { tunnelId := ← required string? "tunnel_id" members }

/-- `ErrorMsg`, from the members of an object. -/
def ErrorMsg.ofMembers : Option ErrorMsg := do
  return { reason := ← required string? "reason" members }

/-- The message with the given members, of which `"type"` selects the variant.
    Members that the variant does not have are ignored. -/
def Message.ofMembers : Option Message :=
  (required string? "type" members).bind fun
    | "register" => (Register.ofMembers members).map .register
    | "registered" => (Registered.ofMembers members).map .registered
    | "new_conn" => (NewConn.ofMembers members).map .newConn
    | "data_conn" => (DataConn.ofMembers members).map .dataConn
    | "visitor_conn" => (VisitorConn.ofMembers members).map .visitorConn
    | "register_node" => (RegisterNode.ofMembers members).map .registerNode
    | "node_registered" => (NodeRegistered.ofMembers members).map .nodeRegistered
    | "open_tunnel" => (OpenTunnel.ofMembers members).map .openTunnel
    | "close_tunnel" => (CloseTunnel.ofMembers members).map .closeTunnel
    | "error" => (ErrorMsg.ofMembers members).map .error
    | _ => none

end Derived

/-- What `serde_json::from_str` does with the compact text of a flat object whose
    numbers are of 64 bits. -/
def ReadsCompact (fromStr : String → Option Message) : Prop :=
  ∀ members : List (String × Scalar), (∀ x ∈ members, x.2.Below UInt64.size) →
    fromStr (String.ofList (Json.objectText members)) = Message.ofMembers members

/-- A deserializer of messages by way of their members. -/
def fromStr (text : String) : Option Message :=
  (Json.readObject text.toList).bind Message.ofMembers

theorem fromStr_readsCompact : ReadsCompact fromStr := by
  intro members _
  rw [fromStr, String.toList_ofList, Json.readObject_objectText, Option.bind_some]

/-! ## The members of a message -/

/-- A value or `null`. -/
def Json.ofOption {α : Type} (f : α → Scalar) : Option α → Scalar
  | none => .null
  | some a => f a

/-- A number of 16 bits. -/
def Json.ofU16 (n : UInt16) : Scalar :=
  .nat n.toNat

/-- The lower-case name of a protocol. -/
def Protocol.toJson : Protocol → Scalar
  | .tcp => .string "tcp"
  | .http => .string "http"

/-- The members of a message's object, the tag first. -/
def Message.toMembers : Message → List (String × Scalar)
  | .register m =>
      [("type", .string "register"), ("token", .string m.token), ("protocol", m.protocol.toJson),
       ("local_port", Json.ofU16 m.localPort),
       ("remote_port", Json.ofOption Json.ofU16 m.remotePort),
       ("node", Json.ofOption .string m.node), ("hostname", Json.ofOption .string m.hostname)]
  | .registered m =>
      [("type", .string "registered"), ("remote_port", Json.ofU16 m.remotePort),
       ("node_host", Json.ofOption .string m.nodeHost),
       ("node_port", Json.ofOption Json.ofU16 m.nodePort)]
  | .newConn m =>
      [("type", .string "new_conn"), ("conn_id", .string m.connId),
       ("node_host", Json.ofOption .string m.nodeHost),
       ("node_port", Json.ofOption Json.ofU16 m.nodePort)]
  | .dataConn m => [("type", .string "data_conn"), ("conn_id", .string m.connId)]
  | .visitorConn m =>
      [("type", .string "visitor_conn"), ("tunnel_id", .string m.tunnelId),
       ("conn_id", .string m.connId)]
  | .registerNode m =>
      [("type", .string "register_node"), ("token", .string m.token), ("name", .string m.name),
       ("data_port", Json.ofU16 m.dataPort)]
  | .nodeRegistered m => [("type", .string "node_registered"), ("node_id", .string m.nodeId)]
  | .openTunnel m =>
      [("type", .string "open_tunnel"), ("tunnel_id", .string m.tunnelId),
       ("remote_port", Json.ofU16 m.remotePort)]
  | .closeTunnel m => [("type", .string "close_tunnel"), ("tunnel_id", .string m.tunnelId)]
  | .error m => [("type", .string "error"), ("reason", .string m.reason)]

section Members

open Json

theorem Json.text_string (s : String) : (Scalar.string s).text = Json.string s := rfl

theorem Json.text_u16 (n : UInt16) : (ofU16 n).text = u16 n := rfl

theorem Json.text_optionString (o : Option String) :
    (ofOption .string o).text = option string o := by
  cases o <;> rfl

theorem Json.text_optionU16 (o : Option UInt16) : (ofOption ofU16 o).text = option u16 o := by
  cases o <;> rfl

theorem Protocol.text_toJson (p : Protocol) : p.toJson.text = p.json := by
  cases p <;> rfl

/-- The text of a message is the compact text of its members. -/
theorem Message.json_eq (m : Message) : m.json = objectText m.toMembers := by
  cases m <;>
    simp only [Message.json, Message.members, Message.toMembers, objectText, List.map_cons,
      List.map_nil, text_string, text_u16, text_optionString, text_optionU16,
      Protocol.text_toJson]

@[simp] theorem Json.string?_string (s : String) : string? (.string s) = some s := rfl

@[simp] theorem Json.u16?_ofU16 (n : UInt16) : u16? (ofU16 n) = some n := by
  have hn : n.toNat < 65536 := n.toNat_lt
  rw [ofU16, u16?, if_pos hn, UInt16.ofNat_toNat]

@[simp] theorem Json.orNull_string (o : Option String) :
    orNull string? (some (ofOption .string o)) = some o := by
  cases o <;> rfl

@[simp] theorem Json.orNull_u16 (o : Option UInt16) :
    orNull u16? (some (ofOption ofU16 o)) = some o := by
  cases o with
  | none => rfl
  | some n => exact congrArg (Option.map some) (u16?_ofU16 n)

@[simp] theorem Protocol.ofJson_toJson (p : Protocol) : Protocol.ofJson p.toJson = some p := by
  cases p <;> rfl

/-- No variant is taken for another one, and no field is lost. -/
theorem Json.ofU16_below (n : UInt16) : (ofU16 n).Below UInt64.size :=
  Nat.lt_trans n.toNat_lt (by decide)

/-- The numbers of a message are ports. -/
theorem Message.toMembers_below (m : Message) :
    ∀ x ∈ m.toMembers, x.2.Below UInt64.size := by
  have hstring : ∀ s, (Scalar.string s).Below UInt64.size := fun _ => trivial
  have hoption : ∀ o : Option String, (Json.ofOption .string o).Below UInt64.size := by
    rintro (_ | s) <;> trivial
  have hport : ∀ o : Option UInt16, (Json.ofOption Json.ofU16 o).Below UInt64.size := by
    rintro (_ | n)
    · trivial
    · exact Json.ofU16_below n
  have hprotocol : ∀ p : Protocol, p.toJson.Below UInt64.size := by
    rintro (_ | _) <;> trivial
  cases m <;> simp [Message.toMembers, hstring, hoption, hport, hprotocol, Json.ofU16_below]

/-- A message is read from the text of its members. -/
theorem ReadsCompact.toMembers {fromStr : String → Option Message} (h : ReadsCompact fromStr)
    (m : Message) : fromStr (String.ofList (Json.objectText m.toMembers)) =
      Message.ofMembers m.toMembers :=
  h m.toMembers m.toMembers_below

theorem Message.ofMembers_toMembers (m : Message) : Message.ofMembers m.toMembers = some m := by
  cases m <;>
    simp [Message.ofMembers, Message.toMembers, required, nullable, field, Register.ofMembers,
      Registered.ofMembers, NewConn.ofMembers, DataConn.ofMembers, VisitorConn.ofMembers,
      RegisterNode.ofMembers, NodeRegistered.ofMembers, OpenTunnel.ofMembers,
      CloseTunnel.ofMembers, ErrorMsg.ofMembers]

end Members

/-! ## `from_line` -/

/-- `char::is_whitespace`: the Unicode property `White_Space`. -/
def isWhitespace (c : Char) : Bool :=
  (9 ≤ c.toNat && c.toNat ≤ 13) || c.toNat = 0x20 || c.toNat = 0x85 || c.toNat = 0xa0 ||
    c.toNat = 0x1680 || (0x2000 ≤ c.toNat && c.toNat ≤ 0x200a) || c.toNat = 0x2028 ||
    c.toNat = 0x2029 || c.toNat = 0x202f || c.toNat = 0x205f || c.toNat = 0x3000

/-- `str::trim` -/
def trim (s : String) : String :=
  String.ofList ((s.toList.dropWhile isWhitespace).reverse.dropWhile isWhitespace).reverse

/-- Deserializes a single JSON frame into a `Message`. -/
def fromLine (fromStr : String → Option Message) (line : String) : Option Message :=
  fromStr (trim line)

/-! ## Reading from a stream -/

/-- What is left to read of a connection: its bytes, and whether the read after
    the last of them fails instead of reporting the end of the stream. -/
structure ByteStream where
  bytes : List UInt8
  fails : Bool
  deriving DecidableEq, Repr

/-- `std::io::ErrorKind`, as far as reading tells errors apart. -/
inductive ReadError where
  | connection
  | invalidData
  deriving DecidableEq, Repr

/-- The loop of `read_frame`, with the bytes it has read. -/
def readFrameLoop (fails : Bool) (buf : List UInt8) :
    List UInt8 → Except ReadError (Option String) × List UInt8
  | [] =>
      (if fails then .error .connection
        else .ok (if buf = [] then none else some (Utf8.fromUtf8Lossy buf)), [])
  | b :: bytes =>
      if b = 10 then (.ok (some (Utf8.fromUtf8Lossy buf)), bytes)
      else readFrameLoop fails (buf ++ [b]) bytes

/-- Reads a single `'\n'`-terminated frame one byte at a time, so that no byte
    after the frame is consumed. -/
def readFrame (s : ByteStream) : Except ReadError (Option String) × ByteStream :=
  let r := readFrameLoop s.fails [] s.bytes
  (r.1, ⟨r.2, s.fails⟩)

/-- What `read_line` makes of the bytes up to the newline or the end. -/
def finishLine (buf : List UInt8) : Except ReadError (Option String) :=
  if buf = [] then .ok none
  else match Utf8.fromUtf8 buf with
    | some line => .ok (some line)
    | none => .error .invalidData

/-- The loop of `read_line` into an empty string, with the bytes it has read. -/
def readLineLoop (fails : Bool) (buf : List UInt8) :
    List UInt8 → Except ReadError (Option String) × List UInt8
  | [] => (if fails then .error .connection else finishLine buf, [])
  | b :: bytes =>
      if b = 10 then (finishLine (buf ++ [b]), bytes)
      else readLineLoop fails (buf ++ [b]) bytes

/-- Reads one newline-delimited frame, newline included.  `Ok(None)` signals a
    clean EOF. -/
def readLineOpt (s : ByteStream) : Except ReadError (Option String) × ByteStream :=
  let r := readLineLoop s.fails [] s.bytes
  (r.1, ⟨r.2, s.fails⟩)

/-- What a reader makes of what it has read: `none` where there is no message. -/
def decodeLine (fromStr : String → Option Message) :
    Except ReadError (Option String) → Option Message
  | .ok (some line) => fromLine fromStr line
  | _ => none

/-- The next `n` frames read with `read` and decoded. -/
def receive (read : ByteStream → Except ReadError (Option String) × ByteStream)
    (fromStr : String → Option Message) : Nat → ByteStream → List (Option Message) × ByteStream
  | 0, s => ([], s)
  | n + 1, s =>
      let r := read s
      let rs := receive read fromStr n r.2
      (decodeLine fromStr r.1 :: rs.1, rs.2)

/-- The bytes of objects, each on a line of its own. -/
def Json.lines (objects : List (List (String × Scalar))) : List UInt8 :=
  objects.flatMap fun members => Utf8.encode (objectText members) ++ [10]

/-- The bytes of a sequence of messages on the wire. -/
def wire (ms : List Message) : Option (List UInt8) :=
  (ms.mapM sendBytes).map List.flatten

section RoundTrip

variable {fails : Bool} {buf bytes rest : List UInt8} {c : Char} {m : Message}
  {members : List (String × Scalar)}
  {fromStr : String → Option Message}

theorem readFrameLoop_line (fails : Bool) (buf rest : List UInt8) (h : (10 : UInt8) ∉ bytes) :
    readFrameLoop fails buf (bytes ++ 10 :: rest) =
      (.ok (some (Utf8.fromUtf8Lossy (buf ++ bytes))), rest) := by
  induction bytes generalizing buf with
  | nil => rw [List.nil_append, readFrameLoop, if_pos rfl, List.append_nil]
  | cons b bytes ih =>
      rw [List.mem_cons, not_or] at h
      rw [List.cons_append, readFrameLoop, if_neg (Ne.symm h.1), ih _ h.2, List.append_assoc,
        List.singleton_append]

theorem readLineLoop_line (fails : Bool) (buf rest : List UInt8) (h : (10 : UInt8) ∉ bytes) :
    readLineLoop fails buf (bytes ++ 10 :: rest) = (finishLine (buf ++ bytes ++ [10]), rest) := by
  induction bytes generalizing buf with
  | nil => rw [List.nil_append, readLineLoop, if_pos rfl, List.append_nil]
  | cons b bytes ih =>
      rw [List.mem_cons, not_or] at h
      rw [List.cons_append, readLineLoop, if_neg (Ne.symm h.1), ih _ h.2, List.append_assoc,
        List.append_assoc, List.append_assoc, List.singleton_append]
      rfl

/-! ### What a message looks like on the wire -/

/-- Trimming takes the white space after a text that begins and ends without any. -/
theorem trim_append {a z : Char} {mid ws : List Char} (ha : isWhitespace a = false)
    (hz : isWhitespace z = false) (hws : ∀ c ∈ ws, isWhitespace c = true) :
    trim (String.ofList (a :: mid ++ [z] ++ ws)) = String.ofList (a :: mid ++ [z]) := by
  have hfront : (a :: mid ++ [z] ++ ws).dropWhile isWhitespace = a :: mid ++ [z] ++ ws := by
    rw [List.cons_append, List.cons_append, List.dropWhile_cons_of_neg (by simp [ha])]
  have hback : (ws.reverse ++ (z :: (a :: mid).reverse)).dropWhile isWhitespace =
      z :: (a :: mid).reverse := by
    rw [List.dropWhile_append_of_pos (by simpa using hws),
      List.dropWhile_cons_of_neg (by simp [hz])]
  rw [trim, String.toList_ofList, hfront, List.reverse_append, List.reverse_append,
    List.reverse_singleton, List.singleton_append, hback, List.reverse_cons,
    List.reverse_reverse]

/-- No newline comes before the one at the end of the line. -/
theorem Json.newline_encode (members : List (String × Scalar)) :
    (10 : UInt8) ∉ Utf8.encode (objectText members) := by
  rw [Utf8.encode, List.mem_flatMap]
  rintro ⟨c, hc, hb⟩
  have hnl : c = '\n' := Char.toNat_inj.mp (Utf8.mem_encodeChar (by decide) hb)
  rw [hnl] at hc
  exact newline_objectText members hc

theorem fromLine_objectText
    (hserde : fromStr (String.ofList (Json.objectText members)) = Message.ofMembers members)
    (ws : List Char) (hws : ∀ c ∈ ws, isWhitespace c = true) :
    fromLine fromStr (String.ofList (Json.objectText members ++ ws)) =
      Message.ofMembers members := by
  have htrim : trim (String.ofList (Json.objectText members ++ ws)) =
      String.ofList (Json.objectText members) :=
    trim_append (by decide) (by decide) hws
  rw [fromLine, htrim, hserde]

theorem fromLine_json (hserde : ReadsCompact fromStr) (m : Message) (ws : List Char)
    (hws : ∀ c ∈ ws, isWhitespace c = true) :
    fromLine fromStr (String.ofList (m.json ++ ws)) = some m := by
  rw [Message.json_eq, fromLine_objectText (hserde.toMembers m) ws hws, Message.ofMembers_toMembers]

/-! ### One line -/

theorem readFrame_objectText
    (hserde : fromStr (String.ofList (Json.objectText members)) = Message.ofMembers members)
    (rest : List UInt8) (fails : Bool) :
    let s := readFrame ⟨Utf8.encode (Json.objectText members) ++ 10 :: rest, fails⟩
    decodeLine fromStr s.1 = Message.ofMembers members ∧ s.2 = ⟨rest, fails⟩ := by
  have hread := readFrameLoop_line fails [] rest (Json.newline_encode members)
  have hline := fromLine_objectText hserde [] nofun
  rw [List.append_nil] at hline
  dsimp only
  rw [readFrame, hread]
  refine ⟨?_, rfl⟩
  rw [decodeLine, List.nil_append, Utf8.fromUtf8Lossy_encode, hline]

theorem readLine_objectText
    (hserde : fromStr (String.ofList (Json.objectText members)) = Message.ofMembers members)
    (rest : List UInt8) (fails : Bool) :
    let s := readLineOpt ⟨Utf8.encode (Json.objectText members) ++ 10 :: rest, fails⟩
    decodeLine fromStr s.1 = Message.ofMembers members ∧ s.2 = ⟨rest, fails⟩ := by
  have hread := readLineLoop_line fails [] rest (Json.newline_encode members)
  have henc : Utf8.encode (Json.objectText members) ++ [10] =
      Utf8.encode (Json.objectText members ++ ['\n']) := by
    rw [Utf8.encode, Utf8.encode, List.flatMap_append]
    rfl
  have hws : ∀ c ∈ ['\n'], isWhitespace c = true := by
    intro c hc
    rw [List.mem_singleton.mp hc]
    rfl
  dsimp only
  rw [readLineOpt, hread]
  refine ⟨?_, rfl⟩
  rw [List.nil_append, finishLine, if_neg (by simp), henc, Utf8.fromUtf8_encode, decodeLine,
    fromLine_objectText hserde ['\n'] hws]

/-! ### One frame -/

/-- The bytes of a frame: no newline before the one at its end. -/
theorem sendBytes_eq (m : Message) :
    sendBytes m = some (Utf8.encode m.json ++ [10]) ∧ (10 : UInt8) ∉ Utf8.encode m.json := by
  constructor
  · rw [sendBytes, toLine_bytes, List.flatMap_append]
    rfl
  · rw [Message.json_eq]
    exact Json.newline_encode m.toMembers

/-- A frame is the line of an object. -/
theorem frame_eq {frame : List UInt8} (hf : sendBytes m = some frame) (rest : List UInt8) :
    frame ++ rest = Utf8.encode (Json.objectText m.toMembers) ++ 10 :: rest := by
  rw [(sendBytes_eq m).1, Message.json_eq] at hf
  obtain rfl := Option.some.inj hf
  rw [List.append_assoc, List.singleton_append]

theorem readFrame_frame (hserde : ReadsCompact fromStr) {frame : List UInt8}
    (hf : sendBytes m = some frame) :
    decodeLine fromStr (readFrame ⟨frame ++ rest, fails⟩).1 = some m ∧
      (readFrame ⟨frame ++ rest, fails⟩).2 = ⟨rest, fails⟩ := by
  have hread := readFrame_objectText (hserde.toMembers m) rest fails
  rw [Message.ofMembers_toMembers] at hread
  rwa [frame_eq hf]

/-! ### A sequence of lines -/

/-- A reader that reads each of some lines reads their sequence. -/
theorem receive_lines {read : ByteStream → Except ReadError (Option String) × ByteStream}
    (objects : List (List (String × Scalar)))
    (hread : ∀ members ∈ objects, ∀ rest,
      let s := read ⟨Utf8.encode (Json.objectText members) ++ 10 :: rest, fails⟩
      decodeLine fromStr s.1 = Message.ofMembers members ∧ s.2 = ⟨rest, fails⟩)
    (rest : List UInt8) :
    receive read fromStr objects.length ⟨Json.lines objects ++ rest, fails⟩ =
      (objects.map Message.ofMembers, ⟨rest, fails⟩) := by
  induction objects with
  | nil => rfl
  | cons members objects ih =>
      rw [List.forall_mem_cons] at hread
      have hcons : Json.lines (members :: objects) ++ rest =
          Utf8.encode (Json.objectText members) ++ 10 :: (Json.lines objects ++ rest) := by
        rw [Json.lines, List.flatMap_cons, List.append_assoc, List.append_assoc]
        rfl
      obtain ⟨hdecode, hrest⟩ := hread.1 (Json.lines objects ++ rest)
      rw [List.length_cons, receive, hcons, hdecode, hrest, ih hread.2]
      rfl

theorem receive_messages {read : ByteStream → Except ReadError (Option String) × ByteStream}
    (hread : ∀ (m : Message) rest,
      let s := read ⟨Utf8.encode (Json.objectText m.toMembers) ++ 10 :: rest, fails⟩
      decodeLine fromStr s.1 = Message.ofMembers m.toMembers ∧ s.2 = ⟨rest, fails⟩)
    (ms : List Message) (rest : List UInt8) :
    receive read fromStr ms.length ⟨Json.lines (ms.map Message.toMembers) ++ rest, fails⟩ =
      (ms.map some, ⟨rest, fails⟩) := by
  have hlines := receive_lines (ms.map Message.toMembers)
    (List.forall_mem_map.mpr fun m _ => hread m) rest
  have hback : (ms.map Message.toMembers).map Message.ofMembers = ms.map some := by
    rw [List.map_map]
    exact List.map_congr_left fun m _ => m.ofMembers_toMembers
  rwa [List.length_map, hback] at hlines

/-- The wire carries the lines of the messages' objects. -/
theorem wire_eq (ms : List Message) : wire ms = some (Json.lines (ms.map Message.toMembers)) := by
  induction ms with
  | nil => rfl
  | cons m ms ih =>
      obtain ⟨frames, hframes, hflat⟩ := Option.map_eq_some_iff.mp ih
      rw [wire, List.mapM_cons, (sendBytes_eq m).1, hframes, Message.json_eq, List.map_cons,
        Json.lines, List.flatMap_cons]
      rw [Json.lines] at hflat
      rw [← hflat]
      rfl

/-- A sequence of messages on the wire is read back frame by frame, and so is
    every suffix of it with newline-including reads; what follows stays unread. -/
theorem wire_round_trip {fromStr : String → Option Message} (hserde : ReadsCompact fromStr)
    (ms : List Message) (rest : List UInt8) (fails : Bool) :
    ∃ bytes, wire ms = some bytes ∧
      receive readFrame fromStr ms.length ⟨bytes ++ rest, fails⟩ = (ms.map some, ⟨rest, fails⟩) ∧
      ∀ suffix, suffix <:+ ms → ∃ tail, wire suffix = some tail ∧ tail <:+ bytes ∧
        receive readLineOpt fromStr suffix.length ⟨tail ++ rest, fails⟩ =
          (suffix.map some, ⟨rest, fails⟩) := by
  have hframe := fun (m : Message) rest => readFrame_objectText (hserde.toMembers m) rest fails
  have hline := fun (m : Message) rest => readLine_objectText (hserde.toMembers m) rest fails
  refine ⟨Json.lines (ms.map Message.toMembers), wire_eq ms, receive_messages hframe ms rest, ?_⟩
  rintro suffix ⟨pre, rfl⟩
  refine ⟨Json.lines (suffix.map Message.toMembers), wire_eq suffix, ?_,
    receive_messages hline suffix rest⟩
  rw [List.map_append, Json.lines, Json.lines, List.flatMap_append]
  exact List.suffix_append _ _

/-- Quotes, backslashes, newlines, a control character and a character of four
    bytes in the strings of a frame. -/
def escapes : List Message :=
  [.newConn ⟨"a\"b\\c\nd", some "\x01\t😀", some 65535⟩, .error ⟨"é\r"⟩]

theorem wire_round_trip_escapes :
    ∃ bytes, wire escapes = some bytes ∧
      receive readFrame Borehole.fromStr 2 ⟨bytes ++ [123, 10], false⟩ =
        (escapes.map some, ⟨[123, 10], false⟩) ∧
      ∀ suffix, suffix <:+ escapes → ∃ tail, wire suffix = some tail ∧ tail <:+ bytes ∧
        receive readLineOpt Borehole.fromStr suffix.length ⟨tail ++ [123, 10], false⟩ =
          (suffix.map some, ⟨[123, 10], false⟩) :=
  wire_round_trip fromStr_readsCompact escapes [123, 10] false

example : fromLine Borehole.fromStr "\x7b \"type\" : \"data_conn\", \"conn_id\":\"x\"\x7d\n" =
    some (.dataConn ⟨"x"⟩) := by decide

end RoundTrip

end Borehole
