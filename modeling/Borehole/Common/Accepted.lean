/-
  Borehole.Common.Accepted

  Which objects `from_line` takes for which message.

  The programs need not be of one version: an older CLI leaves members out that it
  does not know, a newer one sends more, and no order of the members is promised.
  What counts is each member of the message by itself: it is there once, with its
  value, or it is null and may be missing.
-/

import Borehole.Common.Frames
import Mathlib.Data.List.Forall2

namespace Borehole

open Json (Scalar)

/-- The object says what the message says, whatever else it says and in whatever
    order. -/
def Message.Says (m : Message) (members : List (String × Scalar)) : Prop :=
  ∀ x ∈ m.toMembers, members.filter (fun y => y.1 = x.1) = [x] ∨
    x.2 = .null ∧ members.filter (fun y => y.1 = x.1) = []

instance (m : Message) (members : List (String × Scalar)) : Decidable (m.Says members) := by
  unfold Message.Says
  infer_instance

section Fields

open Json

variable {α : Type} {read : Scalar → Option α} {name : String}
  {members : List (String × Scalar)} {a : α}

/-- What is printed is read, and nothing else is. -/
def Json.Prints (read : Scalar → Option α) (print : α → Scalar) : Prop :=
  ∀ v a, read v = some a ↔ v = print a

theorem Json.prints_string : Prints string? .string := by
  intro v s
  cases v <;> simp [string?]

theorem Json.prints_u16 : Prints u16? ofU16 := by
  intro v n
  cases v with
  | nat k =>
      have hn : n.toNat < 65536 := n.toNat_lt
      simp only [u16?, ofU16, Scalar.nat.injEq]
      constructor
      · intro h
        obtain ⟨hk, he⟩ := Option.ite_none_right_eq_some.mp h
        rw [← Option.some.inj he, UInt16.toNat_ofNat_of_lt' hk]
      · rintro rfl
        rw [if_pos hn, UInt16.ofNat_toNat]
  | _ => simp [u16?, ofU16]

theorem Json.prints_protocol : Prints Protocol.ofJson Protocol.toJson := by
  intro v p
  cases v with
  | string s =>
      cases p <;> simp only [Protocol.ofJson, Protocol.toJson, Scalar.string.injEq]
      · by_cases hs : s = "tcp" <;> simp [hs]
      · by_cases hs : s = "tcp"
        · simp [hs]
        · simp [hs]
  | _ => cases p <;> simp [Protocol.ofJson, Protocol.toJson]

/-- The members of one name are all of that name. -/
theorem Json.filter_name {m : String × Scalar} {ms : List (String × Scalar)}
    (h : members.filter (fun x => x.1 = name) = m :: ms) : m.1 = name := by
  have hm : m ∈ members.filter (fun x => x.1 = name) := by
    rw [h]
    exact List.mem_cons_self
  simpa using (List.mem_filter.mp hm).2

/-- A required field is there once. -/
theorem Json.required_iff {print : α → Scalar} (hp : Prints read print) :
    required read name members = some a ↔
      members.filter (fun x => x.1 = name) = [(name, print a)] := by
  rw [required, field]
  cases hf : members.filter (fun x => x.1 = name) with
  | nil => simp
  | cons m ms =>
      have hname := filter_name hf
      cases ms with
      | nil =>
          rw [Option.bind_some, Option.bind_some, hp, List.cons.injEq, Prod.ext_iff]
          simp [hname]
      | cons m' ms => simp

/-- An optional field is there once, or it is null and may be missing. -/
theorem Json.nullable_iff {print : α → Scalar} {o : Option α} (hp : Prints read print)
    (hnull : ∀ a, print a ≠ .null) : nullable read name members = some o ↔
      members.filter (fun x => x.1 = name) = [(name, ofOption print o)] ∨
        ofOption print o = .null ∧ members.filter (fun x => x.1 = name) = [] := by
  rw [nullable, field]
  cases hf : members.filter (fun x => x.1 = name) with
  | nil => cases o <;> simp [orNull, ofOption, hnull]
  | cons m ms =>
      have hname := filter_name hf
      cases ms with
      | nil =>
          obtain ⟨mname, v⟩ := m
          cases hname
          rw [Option.bind_some]
          cases o with
          | none => cases v <;> simp [orNull, ofOption]
          | some a =>
              have hread : orNull read (some v) = some (some a) ↔ v = print a := by
                rw [← hp]
                cases v with
                | null =>
                    have hno : read .null ≠ some a := fun h => hnull a ((hp _ _).mp h).symm
                    simp [orNull, hno]
                | _ => simp [orNull]
              rw [hread]
              simp [ofOption]
      | cons m' ms => simp

theorem Json.string_ne_null (s : String) : Scalar.string s ≠ .null := nofun

theorem Json.ofU16_ne_null (n : UInt16) : ofU16 n ≠ .null := nofun

theorem Protocol.toJson_ne_null (p : Protocol) : p.toJson ≠ .null := by
  cases p <;> nofun

end Fields

/-! ## The members one by one -/

section Members

open Json

variable {name : String} {members : List (String × Scalar)}

theorem Json.says_string {s : String} :
    (members.filter (fun x => x.1 = name) = [(name, Scalar.string s)] ∨
      Scalar.string s = .null ∧ members.filter (fun x => x.1 = name) = []) ↔
      required string? name members = some s := by
  rw [required_iff prints_string]
  exact or_iff_left fun h => string_ne_null s h.1

theorem Json.says_u16 {n : UInt16} :
    (members.filter (fun x => x.1 = name) = [(name, ofU16 n)] ∨
      ofU16 n = .null ∧ members.filter (fun x => x.1 = name) = []) ↔
      required u16? name members = some n := by
  rw [required_iff prints_u16]
  exact or_iff_left fun h => ofU16_ne_null n h.1

theorem Json.says_protocol {p : Protocol} :
    (members.filter (fun x => x.1 = name) = [(name, p.toJson)] ∨
      p.toJson = .null ∧ members.filter (fun x => x.1 = name) = []) ↔
      required Protocol.ofJson name members = some p := by
  rw [required_iff prints_protocol]
  exact or_iff_left fun h => p.toJson_ne_null h.1

theorem Json.says_optionString {o : Option String} :
    (members.filter (fun x => x.1 = name) = [(name, ofOption .string o)] ∨
      ofOption .string o = .null ∧ members.filter (fun x => x.1 = name) = []) ↔
      nullable string? name members = some o :=
  (nullable_iff prints_string string_ne_null).symm

theorem Json.says_optionU16 {o : Option UInt16} :
    (members.filter (fun x => x.1 = name) = [(name, ofOption ofU16 o)] ∨
      ofOption ofU16 o = .null ∧ members.filter (fun x => x.1 = name) = []) ↔
      nullable u16? name members = some o :=
  (nullable_iff prints_u16 ofU16_ne_null).symm

/-! ## The messages one by one

The tag has to be there once, and what the other members have to be is what the
fields of the message are read from. -/

theorem Register.accepted {m : Register} : Message.Says (.register m) members ↔
    required string? "type" members = some "register" ∧ Register.ofMembers members = some m := by
  simp only [Message.Says, Message.toMembers, List.forall_mem_cons, says_string, says_u16,
    says_protocol, says_optionString, says_optionU16]
  refine and_congr_right fun _ => ?_
  constructor
  · rintro ⟨htoken, hprotocol, hlocal, hremote, hnode, hhost, -⟩
    simp [Register.ofMembers, htoken, hprotocol, hlocal, hremote, hnode, hhost]
  · intro h
    simp only [Register.ofMembers, Option.bind_eq_bind, Option.bind_eq_some_iff, Option.pure_def,
      Option.some.injEq] at h
    obtain ⟨_, htoken, _, hprotocol, _, hlocal, _, hremote, _, hnode, _, hhost, rfl⟩ := h
    exact ⟨htoken, hprotocol, hlocal, hremote, hnode, hhost, List.forall_mem_nil _⟩

theorem Registered.accepted {m : Registered} : Message.Says (.registered m) members ↔
    required string? "type" members = some "registered" ∧
      Registered.ofMembers members = some m := by
  simp only [Message.Says, Message.toMembers, List.forall_mem_cons, says_string, says_u16,
    says_optionString, says_optionU16]
  refine and_congr_right fun _ => ?_
  constructor
  · rintro ⟨hremote, hhost, hport, -⟩
    simp [Registered.ofMembers, hremote, hhost, hport]
  · intro h
    simp only [Registered.ofMembers, Option.bind_eq_bind, Option.bind_eq_some_iff, Option.pure_def,
      Option.some.injEq] at h
    obtain ⟨_, hremote, _, hhost, _, hport, rfl⟩ := h
    exact ⟨hremote, hhost, hport, List.forall_mem_nil _⟩

theorem NewConn.accepted {m : NewConn} : Message.Says (.newConn m) members ↔
    required string? "type" members = some "new_conn" ∧ NewConn.ofMembers members = some m := by
  simp only [Message.Says, Message.toMembers, List.forall_mem_cons, says_string,
    says_optionString, says_optionU16]
  refine and_congr_right fun _ => ?_
  constructor
  · rintro ⟨hconn, hhost, hport, -⟩
    simp [NewConn.ofMembers, hconn, hhost, hport]
  · intro h
    simp only [NewConn.ofMembers, Option.bind_eq_bind, Option.bind_eq_some_iff, Option.pure_def,
      Option.some.injEq] at h
    obtain ⟨_, hconn, _, hhost, _, hport, rfl⟩ := h
    exact ⟨hconn, hhost, hport, List.forall_mem_nil _⟩

theorem DataConn.accepted {m : DataConn} : Message.Says (.dataConn m) members ↔
    required string? "type" members = some "data_conn" ∧ DataConn.ofMembers members = some m := by
  simp only [Message.Says, Message.toMembers, List.forall_mem_cons, says_string]
  refine and_congr_right fun _ => ?_
  constructor
  · rintro ⟨hconn, -⟩
    simp [DataConn.ofMembers, hconn]
  · intro h
    simp only [DataConn.ofMembers, Option.bind_eq_bind, Option.bind_eq_some_iff, Option.pure_def,
      Option.some.injEq] at h
    obtain ⟨_, hconn, rfl⟩ := h
    exact ⟨hconn, List.forall_mem_nil _⟩

theorem VisitorConn.accepted {m : VisitorConn} : Message.Says (.visitorConn m) members ↔
    required string? "type" members = some "visitor_conn" ∧
      VisitorConn.ofMembers members = some m := by
  simp only [Message.Says, Message.toMembers, List.forall_mem_cons, says_string]
  refine and_congr_right fun _ => ?_
  constructor
  · rintro ⟨htunnel, hconn, -⟩
    simp [VisitorConn.ofMembers, htunnel, hconn]
  · intro h
    simp only [VisitorConn.ofMembers, Option.bind_eq_bind, Option.bind_eq_some_iff,
      Option.pure_def, Option.some.injEq] at h
    obtain ⟨_, htunnel, _, hconn, rfl⟩ := h
    exact ⟨htunnel, hconn, List.forall_mem_nil _⟩

theorem RegisterNode.accepted {m : RegisterNode} : Message.Says (.registerNode m) members ↔
    required string? "type" members = some "register_node" ∧
      RegisterNode.ofMembers members = some m := by
  simp only [Message.Says, Message.toMembers, List.forall_mem_cons, says_string, says_u16]
  refine and_congr_right fun _ => ?_
  constructor
  · rintro ⟨htoken, hname, hport, -⟩
    simp [RegisterNode.ofMembers, htoken, hname, hport]
  · intro h
    simp only [RegisterNode.ofMembers, Option.bind_eq_bind, Option.bind_eq_some_iff,
      Option.pure_def, Option.some.injEq] at h
    obtain ⟨_, htoken, _, hname, _, hport, rfl⟩ := h
    exact ⟨htoken, hname, hport, List.forall_mem_nil _⟩

theorem NodeRegistered.accepted {m : NodeRegistered} : Message.Says (.nodeRegistered m) members ↔
    required string? "type" members = some "node_registered" ∧
      NodeRegistered.ofMembers members = some m := by
  simp only [Message.Says, Message.toMembers, List.forall_mem_cons, says_string]
  refine and_congr_right fun _ => ?_
  constructor
  · rintro ⟨hnode, -⟩
    simp [NodeRegistered.ofMembers, hnode]
  · intro h
    simp only [NodeRegistered.ofMembers, Option.bind_eq_bind, Option.bind_eq_some_iff,
      Option.pure_def, Option.some.injEq] at h
    obtain ⟨_, hnode, rfl⟩ := h
    exact ⟨hnode, List.forall_mem_nil _⟩

theorem OpenTunnel.accepted {m : OpenTunnel} : Message.Says (.openTunnel m) members ↔
    required string? "type" members = some "open_tunnel" ∧
      OpenTunnel.ofMembers members = some m := by
  simp only [Message.Says, Message.toMembers, List.forall_mem_cons, says_string, says_u16]
  refine and_congr_right fun _ => ?_
  constructor
  · rintro ⟨htunnel, hport, -⟩
    simp [OpenTunnel.ofMembers, htunnel, hport]
  · intro h
    simp only [OpenTunnel.ofMembers, Option.bind_eq_bind, Option.bind_eq_some_iff,
      Option.pure_def, Option.some.injEq] at h
    obtain ⟨_, htunnel, _, hport, rfl⟩ := h
    exact ⟨htunnel, hport, List.forall_mem_nil _⟩

theorem CloseTunnel.accepted {m : CloseTunnel} : Message.Says (.closeTunnel m) members ↔
    required string? "type" members = some "close_tunnel" ∧
      CloseTunnel.ofMembers members = some m := by
  simp only [Message.Says, Message.toMembers, List.forall_mem_cons, says_string]
  refine and_congr_right fun _ => ?_
  constructor
  · rintro ⟨htunnel, -⟩
    simp [CloseTunnel.ofMembers, htunnel]
  · intro h
    simp only [CloseTunnel.ofMembers, Option.bind_eq_bind, Option.bind_eq_some_iff,
      Option.pure_def, Option.some.injEq] at h
    obtain ⟨_, htunnel, rfl⟩ := h
    exact ⟨htunnel, List.forall_mem_nil _⟩

theorem ErrorMsg.accepted {m : ErrorMsg} : Message.Says (.error m) members ↔
    required string? "type" members = some "error" ∧ ErrorMsg.ofMembers members = some m := by
  simp only [Message.Says, Message.toMembers, List.forall_mem_cons, says_string]
  refine and_congr_right fun _ => ?_
  constructor
  · rintro ⟨hreason, -⟩
    simp [ErrorMsg.ofMembers, hreason]
  · intro h
    simp only [ErrorMsg.ofMembers, Option.bind_eq_bind, Option.bind_eq_some_iff,
      Option.pure_def, Option.some.injEq] at h
    obtain ⟨_, hreason, rfl⟩ := h
    exact ⟨hreason, List.forall_mem_nil _⟩

theorem Message.says_of_ofMembers {m : Message} (h : Message.ofMembers members = some m) :
    m.Says members := by
  obtain ⟨tag, htag, h⟩ := Option.bind_eq_some_iff.mp h
  split at h
  all_goals
    try obtain ⟨r, hr, rfl⟩ := Option.map_eq_some_iff.mp h
  · exact Register.accepted.mpr ⟨htag, hr⟩
  · exact Registered.accepted.mpr ⟨htag, hr⟩
  · exact NewConn.accepted.mpr ⟨htag, hr⟩
  · exact DataConn.accepted.mpr ⟨htag, hr⟩
  · exact VisitorConn.accepted.mpr ⟨htag, hr⟩
  · exact RegisterNode.accepted.mpr ⟨htag, hr⟩
  · exact NodeRegistered.accepted.mpr ⟨htag, hr⟩
  · exact OpenTunnel.accepted.mpr ⟨htag, hr⟩
  · exact CloseTunnel.accepted.mpr ⟨htag, hr⟩
  · exact ErrorMsg.accepted.mpr ⟨htag, hr⟩
  · cases h

theorem Message.ofMembers_of_says {m : Message} (h : m.Says members) :
    Message.ofMembers members = some m := by
  cases m with
  | register m =>
      obtain ⟨htag, hr⟩ := Register.accepted.mp h
      simp [ofMembers, htag, hr]
  | registered m =>
      obtain ⟨htag, hr⟩ := Registered.accepted.mp h
      simp [ofMembers, htag, hr]
  | newConn m =>
      obtain ⟨htag, hr⟩ := NewConn.accepted.mp h
      simp [ofMembers, htag, hr]
  | dataConn m =>
      obtain ⟨htag, hr⟩ := DataConn.accepted.mp h
      simp [ofMembers, htag, hr]
  | visitorConn m =>
      obtain ⟨htag, hr⟩ := VisitorConn.accepted.mp h
      simp [ofMembers, htag, hr]
  | registerNode m =>
      obtain ⟨htag, hr⟩ := RegisterNode.accepted.mp h
      simp [ofMembers, htag, hr]
  | nodeRegistered m =>
      obtain ⟨htag, hr⟩ := NodeRegistered.accepted.mp h
      simp [ofMembers, htag, hr]
  | openTunnel m =>
      obtain ⟨htag, hr⟩ := OpenTunnel.accepted.mp h
      simp [ofMembers, htag, hr]
  | closeTunnel m =>
      obtain ⟨htag, hr⟩ := CloseTunnel.accepted.mp h
      simp [ofMembers, htag, hr]
  | error m =>
      obtain ⟨htag, hr⟩ := ErrorMsg.accepted.mp h
      simp [ofMembers, htag, hr]

/-- An object is taken for the message that it says, and for no other. -/
theorem Message.ofMembers_iff {m : Message} :
    Message.ofMembers members = some m ↔ m.Says members :=
  ⟨Message.says_of_ofMembers, Message.ofMembers_of_says⟩

end Members

/-! ## Objects on lines -/

section Lines

open Json

variable {fromStr : String → Option Message}
  {read : ByteStream → Except ReadError (Option String) × ByteStream}

/-- Of objects on lines of their own, either of the readers takes each for the message
    that it says, and for none where it says none, and the rest stays unread. -/
theorem lines_accepted (hserde : ReadsCompact fromStr)
    (objects : List (List (String × Scalar)))
    (hfits : ∀ o ∈ objects, ∀ x ∈ o, x.2.Below UInt64.size)
    (rest : List UInt8) (fails : Bool) (hread : read = readFrame ∨ read = readLineOpt) :
    ∃ got, receive read fromStr objects.length ⟨Json.lines objects ++ rest, fails⟩ =
        (got, ⟨rest, fails⟩) ∧
      List.Forall₂ (fun members taken => ∀ m : Message, taken = some m ↔ m.Says members)
        objects got := by
  refine ⟨objects.map Message.ofMembers, ?_, ?_⟩
  · have hobject := fun o ho => hserde o (hfits o ho)
    rcases hread with rfl | rfl
    · exact receive_lines objects
        (fun o ho rest => readFrame_objectText (hobject o ho) rest fails) rest
    · exact receive_lines objects
        (fun o ho rest => readLine_objectText (hobject o ho) rest fails) rest
  · rw [List.forall₂_map_right_iff, List.forall₂_same]
    intro members _ m
    exact Message.ofMembers_iff

/-- The registration of a CLI that knows neither `node` nor `hostname` and has a
    member of its own, then a message of a kind there is not, then one whose
    member is there twice. -/
def otherVersions : List (List (String × Scalar)) :=
  [[("client", .string "0.1"), ("remote_port", .null), ("local_port", .nat 3000),
     ("protocol", .string "http"), ("token", .string "t"), ("type", .string "register")],
   [("type", .string "ping")],
   [("type", .string "data_conn"), ("conn_id", .string "x"), ("conn_id", .string "y")]]

/-- The first of them says a registration with no node and no hostname. -/
theorem lines_accepted_otherVersions :
    (∃ got, receive readFrame Borehole.fromStr 3 ⟨Json.lines otherVersions ++ [123], true⟩ =
        (got, ⟨[123], true⟩) ∧
      List.Forall₂ (fun members taken => ∀ m : Message, taken = some m ↔ m.Says members)
        otherVersions got) ∧
      otherVersions.map Message.ofMembers =
        [some (.register ⟨"t", .http, 3000, none, none, none⟩), none, none] :=
  ⟨lines_accepted fromStr_readsCompact otherVersions (by decide) [123] true (.inl rfl), by decide⟩

end Lines

end Borehole
