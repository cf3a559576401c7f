/-
  Borehole.Dashboard.Session

  The dashboard's side of a login: how it sends its token (`auth` and
  `connectEvents` in src/web/src/lib/api.ts) and when it takes it to be expired
  (`isExpired` in src/web/src/lib/stores.ts).

  `isExpired` decodes the payload with `atob`, so `JSON.parse` sees the bytes of the
  text and not its characters.  That garbles an email beyond ASCII and leaves the
  expiry what it is.
-/

import Borehole.Server.Auth

namespace Borehole.Session

open Json (Scalar)

/-! ## Requests -/

/-- The characters that `encodeURIComponent` leaves alone. -/
def uriUnreserved (b : UInt8) : Bool :=
  Login.unreserved b || "!*'()".toList.any fun c => b.toNat = c.toNat

/-- `encodeURIComponent` -/
def encodeURIComponent (s : String) : String :=
  String.ofList ((asBytes s).flatMap fun b =>
    if uriUnreserved b then [Char.ofUInt8 b]
    else ['%', Login.upperHex (b.toNat / 16), Login.upperHex (b.toNat % 16)])

/-- What the guard sees of a request with the headers of `auth`. -/
def auth (jwt : String) (query : Option String) : Auth.Parts where
  authorization := some (asBytes ("Bearer " ++ jwt))
  query := query

/-- What the guard sees of the request of `connectEvents`. -/
def connectEvents (jwt : String) : Auth.Parts where
  authorization := none
  query := some ("token=" ++ encodeURIComponent jwt)

/-! ## Expiry -/

/-- A property of the object that `JSON.parse` makes of members: the last one of
    that name. -/
def property (name : String) (members : List (String × Scalar)) : Option Scalar :=
  ((members.filter fun m => m.1 = name).getLast?).map Prod.snd

/-- `Date.now()`: milliseconds. -/
def dateNow (now : DateTime) : Int := now / 1000000

/-- Whether a JWT is expired by its `exp` claim, given `JSON.parse` as far as it
    makes objects of scalars; what throws counts as expired. -/
def isExpired (parse : List Char → Option (List (String × Scalar))) (token : String)
    (now : DateTime) : Bool :=
  match (token.toList.splitOn '.')[1]? with
  | none => true
  | some payload =>
      match (Base64.atob (payload.map Base64.standard)).bind fun bytes =>
          parse (Base64.binary bytes) with
      | none => true
      | some data =>
          match property "exp" data with
          | some (.nat exp) => (exp : Int) * 1000 ≤ dateNow now
          | _ => false

/-- `JSON.parse` of an object with distinct names: a number below 2^53 is read as it
    is written. -/
def ReadsObjects (parse : List Char → Option (List (String × Scalar))) : Prop :=
  ∀ members : List (String × Scalar), (members.map Prod.fst).Nodup →
    (∀ x ∈ members, x.2.Below 9007199254740992) → parse (Json.objectText members) = some members

section Issued

variable {k : Auth.Crates} {secret email jwt expiresAt : String} {issued now : DateTime}
  {parse : List Char → Option (List (String × Scalar))}

theorem presents_auth (jwt : String) (query : Option String) :
    Auth.Presents jwt (auth jwt query) :=
  .header

theorem encodeURIComponent_token (h : ∀ c ∈ jwt.toList, Auth.isTokenChar c = true) :
    encodeURIComponent jwt = jwt := by
  have hkeep : ∀ c ∈ jwt.toList, uriUnreserved (UInt8.ofNat c.toNat) = true := by
    intro c hc
    have hall : ∀ n < 128, Auth.isTokenChar (Char.ofNat n) = true →
        uriUnreserved (UInt8.ofNat n) = true := by decide
    have hcode := Auth.isTokenChar_code (h c hc)
    refine hall c.toNat (by omega) ?_
    rw [Char.ofNat_toNat]
    exact h c hc
  have hbinary : Base64.binary (asBytes jwt) = jwt.toList :=
    Base64.mojibake_ascii fun c hc => Nat.lt_trans (Auth.isTokenChar_code (h c hc)).2.1 (by decide)
  -- every byte is one of a character that is kept
  have hbytes : ∀ b ∈ asBytes jwt, uriUnreserved b = true := by
    intro b hb
    have hmem : Char.ofUInt8 b ∈ jwt.toList := by
      rw [← hbinary]
      exact List.mem_map_of_mem hb
    have hself : UInt8.ofNat (Char.ofUInt8 b).toNat = b := UInt8.ofNat_toNat
    rw [← hself]
    exact hkeep _ hmem
  have hone : ∀ bs : List UInt8, (∀ b ∈ bs, uriUnreserved b = true) →
      (bs.flatMap fun b => if uriUnreserved b then [Char.ofUInt8 b]
        else ['%', Login.upperHex (b.toNat / 16), Login.upperHex (b.toNat % 16)]) =
        Base64.binary bs := by
    intro bs hbs
    induction bs with
    | nil => rfl
    | cons b bs ih =>
        obtain ⟨hb, hbs⟩ := List.forall_mem_cons.mp hbs
        rw [List.flatMap_cons, if_pos hb, ih hbs]
        rfl
  rw [encodeURIComponent, hone _ hbytes, hbinary, String.ofList_toList]

/-- An event stream sends its token as the only parameter. -/
theorem presents_connectEvents (h : ∀ c ∈ jwt.toList, Auth.isTokenChar c = true) :
    Auth.Presents jwt (connectEvents jwt) := by
  refine @Auth.Presents.query jwt none _ [] [] rfl ?_ (List.forall_mem_nil _) nofun
  rw [encodeURIComponent_token h, String.toList_append, List.append_nil]
  rfl

/-- The dashboard reads the expiry of an issued token, whatever the email. -/
theorem isExpired_issued (hk : k.Jwt) (hparse : ReadsObjects parse) (hi : Auth.ClockReads issued)
    (h : Auth.issueToken k secret email issued = some (jwt, expiresAt)) (now : DateTime) :
    isExpired parse jwt now =
      decide ((Auth.timestamp issued + 86400) * 1000 ≤ dateNow now) := by
  obtain ⟨token, hencode, he⟩ := Option.map_eq_some_iff.mp h
  cases he
  obtain ⟨header, signature, hurl, htoken⟩ := hk.compact _ _ _ hencode
  have hexp := Auth.exp_claimsFor email hi
  rw [Auth.Claims.members, show (Auth.claimsFor email issued).sub = email from rfl] at htoken
  generalize (Auth.claimsFor email issued).exp.toNat = exp at htoken hexp
  have hpayload : ∀ c ∈ Base64.encodeUrl (Utf8.encode (Json.objectText
      [("sub", .string email), ("exp", .nat exp)])), Base64.isUrlDigit c = true :=
    fun c hc => Base64.isUrlDigit_encodeUrl hc
  have hparts := Auth.splitOn_token (fun c hc => hurl c (List.mem_append_left _ hc)) hpayload
    fun c hc => hurl c (List.mem_append_right _ hc)
  -- `exp` is read as it was written, and `sub` byte by byte
  have hdata : parse (Base64.binary (Utf8.encode (Json.objectText
      [("sub", .string email), ("exp", .nat exp)]))) =
        some [("sub", .string (Json.garble email)), ("exp", .nat exp)] := by
    have hgarble := Json.mojibake_objectText [("sub", .string email), ("exp", .nat exp)]
    have hnames : Json.garble "sub" = "sub" ∧ Json.garble "exp" = "exp" := by decide
    rw [List.map_cons, List.map_cons, List.map_nil, hnames.1, hnames.2] at hgarble
    have hfits : exp < 9007199254740992 := by
      have hlt := hi.2
      rw [Auth.timestamp_expiry] at hlt
      omega
    refine (congrArg parse hgarble).trans (hparse _ ?_ ?_)
    · exact (show ["sub", "exp"].Nodup by decide)
    · intro x hx
      rcases List.mem_pair.mp hx with rfl | rfl
      · trivial
      · exact hfits
  rw [isExpired, htoken, hparts]
  simp only [List.getElem?_cons_succ, List.getElem?_cons_zero, Base64.atob_encodeUrl,
    Option.bind_some, hdata]
  have hread : property "exp" [("sub", .string (Json.garble email)), ("exp", .nat exp)] =
      some (.nat exp) := rfl
  rw [hread, ← hexp]

end Issued
end Borehole.Session
