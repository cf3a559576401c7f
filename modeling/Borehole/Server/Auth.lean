/-
  Borehole.Server.Auth

  Logging in and the guard of the API (crates/server/src/api/auth.rs).

  A token is a JWT that names the user's email and expires 24 hours after it was
  issued.  The guard takes it from the `Authorization` header or, as `EventSource`
  cannot set headers, from the query, and gives the handler the claims in it.
  Tokens are never stored: whether one is good depends on the secret and the clock.
-/

import Borehole.Common.Base64
import Borehole.Server.History
import Borehole.Server.LoginPage

namespace Borehole

open Json (Scalar)

/-- A dashboard user. -/
structure UserConfig where
  email : String
  /-- SHA-256 hex digest of the password. -/
  passwordHash : String
  deriving DecidableEq, Repr

namespace Auth

/-- Lifetime of an issued token. -/
def tokenTtlHours : Int := 24

/-- `Duration::hours` -/
def hours (n : Int) : DateTime := n * 3600000000000

/-- `DateTime::timestamp`: whole seconds since the epoch, rounded down. -/
def timestamp (t : DateTime) : Int := t / 1000000000

/-- JWT payload. -/
structure Claims where
  sub : String
  exp : UInt64
  deriving DecidableEq, Repr

/-- The members of the payload. -/
def Claims.members (claims : Claims) : List (String × Scalar) :=
  [("sub", .string claims.sub), ("exp", .nat claims.exp.toNat)]

/-- What the handlers use of other crates. -/
structure Crates where
  /-- `Sha256::digest` -/
  sha256 : List UInt8 → List UInt8
  /-- `jsonwebtoken::encode` with `Header::default()`. -/
  encode : (secret : String) → Claims → Option String
  /-- `jsonwebtoken::decode` with `Validation::default()`, at an instant. -/
  decode : (secret : String) → DateTime → (token : String) → Option Claims
  /-- `DateTime::to_rfc3339` -/
  toRfc3339 : DateTime → String

/-- A character of a token: of a part in base64, or between two parts. -/
def isTokenChar (c : Char) : Bool :=
  Base64.isUrlDigit c || c = '.'

/-- What jsonwebtoken documents: a token is a header, the payload and a signature,
    and with the same secret it decodes to its claims until the leeway of 60 seconds
    after its expiry is over. -/
structure Crates.Jwt (k : Crates) : Prop where
  compact : ∀ secret claims token, k.encode secret claims = some token →
    ∃ header signature : List Char, (∀ c ∈ header ++ signature, Base64.isUrlDigit c = true) ∧
      token.toList = header ++ '.' ::
        (Base64.encodeUrl (Utf8.encode (Json.objectText claims.members)) ++ '.' :: signature)
  verify : ∀ secret claims token now, k.encode secret claims = some token →
    k.decode secret now token =
      if timestamp now ≤ (claims.exp.toNat : Int) + 60 then some claims else none

/-! ## Logging in -/

variable (k : Crates) (users : List UserConfig) (secret : String)

/-- Lowercase SHA-256 hex digest of `input`. -/
def sha256Hex (input : String) : String :=
  String.ofList ((k.sha256 (asBytes input)).flatMap fun byte =>
    [Json.hexDigit (byte.toNat / 16), Json.hexDigit (byte.toNat % 16)])

/-- `str::eq_ignore_ascii_case` -/
def eqIgnoreAsciiCase (a b : String) : Bool :=
  a.toList.map Char.toLower = b.toList.map Char.toLower

/-- The email must match and the SHA-256 of the password must equal the stored hex
    digest (case-insensitive). -/
def credentialsValid (email password : String) : Bool :=
  let hash := sha256Hex k password
  users.any fun user => user.email = email && eqIgnoreAsciiCase user.passwordHash hash

/-- The claims of a token for `email`. -/
def claimsFor (email : String) (now : DateTime) : Claims where
  sub := email
  exp := UInt64.ofInt (timestamp (now + hours tokenTtlHours))

/-- Signs a fresh token for `email`, returning `(jwt, expires_at_rfc3339)`. -/
def issueToken (email : String) (now : DateTime) : Option (String × String) :=
  (k.encode secret (claimsFor email now)).map fun token =>
    (token, k.toRfc3339 (now + hours tokenTtlHours))

/-- The answer to `POST /api/auth/login`. -/
inductive LoginResponse where
  /-- 200 -/
  | ok (jwt expiresAt : String)
  /-- 401 -/
  | unauthorized (error : String)
  /-- 500 -/
  | internalServerError (error : String)
  deriving DecidableEq, Repr

/-- Validates credentials and mints a JWT. -/
def login (email password : String) (now : DateTime) : LoginResponse :=
  if credentialsValid k users email password then
    match issueToken k secret email now with
    | some (jwt, expiresAt) => .ok jwt expiresAt
    | none => .internalServerError "failed to issue token"
  else .unauthorized "invalid credentials"

/-! ## The guard -/

/-- The parts of a request that the guard reads. -/
structure Parts where
  /-- The value of the `Authorization` header. -/
  authorization : Option (List UInt8)
  /-- `uri.query()` -/
  query : Option String
  deriving DecidableEq, Repr

/-- `HeaderValue::to_str`: visible ASCII and tabs. -/
def toStr (value : List UInt8) : Option (List Char) :=
  if value.all fun b => (32 ≤ b.toNat && b.toNat < 127) || b.toNat = 9 then
    some (Base64.binary value)
  else none

/-- `str::strip_prefix` -/
def stripStart (start value : List Char) : Option (List Char) :=
  if start.isPrefixOf value then some (value.drop start.length) else none

/-- The JWT from an `Authorization: Bearer <jwt>` header, if present. -/
def bearerToken (parts : Parts) : Option String :=
  ((parts.authorization.bind toStr).bind (stripStart "Bearer ".toList)).map String.ofList

/-- The value of a query parameter that is called `token`. -/
def tokenPair (pair : List Char) : Option String :=
  match Login.splitOnce '=' pair with
  | some (key, value) => if key = "token".toList then some (String.ofList value) else none
  | none => none

/-- The JWT from a `?token=<jwt>` query parameter, if present. -/
def queryToken (parts : Parts) : Option String :=
  parts.query.bind fun query => (query.toList.splitOn '&').findSome? tokenPair

/-- Verifies a JWT against the server secret, returning the decoded claims. -/
def verifyToken (now : DateTime) (token : String) : Option Claims :=
  k.decode secret now token

/-- The extractor of protected endpoints: the claims, or the error of a 401. -/
def authClaims (now : DateTime) (parts : Parts) : Except String Claims :=
  match (bearerToken parts).or (queryToken parts) with
  | none => .error "missing bearer token or token query param"
  | some token =>
      match verifyToken k secret now token with
      | some claims => .ok claims
      | none => .error "invalid or expired token"

/-! ## Presenting a token -/

/-- The ways of sending a token so that the guard takes it. -/
inductive Presents (token : String) : Parts → Prop where
  | header {query} : Presents token ⟨some (asBytes ("Bearer " ++ token)), query⟩
  /-- Without a bearer token, in the first parameter of the query that is called
      `token`. -/
  | query {authorization q} {before : List (List Char)} {after : List Char} :
      bearerToken ⟨authorization, none⟩ = none →
      q.toList = (before.map (· ++ ['&'])).flatten ++
        ("token".toList ++ '=' :: token.toList ++ after) →
      (∀ pair ∈ before, '&' ∉ pair ∧ tokenPair pair = none) →
      (∀ c ∈ after.head?, c = '&') →
      Presents token ⟨authorization, some q⟩

section Presents

variable {k secret} {token : String} {parts : Parts} {claims : Claims} {now : DateTime}

theorem isTokenChar_code {c : Char} (h : isTokenChar c = true) :
    44 < c.toNat ∧ c.toNat < 127 ∧ c ≠ '&' ∧ c ≠ '=' := by
  have hcode : 44 < c.toNat ∧ c.toNat < 127 ∧ c.toNat ≠ 61 := by
    simp only [isTokenChar, Base64.isUrlDigit, Bool.or_eq_true, decide_eq_true_eq] at h
    rcases h with ((h | rfl) | rfl) | rfl
    · have hranges :
          (((c.val ≥ 'A'.val ∧ c.val ≤ 'Z'.val) || (c.val ≥ 'a'.val && c.val ≤ 'z'.val)) ||
          (c.val ≥ '0'.val && c.val ≤ '9'.val)) = true := h
      simp only [Bool.or_eq_true, Bool.and_eq_true, decide_eq_true_eq, UInt32.le_iff_toNat_le,
        ge_iff_le] at hranges
      have hv : c.toNat = c.val.toNat := rfl
      have hA : 'A'.val.toNat = 65 ∧ 'Z'.val.toNat = 90 := ⟨rfl, rfl⟩
      have ha : 'a'.val.toNat = 97 ∧ 'z'.val.toNat = 122 := ⟨rfl, rfl⟩
      have h0 : '0'.val.toNat = 48 ∧ '9'.val.toNat = 57 := ⟨rfl, rfl⟩
      omega
    all_goals decide
  refine ⟨hcode.1, hcode.2.1, ?_, ?_⟩
  · rintro rfl
    exact absurd hcode.1 (by decide)
  · rintro rfl
    exact hcode.2.2 rfl

/-- A token has no character that a header or a query could not carry. -/
theorem Crates.Jwt.chars (hk : k.Jwt) (h : k.encode secret claims = some token) :
    ∀ c ∈ token.toList, isTokenChar c = true := by
  obtain ⟨header, signature, hurl, he⟩ := hk.compact secret claims token h
  have hof : ∀ c, Base64.isUrlDigit c = true → isTokenChar c = true := by
    intro c hc
    rw [isTokenChar, hc]
    rfl
  have hdot : isTokenChar '.' = true := by decide
  intro c hc
  rw [he] at hc
  simp only [List.mem_append, List.mem_cons] at hc
  rcases hc with hc | rfl | hc | rfl | hc
  · exact hof c (hurl c (List.mem_append_left _ hc))
  · exact hdot
  · exact hof c (Base64.isUrlDigit_encodeUrl hc)
  · exact hdot
  · exact hof c (hurl c (List.mem_append_right _ hc))

theorem toStr_asBytes {s : String} (h : ∀ c ∈ s.toList, 31 < c.toNat ∧ c.toNat < 127) :
    toStr (asBytes s) = some s.toList := by
  have hascii : Base64.binary (asBytes s) = s.toList :=
    Base64.mojibake_ascii fun c hc => Nat.lt_trans (h c hc).2 (by decide)
  have hvisible : (asBytes s).all (fun b => (32 ≤ b.toNat && b.toNat < 127) || b.toNat = 9) =
      true := by
    rw [List.all_eq_true]
    intro b hb
    have hmem : Char.ofUInt8 b ∈ s.toList := by
      rw [← hascii]
      exact List.mem_map_of_mem hb
    have hcode : 31 < b.toNat ∧ b.toNat < 127 := h _ hmem
    simp only [Bool.or_eq_true, Bool.and_eq_true, decide_eq_true_eq]
    omega
  rw [toStr, if_pos hvisible, hascii]

theorem bearerToken_header {query : Option String} (h : ∀ c ∈ token.toList, isTokenChar c = true) :
    bearerToken ⟨some (asBytes ("Bearer " ++ token)), query⟩ = some token := by
  have hall : "Bearer ".toList.all (fun c => 31 < c.toNat ∧ c.toNat < 127) = true := rfl
  have hstart : ∀ c ∈ "Bearer ".toList, 31 < c.toNat ∧ c.toNat < 127 :=
    fun c hc => of_decide_eq_true (List.all_eq_true.mp hall c hc)
  have hstr : toStr (asBytes ("Bearer " ++ token)) = some ("Bearer ".toList ++ token.toList) := by
    rw [toStr_asBytes, String.toList_append]
    rw [String.toList_append, List.forall_mem_append]
    refine ⟨hstart, fun c hc => ?_⟩
    have hcode := isTokenChar_code (h c hc)
    omega
  have hstrip : stripStart "Bearer ".toList ("Bearer ".toList ++ token.toList) =
      some token.toList := by
    rw [stripStart, if_pos (List.isPrefixOf_iff_prefix.mpr (List.prefix_append _ _)),
      List.drop_left]
  rw [bearerToken, Option.bind_some, hstr, Option.bind_some, hstrip, Option.map_some,
    String.ofList_toList]

theorem splitOn_pairs {before : List (List Char)} {z : List Char}
    (hb : ∀ pair ∈ before, '&' ∉ pair) :
    ((before.map (· ++ ['&'])).flatten ++ z).splitOn '&' = before ++ z.splitOn '&' := by
  induction before with
  | nil => rfl
  | cons pair before ih =>
      obtain ⟨hp, hb⟩ := List.forall_mem_cons.mp hb
      have hpair : ∀ c ∈ pair, (c == '&') = false := by
        intro c hc
        rw [beq_eq_false_iff_ne]
        rintro rfl
        exact hp hc
      rw [List.map_cons, List.flatten_cons, List.append_assoc, List.append_assoc,
        List.singleton_append, List.splitOn, List.splitOnP_append_cons _ _ (by decide),
        List.splitOnP_eq_singleton hpair]
      exact congrArg (pair :: ·) (ih hb)

/-- The first parameter called `token`, whatever stands before and behind it. -/
theorem queryToken_query {authorization : Option (List UInt8)} {q : String}
    {before : List (List Char)} {after : List Char}
    (hq : q.toList = (before.map (· ++ ['&'])).flatten ++
      ("token".toList ++ '=' :: token.toList ++ after))
    (hb : ∀ pair ∈ before, '&' ∉ pair ∧ tokenPair pair = none)
    (ha : ∀ c ∈ after.head?, c = '&') (h : ∀ c ∈ token.toList, isTokenChar c = true) :
    queryToken ⟨authorization, some q⟩ = some token := by
  have hpair : ∀ c ∈ "token".toList ++ '=' :: token.toList, (c == '&') = false := by
    have hall : "token".toList.all (fun c => (c == '&') = false) = true := rfl
    have hname : ∀ c ∈ "token".toList, (c == '&') = false :=
      fun c hc => of_decide_eq_true (List.all_eq_true.mp hall c hc)
    intro c hc
    rw [List.mem_append, List.mem_cons] at hc
    rcases hc with hc | rfl | hc
    · exact hname c hc
    · decide
    · exact beq_eq_false_iff_ne.mpr (isTokenChar_code (h c hc)).2.2.1
  -- the parameter is a piece of its own
  obtain ⟨rest, hsplit⟩ : ∃ rest, ("token".toList ++ '=' :: token.toList ++ after).splitOn '&' =
      ("token".toList ++ '=' :: token.toList) :: rest := by
    cases after with
    | nil =>
        refine ⟨[], ?_⟩
        rw [List.append_nil]
        exact List.splitOnP_eq_singleton hpair
    | cons c after =>
        have hc : c = '&' := ha c rfl
        subst hc
        refine ⟨after.splitOn '&', ?_⟩
        rw [List.splitOn, List.splitOnP_append_cons _ _ (by decide),
          List.splitOnP_eq_singleton hpair]
        rfl
  have hvalue : tokenPair ("token".toList ++ '=' :: token.toList) = some token := by
    have hsplit : Login.splitOnce '=' ("token".toList ++ '=' :: token.toList) =
        some ("token".toList, token.toList) := Login.splitOnce_append (by decide)
    simp only [tokenPair, hsplit, if_true, String.ofList_toList]
  have hnone : before.findSome? tokenPair = none := by
    rw [List.findSome?_eq_none_iff]
    exact fun pair hp => (hb pair hp).2
  rw [queryToken, Option.bind_some, hq, splitOn_pairs fun pair hp => (hb pair hp).1, hsplit,
    List.findSome?_append, hnone, Option.none_or, List.findSome?_cons, hvalue]

/-- The guard takes a token that is presented. -/
theorem authClaims_presents (hp : Presents token parts)
    (h : ∀ c ∈ token.toList, isTokenChar c = true) (now : DateTime) :
    authClaims k secret now parts = match verifyToken k secret now token with
      | some claims => .ok claims
      | none => .error "invalid or expired token" := by
  have hfound : (bearerToken parts).or (queryToken parts) = some token := by
    cases hp with
    | header => rw [bearerToken_header h, Option.some_or]
    | @query authorization q before after hno hq hb ha =>
        have hnone : bearerToken ⟨authorization, some q⟩ = none := hno
        rw [hnone, Option.none_or]
        exact queryToken_query hq hb ha h
  rw [authClaims, hfound]

/-! ## Lifetime -/

/-- A reading of the clock from 1970 on, with the lifetime of a token before the end
    of the year 9999. -/
def ClockReads (now : DateTime) : Prop :=
  0 ≤ now ∧ timestamp (now + hours tokenTtlHours) < 253402300800

theorem timestamp_expiry (now : DateTime) :
    timestamp (now + hours tokenTtlHours) = timestamp now + 86400 := by
  simp only [timestamp, hours, tokenTtlHours]
  omega

theorem exp_claimsFor (email : String) (h : ClockReads now) :
    ((claimsFor email now).exp.toNat : Int) = timestamp now + 86400 := by
  obtain ⟨hpos, hlt⟩ := h
  rw [← timestamp_expiry]
  have hnonneg : 0 ≤ timestamp (now + hours tokenTtlHours) :=
    Int.ediv_nonneg (Int.add_nonneg hpos (by decide)) (by decide)
  show ((UInt64.ofInt (timestamp (now + hours tokenTtlHours))).toNat : Int) = _
  generalize timestamp (now + hours tokenTtlHours) = t at hlt hnonneg
  obtain ⟨n, rfl⟩ := Int.eq_ofNat_of_zero_le hnonneg
  have hn : (UInt64.ofInt n).toNat = ((n : Int) % 2 ^ 64).toNat % 2 ^ 64 := UInt64.toNat_ofNat'
  omega

/-- What the guard makes of an issued token: its claims until the lifetime and the
    leeway are over. -/
theorem authClaims_issued (hk : k.Jwt) {email jwt expiresAt : String} {issued : DateTime}
    (hi : ClockReads issued) (h : issueToken k secret email issued = some (jwt, expiresAt))
    (hp : Presents jwt parts) : authClaims k secret now parts =
      if timestamp now ≤ timestamp issued + 86400 + 60 then .ok (claimsFor email issued)
      else .error "invalid or expired token" := by
  obtain ⟨token, hencode, he⟩ := Option.map_eq_some_iff.mp h
  cases he
  rw [authClaims_presents hp (hk.chars hencode), verifyToken, hk.verify _ _ _ now hencode,
    exp_claimsFor email hi]
  by_cases hle : timestamp now ≤ timestamp issued + 86400 + 60
  · rw [if_pos hle, if_pos hle]
  · rw [if_neg hle, if_neg hle]

end Presents

/-! ## A library -/

section Sample

/-- The parts of a token are found at its dots. -/
theorem splitOn_token {header payload signature : List Char}
    (hh : ∀ c ∈ header, Base64.isUrlDigit c = true)
    (hp : ∀ c ∈ payload, Base64.isUrlDigit c = true)
    (hs : ∀ c ∈ signature, Base64.isUrlDigit c = true) :
    (header ++ '.' :: (payload ++ '.' :: signature)).splitOn '.' =
      [header, payload, signature] := by
  have hdot : ∀ cs : List Char, (∀ c ∈ cs, Base64.isUrlDigit c = true) →
      ∀ c ∈ cs, (c == '.') = false := by
    intro cs hcs c hc
    rw [beq_eq_false_iff_ne]
    rintro rfl
    exact absurd (hcs '.' hc) (by decide)
  rw [List.splitOn, List.splitOnP_append_cons _ _ (by decide),
    List.splitOnP_eq_singleton (hdot _ hh), List.splitOnP_append_cons _ _ (by decide),
    List.splitOnP_eq_singleton (hdot _ hp), List.splitOnP_eq_singleton (hdot _ hs)]
  rfl

/-- The payload of a token. -/
def payload (claims : Claims) : List Char :=
  Base64.encodeUrl (Utf8.encode (Json.objectText claims.members))

/-- The claims in the members of an object. -/
def Claims.ofMembers (members : List (String × Scalar)) : Option Claims := do
  return {
    sub := ← Json.required Json.string? "sub" members
    exp := ← Json.required (fun | .nat n => some (UInt64.ofNat n) | _ => none) "exp" members }

/-- The claims in the middle part of a token. -/
def readPayload (payload : List Char) : Option Claims :=
  (((Base64.atob (payload.map Base64.standard)).bind Utf8.fromUtf8).bind fun text =>
    Json.readObject text.toList).bind Claims.ofMembers

theorem readPayload_payload (claims : Claims) : readPayload (payload claims) = some claims := by
  rw [readPayload, payload, Base64.atob_encodeUrl, Option.bind_some, Utf8.fromUtf8_encode,
    Option.bind_some, String.toList_ofList, Json.readObject_objectText, Option.bind_some]
  simp [Claims.ofMembers, Claims.members, Json.required, Json.field]

/-- `Header::default()` -/
def header : List Char :=
  "eyJ0eXAiOiJKV1QiLCJhbGciOiJIUzI1NiJ9".toList

/-- HMAC-SHA256 of the one token that examples are about. -/
def signature (secret : String) (claims : Claims) : List Char :=
  if secret = "secret" ∧ claims = ⟨"ana@example.com", 86400⟩ then
    "OBk6ZTC7W8S1IEUXu8bc-4WNtZG-W7agxzzHkXfvZec".toList
  else []

/-- Libraries that do what the real ones do with the password, the token and the date
    of the examples. -/
def sample : Crates where
  sha256 := fun bytes =>
    if bytes = asBytes "hunter2" then
      [245, 47, 189, 50, 178, 179, 184, 111, 248, 142, 246, 196, 144, 98, 130, 133, 244, 130, 175,
       21, 221, 203, 41, 84, 31, 148, 188, 245, 38, 163, 246, 199]
    else []
  encode := fun secret claims =>
    some (String.ofList (header ++ '.' :: (payload claims ++ '.' :: signature secret claims)))
  decode := fun secret now token =>
    match token.toList.splitOn '.' with
    | [_, payload, signed] => (readPayload payload).filter fun claims =>
        signed = signature secret claims ∧ timestamp now ≤ (claims.exp.toNat : Int) + 60
    | _ => none
  toRfc3339 := fun t =>
    if t = hours 24 then "1970-01-02T00:00:00+00:00"
    else String.ofList (List.replicate t.toNat '0')

theorem isUrlDigit_signature (secret : String) (claims : Claims) :
    ∀ c ∈ signature secret claims, Base64.isUrlDigit c = true := by
  rw [signature]
  split
  · exact List.all_eq_true.mp rfl
  · exact List.forall_mem_nil _

theorem isUrlDigit_header : ∀ c ∈ header, Base64.isUrlDigit c = true :=
  List.all_eq_true.mp rfl

theorem sample_encode {secret token : String} {claims : Claims}
    (h : sample.encode secret claims = some token) :
    token.toList = header ++ '.' :: (payload claims ++ '.' :: signature secret claims) := by
  rw [← Option.some.inj h, String.toList_ofList]

theorem sample_jwt : sample.Jwt where
  compact := by
    intro secret claims token h
    exact ⟨header, signature secret claims, List.forall_mem_append.mpr
      ⟨isUrlDigit_header, isUrlDigit_signature secret claims⟩, sample_encode h⟩
  verify := by
    intro secret claims token now h
    have hpayload : ∀ c ∈ payload claims, Base64.isUrlDigit c = true :=
      fun c hc => Base64.isUrlDigit_encodeUrl hc
    have hparts := splitOn_token isUrlDigit_header hpayload (isUrlDigit_signature secret claims)
    simp only [sample, sample_encode h, hparts, readPayload_payload, Option.filter_some]
    simp

/-- A user whose password is `hunter2`. -/
def ana : UserConfig where
  email := "ana@example.com"
  passwordHash := "F52FBD32B2B3B86FF88EF6C490628285F482AF15DDCB29541F94BCF526A3F6C7"

end Sample
end Auth
end Borehole
