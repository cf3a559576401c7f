/-
  Borehole.World.Login

  From `borehole login` and the dashboard's login form to requests that the server
  grants: the CLI, the browser and the server with one token.

  The server counts the lifetime in whole seconds and grants 60 of them on top, the
  dashboard compares whole seconds with milliseconds, and the CLI compares instants.
  So a client gives a token up before the server does.
-/

import Borehole.Cli.Config
import Borehole.Dashboard.Session

namespace Borehole.World

open Auth (Crates Claims ClockReads Presents timestamp)

/-- What the clients use of their libraries: `JSON.parse` in the browser and
    `DateTime::parse_from_rfc3339` in the CLI, each reading what the server's side
    has written (names that are distinct, numbers below 2^53, a date up to the year
    9999). -/
structure Readers (k : Crates) where
  jsonParse : List Char → Option (List (String × Json.Scalar))
  parseRfc3339 : String → Option DateTime
  json : Session.ReadsObjects jsonParse
  rfc3339 : ∀ t, 0 ≤ t → timestamp t < 253402300800 → parseRfc3339 (k.toRfc3339 t) = some t

section Lifetime

variable {k : Crates} {secret email jwt expiresAt : String} {issued now : DateTime}
  {parts : Auth.Parts} {c : Cli.CliConfig}

/-- What the three programs make of a token that was issued at an instant, at any
    other instant. -/
structure Lives (k : Crates) (r : Readers k) (secret email jwt expiresAt : String)
    (issued now : DateTime) : Prop where
  server : ∀ parts, Presents jwt parts → Auth.authClaims k secret now parts =
    if timestamp now ≤ timestamp issued + 86400 + 60 then .ok (Auth.claimsFor email issued)
    else .error "invalid or expired token"
  dashboard : Session.isExpired r.jsonParse jwt now = false ↔
    Session.dateNow now < (timestamp issued + 86400) * 1000
  cli : ∀ c : Cli.CliConfig, c.jwtExpiresAt = some expiresAt →
    (c.isJwtExpired r.parseRfc3339 now = false ↔ now < issued + Auth.hours 24)

theorem lives (hk : k.Jwt) (r : Readers k) (hi : ClockReads issued)
    (h : Auth.issueToken k secret email issued = some (jwt, expiresAt)) (now : DateTime) :
    Lives k r secret email jwt expiresAt issued now := by
  refine ⟨fun parts hp => Auth.authClaims_issued hk hi h hp, ?_, fun c hc => ?_⟩
  · rw [Session.isExpired_issued hk r.json hi h now, decide_eq_false_iff_not, Int.not_le]
  · obtain ⟨token, -, he⟩ := Option.map_eq_some_iff.mp h
    cases he
    have hparse := r.rfc3339 (issued + Auth.hours Auth.tokenTtlHours)
      (Int.add_nonneg hi.1 (by decide)) hi.2
    simp only [Cli.CliConfig.isJwtExpired, hc, hparse]
    rw [decide_eq_false_iff_not, Int.not_le]
    rfl

/-- A client that takes a token to be live gets its requests granted, with the email
    it was issued for. -/
theorem Lives.granted {r : Readers k} (hl : Lives k r secret email jwt expiresAt issued now)
    (hlive : Session.isExpired r.jsonParse jwt now = false ∨
      ∃ c : Cli.CliConfig, c.jwtExpiresAt = some expiresAt ∧
        c.isJwtExpired r.parseRfc3339 now = false)
    (hp : Presents jwt parts) :
    Auth.authClaims k secret now parts = .ok (Auth.claimsFor email issued) := by
  rw [hl.server parts hp, if_pos]
  rcases hlive with hd | ⟨c, hc, hcli⟩
  · have hlt := hl.dashboard.mp hd
    rw [Session.dateNow] at hlt
    have hsecs : timestamp now = now / 1000000 / 1000 := by
      rw [timestamp, Int.ediv_ediv_of_nonneg (by decide)]
      rfl
    omega
  · have hlt : LT.lt (α := Int) now (issued + 86400000000000) := (hl.cli c hc).mp hcli
    simp only [timestamp]
    omega

/-- A token is granted, in every way that the clients send it, for as long as one of
    them takes it to be live. -/
theorem token_agrees (hk : k.Jwt) (r : Readers k) (hi : ClockReads issued)
    (h : Auth.issueToken k secret email issued = some (jwt, expiresAt)) :
    (∀ query, Presents jwt (Session.auth jwt query)) ∧ Presents jwt (Session.connectEvents jwt) ∧
    ∀ now, Lives k r secret email jwt expiresAt issued now ∧
      ∀ parts, Presents jwt parts →
        (Session.isExpired r.jsonParse jwt now = false ∨
          ∃ c : Cli.CliConfig, c.jwtExpiresAt = some expiresAt ∧
            c.isJwtExpired r.parseRfc3339 now = false) →
        Auth.authClaims k secret now parts = .ok (Auth.claimsFor email issued) := by
  obtain ⟨token, hencode, he⟩ := Option.map_eq_some_iff.mp h
  cases he
  refine ⟨Session.presents_auth _, Session.presents_connectEvents (hk.chars hencode), ?_⟩
  intro now
  have hl := lives hk r hi h now
  exact ⟨hl, fun parts hp hlive => hl.granted hlive hp⟩

/-- A reader of the dates that the sample libraries write. -/
def sampleDate (s : String) : Option DateTime :=
  if s = "1970-01-02T00:00:00+00:00" then some (Auth.hours 24) else some (s.toList.length : Int)

theorem sampleDate_toRfc3339 {t : DateTime} (hpos : 0 ≤ t) :
    sampleDate (Auth.sample.toRfc3339 t) = some t := by
  by_cases ht : t = Auth.hours 24
  · have hformat : Auth.sample.toRfc3339 t = "1970-01-02T00:00:00+00:00" := if_pos ht
    rw [hformat, sampleDate, if_pos rfl, ht]
  · have hformat : Auth.sample.toRfc3339 t = String.ofList (List.replicate t.toNat '0') := if_neg ht
    have hne : String.ofList (List.replicate t.toNat '0') ≠ "1970-01-02T00:00:00+00:00" := by
      intro he
      have hmem : '1' ∈ (String.ofList (List.replicate t.toNat '0')).toList := by
        rw [he]
        decide
      rw [String.toList_ofList] at hmem
      exact absurd (List.eq_of_mem_replicate hmem) (by decide)
    rw [hformat, sampleDate, if_neg hne, String.toList_ofList, List.length_replicate,
      Int.toNat_of_nonneg hpos]

/-- Readers of what the sample libraries write. -/
def sampleReaders : Readers Auth.sample where
  jsonParse := Json.readObject
  parseRfc3339 := sampleDate
  json := fun members _ _ => Json.readObject_objectText members
  rfc3339 := fun _ hpos _ => sampleDate_toRfc3339 hpos

/-- A token of 1 January 1970, half a minute after the clients have given it up. -/
theorem token_agrees_ana : ∃ jwt expiresAt,
    Auth.issueToken Auth.sample "secret" "ana@example.com" 0 = some (jwt, expiresAt) ∧
      Auth.authClaims Auth.sample "secret" (Auth.hours 24 + 30000000000)
        (Session.connectEvents jwt) = .ok ⟨"ana@example.com", 86400⟩ := by
  obtain ⟨⟨jwt, expiresAt⟩, h⟩ : ∃ p,
      Auth.issueToken Auth.sample "secret" "ana@example.com" 0 = some p := ⟨_, rfl⟩
  obtain ⟨-, hstream, hagrees⟩ :=
    token_agrees Auth.sample_jwt sampleReaders ⟨by decide, by decide⟩ h
  exact ⟨jwt, expiresAt, h, (hagrees _).1.server _ hstream⟩

end Lifetime

/-! ## `borehole login` -/

/-- The query that the redirect adds to the callback. -/
def redirectQuery (jwt expiresAt : String) : String :=
  "?token=" ++ Login.percentEncode jwt ++ "&expires=" ++ Login.percentEncode expiresAt

/-- The request line of a client that follows the redirect. -/
def redirectLine (jwt expiresAt eol : String) : String :=
  "GET /" ++ redirectQuery jwt expiresAt ++ " HTTP/1.1" ++ eol

/-- `borehole config`, run with one after the other of the flags and answers `runs`. -/
def configRuns (fromStr : String → Option Cli.CliConfig) (path : String) (contents : String) :
    List (Cli.ConfigFlags × String × String) → Except String String
  | [] => .ok contents
  | (flags, server, token) :: runs => do
      configRuns fromStr path (← Cli.runConfig fromStr path (some contents) flags server token) runs

/-- The form is shown, with the callback in its hidden field for every parser that
    knows the entities. -/
def ShowsForm (reference : List Char → Option (List Char × Nat)) (callback : String)
    (answer : CliLogin) : Prop :=
  ∃ page error field, answer = .html page ∧
    page.toList = (loginHead error).toList ++ field ∧
      Html.attributeValue reference field = some (callback.toList, loginTail.toList)

/-- The steps of a login in their order, from the configuration `c` that the CLI has
    loaded and the address that it opens. -/
structure LoggedIn (k : Crates) (users : List UserConfig) (secret : String)
    (fromStr : String → Option Cli.CliConfig) (path : String) (c : Cli.CliConfig) (opened : String)
    (port : UInt16) (email password jwt expiresAt : String) (issued : DateTime) : Prop where
  address : ∃ serverUrl, c.serverUrl = some serverUrl ∧ serverUrl ≠ "" ∧
    opened = Cli.trimEndSlashes serverUrl ++ "/api/auth/cli?callback=" ++ Cli.callbackUrl port
  /-- The address shows the form. -/
  form : ∀ reference, Html.ReadsEntities reference →
    ShowsForm reference (Cli.callbackUrl port)
      (cliLoginPage (Auth.credentialsValid k users)
        (fun email => Auth.issueToken k secret email issued) ⟨Cli.callbackUrl port, none, none⟩)
  /-- Submitting it with other credentials shows it again. -/
  retry : ∀ reference, Html.ReadsEntities reference → ∀ email' password',
    Auth.credentialsValid k users email' password' = false →
    ShowsForm reference (Cli.callbackUrl port)
      (cliLoginPage (Auth.credentialsValid k users)
        (fun email => Auth.issueToken k secret email issued)
        ⟨Cli.callbackUrl port, some email', some password'⟩)
  /-- Submitting it with the credentials redirects to the callback. -/
  redirect : ∃ url, cliLoginPage (Auth.credentialsValid k users)
      (fun email => Auth.issueToken k secret email issued)
      ⟨Cli.callbackUrl port, some email, some password⟩ = .redirect url ∧
    url = Cli.callbackUrl port ++ redirectQuery jwt expiresAt
  /-- The callback leaves a file with the token, and the rest as it was. -/
  saved : ∀ eol, ∃ contents,
    Cli.finishLogin c (some (redirectLine jwt expiresAt eol)) = .ok contents ∧
      Cli.CliConfig.load fromStr path (some contents) =
        .ok { c with jwt := some jwt, jwtExpiresAt := some expiresAt } ∧
      -- which `borehole config` does not take out again
      ∀ runs, ∃ contents' c', configRuns fromStr path contents runs = .ok contents' ∧
        Cli.CliConfig.load fromStr path (some contents') = .ok c' ∧
        c'.jwt = some jwt ∧ c'.jwtExpiresAt = some expiresAt

section Flow

variable {k : Crates} {users : List UserConfig} {secret email password jwt expiresAt : String}
  {issued : DateTime} {c : Cli.CliConfig} {fromStr : String → Option Cli.CliConfig}
  {path opened : String} {port : UInt16} {file : Option String}

theorem beginLogin_ok (h : Cli.beginLogin fromStr path file port = .ok (c, opened)) :
    ∃ serverUrl, c.serverUrl = some serverUrl ∧ serverUrl ≠ "" ∧
      opened = Cli.loginUrl serverUrl port := by
  rw [Cli.beginLogin] at h
  cases hload : Cli.CliConfig.load fromStr path file with
  | error e =>
      rw [hload] at h
      cases h
  | ok c' =>
      rw [hload] at h
      change (c'.requireServerUrl >>= fun url => pure (c', Cli.loginUrl url port)) = _ at h
      rw [Cli.CliConfig.requireServerUrl, Cli.CliConfig.require] at h
      cases hurl : c'.serverUrl.filter fun s => s ≠ "" with
      | none =>
          rw [hurl] at h
          cases h
      | some url =>
          rw [hurl] at h
          cases h
          obtain ⟨hsome, hne⟩ := Option.filter_eq_some_iff.mp hurl
          exact ⟨url, hsome, by simpa using hne, rfl⟩

theorem runConfig_save (hserde : Cli.CliConfig.ReadsPretty fromStr) (flags : Cli.ConfigFlags)
    (server token : String) :
    Cli.runConfig fromStr path (some c.save) flags server token =
      .ok (flags.apply server token c).save := by
  rw [Cli.runConfig, Cli.CliConfig.load_save hserde]
  rfl

/-- `borehole config` keeps a login. -/
theorem apply_jwt (flags : Cli.ConfigFlags) (server token : String) (c : Cli.CliConfig) :
    (flags.apply server token c).jwt = c.jwt ∧
      (flags.apply server token c).jwtExpiresAt = c.jwtExpiresAt := by
  unfold Cli.ConfigFlags.apply
  split
  · exact ⟨rfl, rfl⟩
  · exact ⟨rfl, rfl⟩

/-- `borehole config` keeps a login however often it is run. -/
theorem configRuns_jwt (hserde : Cli.CliConfig.ReadsPretty fromStr)
    (runs : List (Cli.ConfigFlags × String × String)) :
    ∃ contents' c', configRuns fromStr path c.save runs = .ok contents' ∧
      Cli.CliConfig.load fromStr path (some contents') = .ok c' ∧
      c'.jwt = c.jwt ∧ c'.jwtExpiresAt = c.jwtExpiresAt := by
  induction runs generalizing c with
  | nil => exact ⟨_, c, rfl, Cli.CliConfig.load_save hserde path c, rfl, rfl⟩
  | cons run runs ih =>
      obtain ⟨flags, server, token⟩ := run
      obtain ⟨hjwt, hexpires⟩ := apply_jwt flags server token c
      obtain ⟨contents', c', hruns, hload, hjwt', hexpires'⟩ :=
        ih (c := flags.apply server token c)
      refine ⟨contents', c', ?_, hload, hjwt'.trans hjwt, hexpires'.trans hexpires⟩
      rw [configRuns, runConfig_save hserde]
      exact hruns

theorem showsForm_loginHtml {reference : List Char → Option (List Char × Nat)}
    (href : Html.ReadsEntities reference) (callback : String) (error : Bool) :
    ShowsForm reference callback (.html (loginHtml callback error)) := by
  obtain ⟨field, hpage, hvalue⟩ := attributeValue_loginHtml href callback error
  exact ⟨_, error, field, rfl, hpage, hvalue⟩

theorem finishLogin_redirect (eol : String) :
    Cli.finishLogin c (some (redirectLine jwt expiresAt eol)) =
      .ok (Cli.CliConfig.save { c with jwt := some jwt, jwtExpiresAt := some expiresAt }) := by
  have hline : redirectLine jwt expiresAt eol = Login.requestLine jwt expiresAt eol := by
    apply String.toList_inj.mp
    simp [redirectLine, redirectQuery, Login.requestLine]
  simp only [Cli.finishLogin, hline, Login.parseCallback_requestLine]

/-- A login with valid credentials leaves the CLI with a token that the server
    grants requests of that user for. -/
theorem login_session (hk : k.Jwt) (r : Readers k) (hserde : Cli.CliConfig.ReadsPretty fromStr)
    (hbegin : Cli.beginLogin fromStr path file port = .ok (c, opened))
    (hvalid : Auth.credentialsValid k users email password = true) (hi : ClockReads issued)
    (h : Auth.issueToken k secret email issued = some (jwt, expiresAt)) :
    LoggedIn k users secret fromStr path c opened port email password jwt expiresAt issued ∧
    (∀ query, Presents jwt (Session.auth jwt query)) ∧
    ∀ now, (Cli.CliConfig.isJwtExpired r.parseRfc3339
        { c with jwt := some jwt, jwtExpiresAt := some expiresAt } now = false ↔
        now < issued + Auth.hours 24) ∧
      (now < issued + Auth.hours 24 → ∀ parts, Presents jwt parts →
        Auth.authClaims k secret now parts = .ok (Auth.claimsFor email issued)) := by
  refine ⟨⟨beginLogin_ok hbegin, ?_, ?_, ?_, ?_⟩, Session.presents_auth jwt, fun now => ?_⟩
  · intro reference href
    exact showsForm_loginHtml href _ _
  · intro reference href email' password' hno
    simp only [cliLoginPage, hno]
    exact showsForm_loginHtml href _ _
  · refine ⟨_, ?_, rfl⟩
    simp only [cliLoginPage, hvalid, h, if_true, redirectQuery]
    congr 1
    apply String.toList_inj.mp
    simp
  · intro eol
    exact ⟨_, finishLogin_redirect eol, Cli.CliConfig.load_save hserde path _,
      configRuns_jwt hserde⟩
  · have hl := lives hk r hi h now
    have hcli := hl.cli { c with jwt := some jwt, jwtExpiresAt := some expiresAt } rfl
    exact ⟨hcli, fun hlt parts hp => hl.granted (Or.inr ⟨_, rfl, hcli.mpr hlt⟩) hp⟩

/-- A configuration that holds no more than the address of the dashboard. -/
def anaConfig : Cli.CliConfig :=
  { Cli.CliConfig.new with serverUrl := some "http://bh/" }

theorem login_session_ana : ∃ jwt expiresAt,
    LoggedIn Auth.sample [Auth.ana] "secret" Cli.CliConfig.fromStr "/home/ana/.borehole.json"
      anaConfig
      "http://bh/api/auth/cli?callback=http://localhost:40000" 40000 "ana@example.com" "hunter2"
      jwt expiresAt 0 ∧
    Auth.authClaims Auth.sample "secret" (Auth.hours 23) (Session.auth jwt none) =
      .ok ⟨"ana@example.com", 86400⟩ := by
  obtain ⟨⟨jwt, expiresAt⟩, h⟩ : ∃ p,
      Auth.issueToken Auth.sample "secret" "ana@example.com" 0 = some p := ⟨_, rfl⟩
  have hbegin :
      Cli.beginLogin Cli.CliConfig.fromStr "/home/ana/.borehole.json" (some anaConfig.save)
      40000 = .ok (anaConfig, "http://bh/api/auth/cli?callback=http://localhost:40000") := by
    rw [Cli.beginLogin, Cli.CliConfig.load_save Cli.CliConfig.fromStr_readsPretty]
    rfl
  have hvalid :
      Auth.credentialsValid Auth.sample [Auth.ana] "ana@example.com" "hunter2" = true := by
    decide
  obtain ⟨hlogged, hpresents, hgranted⟩ := login_session Auth.sample_jwt sampleReaders
    Cli.CliConfig.fromStr_readsPretty hbegin hvalid ⟨by decide, by decide⟩ h
  exact ⟨jwt, expiresAt, hlogged, (hgranted _).2 (by decide) _ (hpresents none)⟩

end Flow
end Borehole.World
