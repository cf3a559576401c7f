/-
  Borehole.Server.Http

  The HTTP API as a whole: the routes of crates/server/src/main.rs behind the guard
  of crates/server/src/api/auth.rs, beside the server's tasks.

  Every route but the two that log in takes the claims of a token first.  A token
  that verifies was issued to somebody who knew a password at most 24 hours and a
  minute before, so everything the API does is done for such a user.  That holds of
  the tunnels too: no session leaves its loop for a signal unless a request that was
  granted has asked for its tunnel to be closed.
-/

import Borehole.Conc.Network
import Borehole.Server.Auth
import Borehole.Server.Closing
import Borehole.Server.Tokens

namespace Borehole

/-- The routes that only read. -/
inductive Listing where
  | tunnels
  | events
  | nodes
  | devices
  | historyTunnels
  | historyConnections
  deriving DecidableEq, Repr

/-- The protected endpoints, with what is extracted from a request besides the
    claims. -/
inductive Endpoint where
  /-- `DELETE /api/tunnels/:id`, in the task that handles it. -/
  | closeTunnel (t : Tid) (tunnelId : String)
  /-- `/api/tokens` and `/api/tokens/:id` -/
  | tokens (request : ApiTokens.Request)
  | listing (of : Listing)

/-- The routes of the API. -/
inductive Route where
  /-- `POST /api/auth/login` -/
  | login (email password : String)
  /-- `GET /api/auth/cli` -/
  | cliLogin (query : CliQuery)
  | guarded (endpoint : Endpoint)

/-- A request at an instant. -/
structure HttpRequest where
  now : DateTime
  parts : Auth.Parts
  route : Route

/-- The answer to a request. -/
inductive HttpAnswer where
  | login (response : Auth.LoginResponse)
  | cliLogin (answer : CliLogin)
  /-- 401 -/
  | unauthorized (error : String)
  | tokens (response : ApiTokens.Response)
  /-- The handler goes on with the request. -/
  | granted

/-- What the API works on: the server's tasks and the API tokens. -/
structure Http where
  server : Server
  tokens : ApiTokens.Store

/-- What the API is configured with. -/
structure HttpConfig where
  server : ServerConfig
  users : List UserConfig
  jwtSecret : String

namespace Http

/-- A step of a task that is no request, or a request. -/
inductive Label where
  | server (t : Tid) (op : Op)
  | request (r : HttpRequest)

variable (k : Auth.Crates) (cfg : HttpConfig)

/-- A protected endpoint, for the user of the claims. -/
def serve (s : Http) (claims : Auth.Claims) : Endpoint → Option (HttpAnswer × Http)
  | .closeTunnel t id =>
      ((Borehole.server cfg.server).step s.server (t, .delete id)).map fun c =>
        (.granted, { s with server := c })
  | .tokens request =>
      let (tokens, response) := ApiTokens.handle s.tokens (claims.sub, request)
      some (.tokens response, { s with tokens := tokens })
  | .listing _ => some (.granted, s)

/-- The answer to a request and what it leaves behind. -/
def respond (s : Http) (r : HttpRequest) : Option (HttpAnswer × Http) :=
  match r.route with
  | .login email password =>
      some (.login (Auth.login k cfg.users cfg.jwtSecret email password r.now), s)
  | .cliLogin query =>
      some (.cliLogin (cliLoginPage (Auth.credentialsValid k cfg.users)
        (fun email => Auth.issueToken k cfg.jwtSecret email r.now) query), s)
  | .guarded endpoint =>
      match Auth.authClaims k cfg.jwtSecret r.now r.parts with
      | .error error => some (.unauthorized error, s)
      | .ok claims => serve cfg s claims endpoint

/-- A step of the server, or a request and its answer. -/
def step (s : Http) : Label → Option Http
  -- requests reach the tasks by way of the guard
  | .server _ (.delete _) => none
  | .server t op =>
      ((Borehole.server cfg.server).step s.server (t, op)).map fun c => { s with server := c }
  | .request r => (respond k cfg s r).map Prod.snd

end Http

/-- Every interleaving of the server's tasks with requests to the API. -/
def http (k : Auth.Crates) (cfg : HttpConfig) : Conc.Lts Http Http.Label where
  init := ⟨Server.start cfg.server, ∅⟩
  step := Http.step k cfg

/-! ## Requests -/

namespace HttpRequest

variable (k : Auth.Crates) (cfg : HttpConfig) (r : HttpRequest)

/-- The email and the password that a request logs in with. -/
def credentials? : Option (String × String) :=
  match r.route with
  | .login email password => some (email, password)
  | .cliLogin ⟨_, some email, some password⟩ => some (email, password)
  | _ => none

/-- The token that a request is given, and the user it is for. -/
def issued? : Option (String × String) :=
  r.credentials?.bind fun (email, password) =>
    if Auth.credentialsValid k cfg.users email password then
      (Auth.issueToken k cfg.jwtSecret email r.now).map fun (jwt, _) => (email, jwt)
    else none

/-- The request logs a user in. -/
def LogsIn (email : String) : Prop :=
  ∃ password, r.credentials? = some (email, password) ∧
    Auth.credentialsValid k cfg.users email password = true

/-- The token that the guard looks at. -/
def token? : Option String :=
  (Auth.bearerToken r.parts).or (Auth.queryToken r.parts)

/-- The endpoint that is served, for the user of the claims. -/
def granted? : Option (Endpoint × Auth.Claims) :=
  match r.route with
  | .guarded endpoint =>
      ((Auth.authClaims k cfg.jwtSecret r.now r.parts).toOption).map fun claims =>
        (endpoint, claims)
  | _ => none

end HttpRequest

namespace Http

open Conc

variable {k : Auth.Crates} {cfg : HttpConfig} {ls : List Label} {s s' : Http} {a : Label}
  {r : HttpRequest}

/-- What a label asks of the server's tasks. -/
def Label.server? (k : Auth.Crates) (cfg : HttpConfig) : Label → Option (Tid × Op)
  | .server t op => some (t, op)
  | .request r =>
      match r.granted? k cfg with
      | some (.closeTunnel t id, _) => some (t, .delete id)
      | _ => none

/-- What a label asks of the token store. -/
def Label.call? (k : Auth.Crates) (cfg : HttpConfig) : Label → Option ApiTokens.Call
  | .server .. => none
  | .request r =>
      match r.granted? k cfg with
      | some (.tokens req, claims) => some (claims.sub, req)
      | _ => none

/-- A request leaves everything as it is unless it is granted, and then it is served
    for the user of its token. -/
theorem respond_cases {answer : HttpAnswer} (h : respond k cfg s r = some (answer, s')) :
    (r.granted? k cfg = none ∧ s' = s) ∨
    ∃ endpoint claims, r.granted? k cfg = some (endpoint, claims) ∧
      serve cfg s claims endpoint = some (answer, s') := by
  unfold respond at h
  unfold HttpRequest.granted?
  cases hroute : r.route with
  | login | cliLogin =>
      rw [hroute] at h
      cases h
      exact Or.inl ⟨rfl, rfl⟩
  | guarded endpoint =>
      rw [hroute] at h
      cases hauth : Auth.authClaims k cfg.jwtSecret r.now r.parts with
      | error error =>
          rw [hauth] at h
          cases h
          exact Or.inl ⟨rfl, rfl⟩
      | ok claims =>
          rw [hauth] at h
          exact Or.inr ⟨endpoint, claims, rfl, h⟩

/-- A request to a protected endpoint that is not granted is answered with an error. -/
theorem respond_refused {endpoint : Endpoint} (hroute : r.route = .guarded endpoint)
    (hno : r.granted? k cfg = none) (s : Http) :
    ∃ error, respond k cfg s r = some (.unauthorized error, s) := by
  unfold HttpRequest.granted? at hno
  rw [hroute] at hno
  rw [respond, hroute]
  cases hauth : Auth.authClaims k cfg.jwtSecret r.now r.parts with
  | error error => exact ⟨error, rfl⟩
  | ok claims =>
      rw [hauth] at hno
      cases hno

/-- What a step does to the server and to the token store: what its label asks of
    each of them. -/
structure Effect (k : Auth.Crates) (cfg : HttpConfig) (s : Http) (a : Label) (s' : Http) :
    Prop where
  server : match a.server? k cfg with
    | some b => (Borehole.server cfg.server).step s.server b = some s'.server
    | none => s'.server = s.server
  tokens : match a.call? k cfg with
    | some call => apiTokens.step s.tokens call = some s'.tokens
    | none => s'.tokens = s.tokens

theorem step_effect (h : (http k cfg).step s a = some s') : Effect k cfg s a s' := by
  change step k cfg s a = some s' at h
  cases a with
  | server t op =>
      have hop : ((Borehole.server cfg.server).step s.server (t, op)).map
          (fun c => { s with server := c }) = some s' := by
        cases op with
        | delete id => cases h
        | _ => exact h
      obtain ⟨c, hc, rfl⟩ := Option.map_eq_some_iff.mp hop
      exact ⟨hc, rfl⟩
  | request r =>
      obtain ⟨⟨answer, s₁⟩, hr, rfl⟩ := Option.map_eq_some_iff.mp h
      obtain ⟨hno, rfl⟩ | ⟨endpoint, claims, hg, hs⟩ := respond_cases hr
      · refine ⟨?_, ?_⟩
        · simp only [Label.server?, hno]
        · simp only [Label.call?, hno]
      · cases endpoint with
        | closeTunnel t id =>
            obtain ⟨c, hc, he⟩ := Option.map_eq_some_iff.mp hs
            cases he
            refine ⟨?_, ?_⟩
            · simpa only [Label.server?, hg] using hc
            · simp only [Label.call?, hg]
        | tokens request =>
            cases hs
            refine ⟨?_, ?_⟩
            · simp only [Label.server?, hg]
            · simp only [Label.call?, hg]
              rfl
        | listing =>
            cases hs
            refine ⟨?_, ?_⟩
            · simp only [Label.server?, hg]
            · simp only [Label.call?, hg]

/-- The server's part of a run is a run of the server. -/
theorem server_projection (k : Auth.Crates) (cfg : HttpConfig) :
    Projection (http k cfg) (Borehole.server cfg.server) Http.server (Label.server? k cfg) where
  init := rfl
  own := by
    intro s a s' b h hb
    have he := (step_effect h).server
    rwa [hb] at he
  other := by
    intro s a s' h hb
    have he := (step_effect h).server
    rwa [hb] at he

/-- The token store is what the granted requests have made of it. -/
theorem tokens_projection (k : Auth.Crates) (cfg : HttpConfig) :
    Projection (http k cfg) apiTokens Http.tokens (Label.call? k cfg) where
  init := rfl
  own := by
    intro s a s' b h hb
    have he := (step_effect h).tokens
    rwa [hb] at he
  other := by
    intro s a s' h hb
    have he := (step_effect h).tokens
    rwa [hb] at he

end Http

/-! ## Who closes a tunnel -/

/-- The tunnel that a DELETE handler is about. -/
def Close.Pc.tunnelId : Close.Pc → String
  | .lookup id | .notify id _ | .answered id _ => id

/-- The tunnel that a task has been asked to close. -/
def ServerTask.closing? : ServerTask → Option String
  | .close pc => some pc.tunnelId
  | _ => none

section Asked

variable {cfg : ServerConfig} {ls : List (Tid × Op)} {c c' : Server} {t w : Tid} {op : Op}
  {tokens : List String} {k k' : ServerTask} {id : String}

/-- A handler keeps to the tunnel that the request was about. -/
theorem ServerTask.Step.closing (h : Step tokens t k op k') (hk : k'.closing? = some id) :
    k.closing? = some id ∨ op = .delete id := by
  cases h with
  | @connect peer first =>
      have hd := handleClient_dispatched peer first
      generalize handleClient peer first = k' at hd hk
      cases hd <;> cases hk
  | delete =>
      cases hk
      exact Or.inr rfl
  | close h => cases h <;> exact Or.inl hk
  | _ => cases hk

/-- Only a handler that has found its tunnel signals. -/
theorem ServerTask.Step.notifyOne (h : Step tokens t k (.notifyOne w) k') :
    ∃ id, k = .close (.notify id w) := by
  cases h with
  | cli h =>
      cases h with
      | direct h =>
          cases h with
          | serve h => cases h
      | directRet h =>
          cases h with
          | served h => cases h
      | viaNode h =>
          cases h with
          | fallback h =>
              cases h with
              | serve h => cases h
          | fellBack h =>
              cases h with
              | served h => cases h
      | viaNodeRet h => cases h
  | node h =>
      cases h with
      | forward h | forwarded h => cases h
  | visitor h => cases h
  | dataConn h => cases h
  | close h =>
      cases h with
      | notify => exact ⟨_, rfl⟩

/-- Somebody has asked for the tunnel of session `w` to be closed. -/
def Asked (ls : List (Tid × Op)) (c : Server) (w : Tid) : Prop :=
  ∃ d ctx, (c.task w).ctx? = some ctx ∧ (d, .delete ctx.tunnelId) ∈ ls

theorem Asked.step (h : Asked ls c w) (hs : (server cfg).step c (t, op) = some c') :
    Asked (ls ++ [(t, op)]) c' w := by
  obtain ⟨d, ctx, hctx, hd⟩ := h
  exact ⟨d, ctx, server_step_keeps_ctx hs hctx, List.mem_append_left _ hd⟩

/-- Signals go back to requests. -/
structure AskedInv (ls : List (Tid × Op)) (c : Server) : Prop where
  handler : ∀ d id, (c.task d).closing? = some id → (d, .delete id) ∈ ls
  permit : ∀ w, c.shared.permit w = true → Asked ls c w
  notified : ∀ w, (w, .notified) ∈ ls → Asked ls c w

theorem AskedInv.step (hi : AskedInv ls c) (hr : (server cfg).Run ls c)
    (h : (server cfg).step c (t, op) = some c') : AskedInv (ls ++ [(t, op)]) c' := by
  have hx := server_step_exec h
  have hself := server_step_self h
  constructor
  case handler =>
    intro d id hk
    by_cases hd : d = t
    · subst hd
      obtain hold | rfl := hself.closing hk
      · exact List.mem_append_left _ (hi.handler d id hold)
      · simp
    · rw [server_step_attr (f := ServerTask.closing?) (fun _ _ => rfl) h hd] at hk
      exact List.mem_append_left _ (hi.handler d id hk)
  case permit =>
    intro w hw
    by_cases hop : op.onPermits = true
    · cases op with
      | notifyOne w' =>
          rw [ServerState.exec_notifyOne hx, Function.update_apply] at hw
          by_cases hww : w = w'
          · subst hww
            -- the handler has looked up this session under the id that it was asked for
            obtain ⟨id, hk⟩ := hself.notifyOne
            obtain ⟨ctx, hctx, rfl⟩ := (deleteInv hr).looked t id w hk
            refine Asked.step ⟨t, ctx, hctx, hi.handler t _ ?_⟩ h
            rw [hk]
            rfl
          · rw [if_neg hww] at hw
            exact (hi.permit w hw).step h
      | notified =>
          rw [(ServerState.exec_notified hx).2, Function.update_apply] at hw
          split at hw
          · cases hw
          · exact (hi.permit w hw).step h
      | _ => cases hop
    · rw [ServerState.exec_permit hx (Bool.eq_false_iff.mpr hop)] at hw
      exact (hi.permit w hw).step h
  case notified =>
    intro w hw
    obtain hw | hw := List.mem_append.mp hw
    · exact (hi.notified w hw).step h
    · cases List.mem_singleton.mp hw
      exact (hi.permit t (ServerState.exec_notified hx).1).step h

theorem askedInv (h : (server cfg).Run ls c) : AskedInv ls c := by
  refine Conc.Lts.Run.induct (P := fun ls c => AskedInv ls c) ?_
    (fun _ _ _ _ hr hi hs => hi.step hr hs) h
  constructor
  case handler =>
    intro d id hk
    cases hk
  case permit =>
    intro w hw
    cases hw
  case notified =>
    intro w hw
    cases hw

end Asked

/-! ## Granted requests -/

namespace Http

open Conc

variable {k : Auth.Crates} {cfg : HttpConfig} {ls : List Label} {s s' : Http} {r : HttpRequest}
  {claims : Auth.Claims} {endpoint : Endpoint}

/-- A token that verifies has been issued before, and clocks read a time from 1970
    on. -/
structure Genuine (k : Auth.Crates) (cfg : HttpConfig) (ls : List Label) : Prop where
  issued : ∀ pre r post, ls = pre ++ .request r :: post → ∀ token claims, r.token? = some token →
    k.decode cfg.jwtSecret r.now token = some claims →
    ∃ r₀ email, .request r₀ ∈ pre ∧ r₀.issued? k cfg = some (email, token)
  clock : ∀ r, .request r ∈ ls → Auth.ClockReads r.now

/-- A user has logged in recently enough for a request that comes after `ls`. -/
def LoggedIn (k : Auth.Crates) (cfg : HttpConfig) (ls : List Label) (email : String)
    (now : DateTime) : Prop :=
  ∃ r₀, .request r₀ ∈ ls ∧ r₀.LogsIn k cfg email ∧
    Auth.timestamp now ≤ Auth.timestamp r₀.now + 86400 + 60

/-- Whatever the API does, it does for users who have logged in. -/
structure Authorized (k : Auth.Crates) (cfg : HttpConfig) (ls : List Label) (s : Http) : Prop where
  /-- Other requests to protected endpoints get an error and leave everything as it
      is. -/
  refused : ∀ pre r post s₀ endpoint, ls = pre ++ .request r :: post → (http k cfg).Run pre s₀ →
    r.route = .guarded endpoint → r.granted? k cfg = none →
    ∃ error, respond k cfg s₀ r = some (.unauthorized error, s₀)
  granted : ∀ pre r post endpoint claims, ls = pre ++ .request r :: post →
    r.granted? k cfg = some (endpoint, claims) → LoggedIn k cfg pre claims.sub r.now
  /-- The API tokens are those of the granted requests, each for its own user. -/
  tokens : apiTokens.Run (ls.filterMap (Label.call? k cfg)) s.tokens
  owners : ∀ sub, ApiTokens.list s.tokens sub ≠ [] → ∃ user ∈ cfg.users, user.email = sub
  /-- A session whose close branch was taken ran a tunnel that a granted request was
      about. -/
  closed : ∀ w, .server w .notified ∈ ls → ∃ r t claims ctx, .request r ∈ ls ∧
    r.granted? k cfg = some (.closeTunnel t ctx.tunnelId, claims) ∧
    (s.server.task w).ctx? = some ctx

theorem LoggedIn.append {ls' : List Label} {email : String} {now : DateTime}
    (h : LoggedIn k cfg ls email now) : LoggedIn k cfg (ls ++ ls') email now := by
  obtain ⟨r₀, hr₀, hlogs, hle⟩ := h
  exact ⟨r₀, List.mem_append_left _ hr₀, hlogs, hle⟩

/-- The claims of a request that is granted are those of its token. -/
theorem granted_decode (h : r.granted? k cfg = some (endpoint, claims)) :
    r.route = .guarded endpoint ∧ ∃ token, r.token? = some token ∧
      k.decode cfg.jwtSecret r.now token = some claims := by
  unfold HttpRequest.granted? at h
  split at h
  · rename_i endpoint' hroute
    rw [Auth.authClaims] at h
    cases htoken : r.token? with
    | none =>
        rw [HttpRequest.token?] at htoken
        rw [htoken] at h
        cases h
    | some token =>
        rw [HttpRequest.token?] at htoken
        rw [htoken] at h
        cases hverify : k.decode cfg.jwtSecret r.now token with
        | none =>
            simp only [Auth.verifyToken, hverify] at h
            cases h
        | some claims' =>
            simp only [Auth.verifyToken, hverify] at h
            cases h
            exact ⟨hroute, token, rfl, hverify⟩
  · cases h

/-- An issued token was issued to a user who has logged in, with claims of that
    user. -/
theorem issued_claims {email token : String} (h : r.issued? k cfg = some (email, token)) :
    r.LogsIn k cfg email ∧
      k.encode cfg.jwtSecret (Auth.claimsFor email r.now) = some token := by
  obtain ⟨⟨email', password⟩, hc, hi⟩ := Option.bind_eq_some_iff.mp h
  obtain ⟨hvalid, hi⟩ := Option.ite_none_right_eq_some.mp hi
  obtain ⟨⟨jwt, expiresAt⟩, hissue, he⟩ := Option.map_eq_some_iff.mp hi
  cases he
  obtain ⟨token', hencode, he⟩ := Option.map_eq_some_iff.mp hissue
  cases he
  exact ⟨⟨password, hc, hvalid⟩, hencode⟩

theorem loggedIn_of_granted (hk : k.Jwt) (hg : Genuine k cfg ls) {pre post : List Label}
    (hls : ls = pre ++ .request r :: post) (h : r.granted? k cfg = some (endpoint, claims)) :
    LoggedIn k cfg pre claims.sub r.now := by
  obtain ⟨-, token, htoken, hdecode⟩ := granted_decode h
  obtain ⟨r₀, email, hr₀, hissued⟩ := hg.issued pre r post hls token claims htoken hdecode
  obtain ⟨hlogs, hencode⟩ := issued_claims hissued
  have hclock := hg.clock r₀ (by rw [hls]; exact List.mem_append_left _ hr₀)
  rw [hk.verify _ _ _ r.now hencode, Auth.exp_claimsFor email hclock,
    Option.ite_none_right_eq_some] at hdecode
  obtain ⟨hle, he⟩ := hdecode
  cases he
  exact ⟨r₀, hr₀, hlogs, hle⟩

/-- A user who logs in is configured. -/
theorem configured {email : String} (h : r.LogsIn k cfg email) :
    ∃ user ∈ cfg.users, user.email = email := by
  obtain ⟨password, -, hvalid⟩ := h
  obtain ⟨user, huser, hmatch⟩ := List.any_eq_true.mp hvalid
  exact ⟨user, huser, of_decide_eq_true (Bool.and_eq_true_iff.mp hmatch).1⟩

end Http

/-- Only the user of a request can get tokens by it. -/
theorem ApiTokens.list_handle {store : Store} {call : Call} {sub : String}
    (hne : sub ≠ call.1) : list (handle store call).1 sub = list store sub := by
  obtain ⟨sub₀, request⟩ := call
  cases request with
  | list => rfl
  | create req secret now =>
      obtain ⟨-, he⟩ | ⟨info, -, he⟩ := handle_create store sub₀ req secret now
      · rw [he]
      · rw [he, list_insert, if_neg hne]
  | revoke id => exact (revoke_confined store sub₀ id).1 sub hne

/-- Whoever has tokens has made a request. -/
theorem ApiTokens.list_caller {calls : List Call} {store : Store} {sub : String}
    (h : apiTokens.Run calls store) (hne : list store sub ≠ []) : ∃ call ∈ calls, call.1 = sub := by
  refine Conc.Lts.Run.induct
    (P := fun calls store => list store sub ≠ [] → ∃ call ∈ calls, call.1 = sub) ?_ ?_ h hne
  · intro hne
    exact absurd rfl hne
  · intro calls store call store' _ ih hs hne
    cases hs
    by_cases hsub : sub = call.1
    · exact ⟨call, by simp, hsub.symm⟩
    · rw [list_handle hsub] at hne
      obtain ⟨call', hmem, he⟩ := ih hne
      exact ⟨call', List.mem_append_left _ hmem, he⟩

namespace Http

variable {k : Auth.Crates} {cfg : HttpConfig} {ls : List Label} {s : Http}

/-- In every run whose tokens are genuine, the API works for users who have logged
    in within the lifetime of a token, and for nobody else. -/
theorem authorized (hk : k.Jwt) (h : (http k cfg).Run ls s) (hg : Genuine k cfg ls) :
    Authorized k cfg ls s := by
  have htokens := (tokens_projection k cfg).run h
  have hgranted : ∀ pre r post endpoint claims, ls = pre ++ .request r :: post →
      r.granted? k cfg = some (endpoint, claims) → LoggedIn k cfg pre claims.sub r.now :=
    fun pre r post endpoint claims hls hr => loggedIn_of_granted hk hg hls hr
  refine ⟨?_, hgranted, htokens, ?_, ?_⟩
  · intro pre r post s₀ endpoint _ _ hroute hno
    exact respond_refused hroute hno s₀
  · intro sub hne
    obtain ⟨call, hcall, rfl⟩ := ApiTokens.list_caller htokens hne
    obtain ⟨a, ha, hc⟩ := List.mem_filterMap.mp hcall
    cases a with
    | server t op => cases hc
    | request r =>
        obtain ⟨pre, post, hls⟩ := List.append_of_mem ha
        simp only [Label.call?] at hc
        split at hc
        · rename_i req claims hr
          cases hc
          obtain ⟨r₀, -, hlogs, -⟩ := hgranted pre r post _ claims hls hr
          exact configured hlogs
        · cases hc
  · intro w hw
    have hserver := (server_projection k cfg).run h
    have hmem : (w, Op.notified) ∈ ls.filterMap (Label.server? k cfg) :=
      List.mem_filterMap.mpr ⟨_, hw, rfl⟩
    obtain ⟨d, ctx, hctx, hd⟩ := (askedInv hserver).notified w hmem
    -- the request for it has passed the guard
    obtain ⟨a, ha, hdel⟩ := List.mem_filterMap.mp hd
    cases a with
    | server t op =>
        cases hdel
        obtain ⟨pre, post, rfl⟩ := List.append_of_mem ha
        obtain ⟨s₁, -, hrest⟩ := Conc.Lts.run_append.mp h
        obtain ⟨s₂, hstep, -⟩ := Option.bind_eq_some_iff.mp hrest
        cases hstep
    | request r =>
        simp only [Label.server?] at hdel
        split at hdel
        · rename_i t id claims hr
          cases hdel
          exact ⟨r, _, claims, ctx, ha, hr, hctx⟩
        · cases hdel

/-- The token that Ana gets on 1 January 1970. -/
def anaToken : String :=
  String.ofList (Auth.header ++ '.' :: (Auth.payload ⟨"ana@example.com", 86400⟩ ++ '.' ::
    Auth.signature "secret" ⟨"ana@example.com", 86400⟩))

/-- She logs in, -/
def anaLogin : HttpRequest :=
  ⟨0, ⟨none, none⟩, .login "ana@example.com" "hunter2"⟩

/-- creates an API token -/
def anaCreate : HttpRequest :=
  ⟨Auth.hours 23, ⟨some (asBytes ("Bearer " ++ anaToken)), none⟩,
    .guarded (.tokens (.create ⟨"laptop", "all"⟩ ApiTokens.laptopSecret 0))⟩

/-- and is refused a second one with another JWT. -/
def anaRefused : HttpRequest :=
  ⟨Auth.hours 23, ⟨some (asBytes "Bearer x.y.z"), none⟩,
    .guarded (.tokens (.create ⟨"server", "all"⟩ ApiTokens.serverSecret 0))⟩

/-- Her three requests. -/
def anaRun : List Label :=
  [.request anaLogin, .request anaCreate, .request anaRefused]

/-- A server that she is a user of. -/
def anaHttp : HttpConfig where
  server := onePort
  users := [Auth.ana]
  jwtSecret := "secret"

theorem anaRun_genuine : Genuine Auth.sample anaHttp anaRun := by
  have hissued : anaLogin.issued? Auth.sample anaHttp = some ("ana@example.com", anaToken) := by
    decide +kernel
  have hencode : Auth.sample.encode "secret" ⟨"ana@example.com", 86400⟩ = some anaToken := rfl
  have hcreate : anaCreate.token? = some anaToken := by
    rw [HttpRequest.token?, show Auth.bearerToken anaCreate.parts = some anaToken from
      Auth.bearerToken_header (Auth.sample_jwt.chars hencode), Option.some_or]
  have hother : anaRefused.token? = some "x.y.z" := by decide +kernel
  have hno : Auth.sample.decode "secret" (Auth.hours 23) "x.y.z" = none := by decide +kernel
  constructor
  case issued =>
    intro pre r post hls token claims htoken hdecode
    rcases pre with _ | ⟨a, _ | ⟨b, _ | ⟨c, pre⟩⟩⟩ <;>
      simp only [anaRun, List.nil_append, List.cons_append, List.cons.injEq,
        Label.request.injEq] at hls
    · obtain ⟨rfl, -⟩ := hls
      cases htoken
    · obtain ⟨rfl, rfl, -⟩ := hls
      rw [hcreate] at htoken
      rw [← Option.some.inj htoken]
      exact ⟨anaLogin, _, List.mem_singleton_self _, hissued⟩
    · obtain ⟨rfl, rfl, rfl, -⟩ := hls
      rw [hother] at htoken
      rw [← Option.some.inj htoken] at hdecode
      cases hno.symm.trans hdecode
    · have hnil := congrArg List.length hls.2.2.2
      simp at hnil
  case clock =>
    intro r hr
    simp only [anaRun, List.mem_cons, Label.request.injEq, List.not_mem_nil, or_false] at hr
    rcases hr with rfl | rfl | rfl
    · exact ⟨by decide, by decide⟩
    · exact ⟨by decide, by decide⟩
    · exact ⟨by decide, by decide⟩

theorem authorized_ana : ∃ s, (http Auth.sample anaHttp).Run anaRun s ∧
    (ApiTokens.list s.tokens "ana@example.com").map TokenInfo.name = ["laptop"] ∧
    Authorized Auth.sample anaHttp anaRun s := by
  obtain ⟨s, hs, hname⟩ : ∃ s, (http Auth.sample anaHttp).Run anaRun s ∧
      (ApiTokens.list s.tokens "ana@example.com").map TokenInfo.name = ["laptop"] :=
    Conc.Lts.exists_run (by decide +kernel)
  exact ⟨s, hs, hname, authorized Auth.sample_jwt hs anaRun_genuine⟩

end Http
end Borehole
