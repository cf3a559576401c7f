/-
  Borehole.Server.Tokens

  The API tokens of the dashboard (crates/server/src/api/tokens.rs).

  Each handler locks the store once and does nothing to it outside, so an
  interleaving of requests is a sequence of them.  A token is addressed by the
  first 8 digits of its secret, and `revoke` acts on the first token with that id.
  Nothing keeps two tokens of a user from having one id, and then a token can stay
  good that its user was told is revoked.
-/

import Borehole.Common.Frames
import Borehole.Conc.Lts
import Borehole.Server.History
import Mathlib.Data.Finmap

namespace Borehole

/-- A lower-case hex digit. -/
def isHexDigit (c : Char) : Bool :=
  ('0' ≤ c && c ≤ '9') || ('a' ≤ c && c ≤ 'f')

/-- What `Uuid::new_v4().simple()` prints. -/
structure Secret where
  digits : List Char
  length_eq : digits.length = 32
  hex : digits.all isHexDigit = true
  deriving DecidableEq

/-- Public token view (no secret). -/
structure TokenInfo where
  id : String
  name : String
  scope : String
  createdAt : DateTime
  revoked : Bool
  deriving DecidableEq, Repr

/-- Body of `POST /api/tokens`. -/
structure CreateToken where
  name : String
  scope : String
  deriving DecidableEq, Repr

/-- `POST /api/tokens` response. -/
structure CreatedToken where
  token : String
  info : TokenInfo
  deriving DecidableEq, Repr

namespace ApiTokens

/-- `email -> Vec<TokenInfo>` -/
abbrev Store := Finmap fun _ : String => List TokenInfo

/-- The answer to a request. -/
inductive Response where
  /-- 200 -/
  | listed (tokens : List TokenInfo)
  /-- 201 -/
  | created (token : CreatedToken)
  /-- 204 -/
  | noContent
  /-- 400 -/
  | badRequest (error : String)
  /-- 404 -/
  | notFound (error : String)
  deriving DecidableEq, Repr

/-- `GET /api/tokens` -/
def list (store : Store) (sub : String) : List TokenInfo :=
  (store.lookup sub).getD []

/-- The token that a request to create one asks for, or why it gets none. -/
def mint (req : CreateToken) (secret : Secret) (now : DateTime) : Except String TokenInfo :=
  if req.scope ∈ ["all", "tcp", "http"] then
    let name := trim req.name
    if name = "" then .error "name is required"
    else
      .ok
        -- the displayed id keeps only the first 8 digits
        { id := "tnk_" ++ String.ofList (secret.digits.take 8)
          name := name
          scope := req.scope
          createdAt := now
          revoked := false }
  else .error "invalid scope"

/-- `POST /api/tokens` -/
def create (store : Store) (sub : String) (req : CreateToken) (secret : Secret)
    (now : DateTime) : Store × Response :=
  match mint req secret now with
  | .error error => (store, .badRequest error)
  | .ok info =>
      (store.insert sub (list store sub ++ [info]),
        .created ⟨"tnk_" ++ String.ofList secret.digits, info⟩)

/-- Marks the first token with an id revoked, if there is one. -/
def revokeFirst (id : String) : List TokenInfo → Option (List TokenInfo)
  | [] => none
  | token :: tokens =>
      if token.id = id then some ({ token with revoked := true } :: tokens)
      else (revokeFirst id tokens).map (token :: ·)

/-- `DELETE /api/tokens/:id` -/
def revoke (store : Store) (sub id : String) : Store × Response :=
  match store.lookup sub with
  | none => (store, .notFound "token not found")
  | some tokens =>
      match revokeFirst id tokens with
      | some tokens => (store.insert sub tokens, .noContent)
      | none => (store, .notFound "token not found")

/-- What a user asks for, with the secret and the time that `create` draws. -/
inductive Request where
  | list
  | create (req : CreateToken) (secret : Secret) (now : DateTime)
  | revoke (id : String)
  deriving DecidableEq

/-- A request of the user of the JWT. -/
abbrev Call := String × Request

/-- The answer to a request, and the store after it. -/
def handle (store : Store) : Call → Store × Response
  | (sub, .list) => (store, .listed (list store sub))
  | (sub, .create req secret now) => create store sub req secret now
  | (sub, .revoke id) => revoke store sub id

end ApiTokens

open ApiTokens in
/-- Every sequence of requests. -/
def apiTokens : Conc.Lts Store Call where
  init := ∅
  step store call := some (handle store call).1

namespace ApiTokens

open Conc

/-- The tokens of a user with an id. -/
def under (store : Store) (sub id : String) : List TokenInfo :=
  (list store sub).filter fun token => token.id = id

/-- A revocation by the user has been answered with 204. -/
def Revoked (calls : List Call) (sub id : String) : Prop :=
  ∃ before after store, calls = before ++ (sub, .revoke id) :: after ∧
    apiTokens.Run before store ∧ (handle store (sub, .revoke id)).2 = .noContent

/-- A revocation that is answered with 204 is complete and stays so, touches no
    other token, and is answered with 404 exactly if there is nothing to revoke. -/
structure Revokes (calls : List Call) : Prop where
  complete : ∀ before after store sub id, calls = before ++ after →
    apiTokens.Run before store → Revoked before sub id →
    ∀ token ∈ list store sub, token.id = id → token.revoked = true
  confined : ∀ before after store sub id, calls = before ++ (sub, .revoke id) :: after →
    apiTokens.Run before store →
    (∀ sub' ≠ sub, list (handle store (sub, .revoke id)).1 sub' = list store sub') ∧
      ∀ id' ≠ id, under (handle store (sub, .revoke id)).1 sub id' = under store sub id'
  missing : ∀ before after store sub id, calls = before ++ (sub, .revoke id) :: after →
    apiTokens.Run before store →
    ((handle store (sub, .revoke id)).2 = .notFound "token not found" ↔
      ∀ token ∈ list store sub, token.id ≠ id)

/-- A request names or gives out an id only where the id is good for one token. -/
def Unambiguous (store : Store) : Call → Prop
  | (_, .list) => True
  -- no token is created under an id that the user has revoked
  | (sub, .create req secret now) => ∀ info, mint req secret now = .ok info →
      ∀ token ∈ under store sub info.id, token.revoked = false
  -- at most one token is listed under an id that the user revokes
  | (sub, .revoke id) => (under store sub id).length ≤ 1

/-! ## One request -/

section Handle

variable {store : Store} {sub sub' id id' : String}

theorem mem_under {token : TokenInfo} :
    token ∈ under store sub id ↔ token ∈ list store sub ∧ token.id = id := by
  rw [under, List.mem_filter, decide_eq_true_iff]

theorem under_eq_nil :
    under store sub id = [] ↔ ∀ token ∈ list store sub, token.id ≠ id := by
  simp [under, List.filter_eq_nil_iff]

theorem list_insert {tokens : List TokenInfo} :
    list (store.insert sub tokens) sub' = if sub' = sub then tokens else list store sub' := by
  rw [list]
  by_cases h : sub' = sub
  · rw [if_pos h, h, Finmap.lookup_insert, Option.getD_some]
  · rw [if_neg h, Finmap.lookup_insert_of_ne _ h, list]

theorem under_insert_self {info : TokenInfo} :
    under (store.insert sub (list store sub ++ [info])) sub info.id =
      under store sub info.id ++ [info] := by
  rw [under, list_insert, if_pos rfl, List.filter_append, ← under]
  simp

theorem under_insert_other {info : TokenInfo} (hne : ¬(sub' = sub ∧ info.id = id)) :
    under (store.insert sub (list store sub ++ [info])) sub' id = under store sub' id := by
  rw [under, list_insert]
  by_cases hsub : sub' = sub
  · have hid : info.id ≠ id := fun h => hne ⟨hsub, h⟩
    rw [if_pos hsub, List.filter_append, under, hsub]
    simp [hid]
  · rw [if_neg hsub, under]

theorem revokeFirst_eq_none {tokens : List TokenInfo} :
    revokeFirst id tokens = none ↔ ∀ token ∈ tokens, token.id ≠ id := by
  induction tokens with
  | nil => simp [revokeFirst]
  | cons token tokens ih =>
      rw [revokeFirst]
      by_cases h : token.id = id
      · simp [h]
      · simp [h, ih]

/-- Of the tokens with the id the first is revoked. -/
theorem revokeFirst_same {tokens tokens' : List TokenInfo}
    (h : revokeFirst id tokens = some tokens') : ∃ token rest,
      tokens.filter (fun token => token.id = id) = token :: rest ∧
      tokens'.filter (fun token => token.id = id) = { token with revoked := true } :: rest := by
  induction tokens generalizing tokens' with
  | nil => cases h
  | cons token tokens ih =>
      rw [revokeFirst] at h
      by_cases hid : token.id = id
      · rw [if_pos hid] at h
        cases h
        exact ⟨token, tokens.filter fun token => token.id = id, by simp [hid], by simp [hid]⟩
      · rw [if_neg hid] at h
        obtain ⟨tokens₁, h₁, rfl⟩ := Option.map_eq_some_iff.mp h
        obtain ⟨first, rest, hfilter, hfilter₁⟩ := ih h₁
        exact ⟨first, rest, by simp [hid, hfilter], by simp [hid, hfilter₁]⟩

theorem revokeFirst_other {tokens tokens' : List TokenInfo} (hne : id' ≠ id)
    (h : revokeFirst id tokens = some tokens') :
    tokens'.filter (fun token => token.id = id') =
      tokens.filter fun token => token.id = id' := by
  induction tokens generalizing tokens' with
  | nil => cases h
  | cons token tokens ih =>
      rw [revokeFirst] at h
      by_cases hid : token.id = id
      · rw [if_pos hid] at h
        cases h
        simp [hid, Ne.symm hne]
      · rw [if_neg hid] at h
        obtain ⟨tokens₁, h₁, rfl⟩ := Option.map_eq_some_iff.mp h
        rw [List.filter_cons, List.filter_cons, ih h₁]

/-- A revocation either finds nothing and changes nothing, or replaces the user's
    list by one with the first token of the id revoked. -/
theorem handle_revoke (store : Store) (sub id : String) :
    ((∀ token ∈ list store sub, token.id ≠ id) ∧
      handle store (sub, .revoke id) = (store, .notFound "token not found")) ∨
    ∃ tokens, revokeFirst id (list store sub) = some tokens ∧
      handle store (sub, .revoke id) = (store.insert sub tokens, .noContent) := by
  rw [handle, revoke, list]
  cases hl : store.lookup sub with
  | none => exact Or.inl ⟨by simp, rfl⟩
  | some tokens =>
      rw [Option.getD_some]
      cases hf : revokeFirst id tokens with
      | none => exact Or.inl ⟨revokeFirst_eq_none.mp hf, by simp only [hf]⟩
      | some tokens' => exact Or.inr ⟨tokens', rfl, by simp only [hf]⟩

/-- A creation either is refused and changes nothing, or adds its token to the
    user's list. -/
theorem handle_create (store : Store) (sub : String) (req : CreateToken) (secret : Secret)
    (now : DateTime) :
    ((∀ info, mint req secret now ≠ .ok info) ∧
      (handle store (sub, .create req secret now)).1 = store) ∨
    ∃ info, mint req secret now = .ok info ∧
      (handle store (sub, .create req secret now)).1 =
        store.insert sub (list store sub ++ [info]) := by
  rw [handle, create]
  cases mint req secret now with
  | error error => exact Or.inl ⟨nofun, rfl⟩
  | ok info => exact Or.inr ⟨info, rfl, rfl⟩

/-- A new token is good. -/
theorem mint_revoked {req : CreateToken} {secret : Secret} {now : DateTime} {info : TokenInfo}
    (h : mint req secret now = .ok info) : info.revoked = false := by
  rw [mint] at h
  split at h
  · dsimp only at h
    split at h
    · cases h
    · cases h
      rfl
  · cases h

theorem revoke_confined (store : Store) (sub id : String) :
    (∀ sub' ≠ sub, list (handle store (sub, .revoke id)).1 sub' = list store sub') ∧
      ∀ id' ≠ id, under (handle store (sub, .revoke id)).1 sub id' = under store sub id' := by
  obtain ⟨-, h⟩ | ⟨tokens, hf, h⟩ := handle_revoke store sub id
  · rw [h]
    exact ⟨fun _ _ => rfl, fun _ _ => rfl⟩
  · rw [h]
    refine ⟨fun sub' hne => ?_, fun id' hne => ?_⟩
    · rw [list_insert, if_neg hne]
    · rw [under, list_insert, if_pos rfl]
      exact revokeFirst_other hne hf

theorem revoke_missing (store : Store) (sub id : String) :
    (handle store (sub, .revoke id)).2 = .notFound "token not found" ↔
      ∀ token ∈ list store sub, token.id ≠ id := by
  obtain ⟨hall, h⟩ | ⟨tokens, hf, h⟩ := handle_revoke store sub id
  · rw [h]
    exact iff_of_true rfl hall
  · rw [h]
    refine iff_of_false nofun fun hall => ?_
    rw [revokeFirst_eq_none.mpr hall] at hf
    cases hf

end Handle

/-! ## Sequences of requests -/

section Runs

variable {calls : List Call} {store : Store} {sub id : String}

/-- Every request is answered. -/
theorem exists_store (calls : List Call) : ∃ store, apiTokens.Run calls store := by
  induction calls using List.reverseRecOn with
  | nil => exact ⟨∅, rfl⟩
  | append_singleton calls call ih =>
      obtain ⟨store, hr⟩ := ih
      exact ⟨(handle store call).1, Lts.run_snoc.mpr ⟨store, hr, rfl⟩⟩

theorem revoked_nil : ¬ Revoked [] sub id := by
  rintro ⟨before, after, store, h, -⟩
  simp at h

theorem Revoked.append (h : Revoked calls sub id) (calls' : List Call) :
    Revoked (calls ++ calls') sub id := by
  obtain ⟨before, after, store, rfl, hr, hans⟩ := h
  exact ⟨before, after ++ calls', store, by simp, hr, hans⟩

theorem revoked_snoc {call : Call} (hr : apiTokens.Run calls store) :
    Revoked (calls ++ [call]) sub id ↔ Revoked calls sub id ∨
      call = (sub, .revoke id) ∧ (handle store call).2 = .noContent := by
  constructor
  · rintro ⟨before, after, store', he, hr', hans⟩
    obtain rfl | ⟨after, call', rfl⟩ := List.eq_nil_or_concat after
    · obtain ⟨rfl, hcall⟩ := List.append_inj' he rfl
      cases hcall
      rw [hr.functional hr']
      exact Or.inr ⟨rfl, hans⟩
    · rw [List.concat_eq_append, ← List.cons_append, ← List.append_assoc] at he
      exact Or.inl ⟨before, after, store', (List.append_inj' he rfl).1, hr', hans⟩
  · rintro (h | ⟨rfl, hans⟩)
    · exact h.append _
    · exact ⟨calls, [], store, rfl, hr, hans⟩

/-- An id that has been revoked is that of one token, which is revoked, and under
    any other id every token is good. -/
def Settled (calls : List Call) (store : Store) : Prop :=
  ∀ sub id,
    (Revoked calls sub id → ∃ token, under store sub id = [token] ∧ token.revoked = true) ∧
    (¬ Revoked calls sub id → ∀ token ∈ under store sub id, token.revoked = false)

/-- A request that revokes nothing under an id and leaves its tokens alone. -/
theorem Settled.same {call : Call} (hr : apiTokens.Run calls store) (hi : Settled calls store)
    (hno : ¬(call = (sub, .revoke id) ∧ (handle store call).2 = .noContent))
    (hunder : under (handle store call).1 sub id = under store sub id) :
    (Revoked (calls ++ [call]) sub id →
      ∃ token, under (handle store call).1 sub id = [token] ∧ token.revoked = true) ∧
    (¬ Revoked (calls ++ [call]) sub id →
      ∀ token ∈ under (handle store call).1 sub id, token.revoked = false) := by
  rw [revoked_snoc hr, or_iff_left hno, hunder]
  exact hi sub id

theorem settled_create {sub₀ : String} {req : CreateToken} {secret : Secret} {now : DateTime}
    (hr : apiTokens.Run calls store) (hi : Settled calls store)
    (hok : Unambiguous store (sub₀, .create req secret now)) :
    Settled (calls ++ [(sub₀, .create req secret now)])
      (handle store (sub₀, .create req secret now)).1 := by
  intro sub id
  have hno : ¬((sub₀, Request.create req secret now) = (sub, .revoke id) ∧
      (handle store (sub₀, .create req secret now)).2 = .noContent) := fun h => by cases h.1
  obtain ⟨-, he⟩ | ⟨info, hmint, he⟩ := handle_create store sub₀ req secret now
  · exact hi.same hr hno (by rw [he])
  · by_cases hnew : sub = sub₀ ∧ info.id = id
    · obtain ⟨rfl, rfl⟩ := hnew
      rw [revoked_snoc hr, or_iff_left hno, he, under_insert_self]
      have hgood := hok info hmint
      -- the id has not been revoked, or its token would be
      have hnot : ¬ Revoked calls sub info.id := by
        intro hrev
        obtain ⟨token, hone, htrue⟩ := (hi sub info.id).1 hrev
        have hfalse := hgood token (by rw [hone]; exact List.mem_singleton_self token)
        rw [htrue] at hfalse
        cases hfalse
      refine ⟨fun hrev => absurd hrev hnot, fun _ token htoken => ?_⟩
      obtain htoken | htoken := List.mem_append.mp htoken
      · exact hgood token htoken
      · rw [List.mem_singleton.mp htoken]
        exact mint_revoked hmint
    · exact hi.same hr hno (by rw [he, under_insert_other hnew])

theorem settled_revoke {sub₀ id₀ : String} (hr : apiTokens.Run calls store)
    (hi : Settled calls store) (hok : Unambiguous store (sub₀, .revoke id₀)) :
    Settled (calls ++ [(sub₀, .revoke id₀)]) (handle store (sub₀, .revoke id₀)).1 := by
  intro sub id
  obtain ⟨-, he⟩ | ⟨tokens, hf, he⟩ := handle_revoke store sub₀ id₀
  · refine hi.same hr ?_ (by rw [he])
    rw [he]
    exact fun h => by cases h.2
  · by_cases hthis : sub = sub₀ ∧ id = id₀
    · obtain ⟨rfl, rfl⟩ := hthis
      -- the token that is revoked is the only one
      obtain ⟨token, rest, hfilter, hfilter'⟩ := revokeFirst_same hf
      have hrest : rest = [] := by
        have hlen : (token :: rest).length ≤ 1 := hfilter ▸ hok
        exact List.length_eq_zero_iff.mp (by simpa using hlen)
      rw [revoked_snoc hr]
      refine ⟨fun _ => ⟨{ token with revoked := true }, ?_, rfl⟩, fun hnot => ?_⟩
      · rw [he, under, list_insert, if_pos rfl, hfilter', hrest]
      · exact absurd (Or.inr ⟨rfl, by rw [he]⟩) hnot
    · refine hi.same hr ?_ ?_
      · rintro ⟨h, -⟩
        cases h
        exact hthis ⟨rfl, rfl⟩
      · obtain ⟨husers, hids⟩ := revoke_confined store sub₀ id₀
        by_cases hsub : sub = sub₀
        · subst hsub
          exact hids id fun h => hthis ⟨rfl, h⟩
        · rw [under, husers sub hsub, under]

theorem settled_step {call : Call} (hr : apiTokens.Run calls store) (hi : Settled calls store)
    (hok : Unambiguous store call) : Settled (calls ++ [call]) (handle store call).1 := by
  obtain ⟨sub₀, request⟩ := call
  cases request with
  | list => exact fun sub id => hi.same hr (fun h => by cases h.1) rfl
  | create req secret now => exact settled_create hr hi hok
  | revoke id₀ => exact settled_revoke hr hi hok

theorem settled (hr : apiTokens.Run calls store) (hok : apiTokens.Along Unambiguous calls) :
    Settled calls store := by
  refine Lts.Run.induct_along (P := Settled) ?_ ?_ hr hok
  · intro sub id
    refine ⟨fun h => absurd h revoked_nil, fun _ token htoken => ?_⟩
    cases (mem_under.mp htoken).1
  · intro calls store call store' hr hi hok hs
    cases hs
    exact settled_step hr hi hok

theorem Revokes.left {calls' : List Call} (h : Revokes (calls ++ calls')) : Revokes calls := by
  refine ⟨fun before after store sub id he => ?_, fun before after store sub id he => ?_,
    fun before after store sub id he => ?_⟩
  · exact h.complete before (after ++ calls') store sub id (by simp [he])
  · exact h.confined before (after ++ calls') store sub id (by simp [he])
  · exact h.missing before (after ++ calls') store sub id (by simp [he])

/-- A request that names or gives out an ambiguous id leaves a good token under an
    id that has been revoked. -/
theorem Revokes.unambiguous (h : Revokes calls) : apiTokens.Along Unambiguous calls := by
  induction calls using List.reverseRecOn with
  | nil => trivial
  | append_singleton calls call ih =>
      obtain ⟨store, hr⟩ := exists_store calls
      have hbefore : Revokes calls := h.left
      have hi := settled hr (ih hbefore)
      refine (Lts.alongFrom_snoc hr).mpr ⟨ih hbefore, ?_⟩
      have hafter : ∀ sub id, Revoked (calls ++ [call]) sub id →
          ∀ token ∈ list (handle store call).1 sub, token.id = id → token.revoked = true :=
        fun sub id => h.complete (calls ++ [call]) [] _ sub id (by simp)
          (Lts.run_snoc.mpr ⟨store, hr, rfl⟩)
      obtain ⟨sub, request⟩ := call
      cases request with
      | list => trivial
      | create req secret now =>
          intro info hmint token htoken
          by_cases hrev : Revoked calls sub info.id
          -- the new token is good, and its id has been revoked
          · obtain ⟨hno, -⟩ | ⟨info', hmint', he⟩ := handle_create store sub req secret now
            · exact absurd hmint (hno info)
            · rw [hmint] at hmint'
              cases hmint'
              have htrue := hafter sub info.id (hrev.append _) info
                (by rw [he, list_insert, if_pos rfl]; simp) rfl
              rw [mint_revoked hmint] at htrue
              cases htrue
          · exact (hi sub info.id).2 hrev token htoken
      | revoke id =>
          by_cases hrev : Revoked calls sub id
          · obtain ⟨token, hone, -⟩ := (hi sub id).1 hrev
            rw [Unambiguous, hone, List.length_singleton]
          · obtain ⟨hnone, -⟩ | ⟨tokens, hf, he⟩ := handle_revoke store sub id
            · rw [Unambiguous, under_eq_nil.mpr hnone]
              exact Nat.zero_le 1
            · obtain ⟨token, rest, hfilter, hfilter'⟩ := revokeFirst_same hf
              rw [Unambiguous, under, hfilter]
              cases rest with
              | nil => exact Nat.le_refl 1
              | cons other rest =>
                  -- the second token under the id is as good as before
                  have hgood := (hi sub id).2 hrev other (by rw [under, hfilter]; simp)
                  have hmem : other ∈ tokens.filter fun token => token.id = id := by
                    rw [hfilter']
                    simp
                  obtain ⟨hother, hid⟩ := List.mem_filter.mp hmem
                  have htrue := hafter sub id ((revoked_snoc hr).mpr (Or.inr ⟨rfl, by rw [he]⟩))
                    other (by rw [he, list_insert, if_pos rfl]; exact hother) (by simpa using hid)
                  rw [hgood] at htrue
                  cases htrue

/-- Revocation is complete exactly if no user revokes an id with two tokens or is
    given a token under an id that is revoked. -/
theorem revokes_iff (calls : List Call) :
    Revokes calls ↔ apiTokens.Along Unambiguous calls := by
  refine ⟨Revokes.unambiguous, fun hok => ⟨?_, ?_, ?_⟩⟩
  · rintro before after store sub id rfl hr hrev token htoken hid
    obtain ⟨token', hone, htrue⟩ := (settled hr (Lts.AlongFrom.left hok) sub id).1 hrev
    have hmem : token ∈ under store sub id := mem_under.mpr ⟨htoken, hid⟩
    rw [hone, List.mem_singleton] at hmem
    rw [hmem]
    exact htrue
  · intro before after store sub id _ _
    exact revoke_confined store sub id
  · intro before after store sub id _ _
    exact revoke_missing store sub id

/-- The digits of a random UUID of version 4. -/
def laptopSecret : Secret :=
  ⟨"1b9d6bcdbbfd4b2d9b5dab8dfbbd4bed".toList, by decide, by decide⟩

/-- The digits of another one, which begins with the same 8. -/
def serverSecret : Secret :=
  ⟨"1b9d6bcd3f2a4c019d7e5b6a7c8d9e0f".toList, by decide, by decide⟩

/-- A user creates two tokens and revokes the only id that is listed. -/
def twoTokens : List Call :=
  [("user@example.com", .create ⟨"laptop", "all"⟩ laptopSecret 0),
    ("user@example.com", .create ⟨"server", "all"⟩ serverSecret 1),
    ("user@example.com", .revoke "tnk_1b9d6bcd")]

/-- The second token stays good. -/
theorem revokes_first_only : laptopSecret ≠ serverSecret ∧ ¬ Revokes twoTokens := by
  refine ⟨by decide, fun h => ?_⟩
  obtain ⟨store, hr⟩ := exists_store twoTokens
  have hrev : Revoked twoTokens "user@example.com" "tnk_1b9d6bcd" :=
    ⟨twoTokens.take 2, [], _, rfl, rfl, by decide⟩
  have hlisted : (⟨"tnk_1b9d6bcd", "server", "all", 1, false⟩ : TokenInfo) ∈
      list store "user@example.com" := by
    cases hr
    decide
  have hrevoked := h.complete twoTokens [] store _ _ rfl hr hrev _ hlisted rfl
  cases hrevoked

end Runs

end ApiTokens

end Borehole
