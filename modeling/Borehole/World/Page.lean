/-
  Borehole.World.Page

  The dashboard in a browser tab: the `jwt` store (src/web/src/lib/stores.ts), the
  layout that follows it (src/web/src/routes/+layout.svelte) and the login form
  (src/web/src/routes/login/+page.svelte).

  The layout opens an event stream for every token that the store takes and closes the
  one before, so what keeps a tab to one stream is `disconnect`: whatever is open
  can be closed through it.  Answers to requests come whenever they come, also those
  of a session that is over.  Another tab may change the stored token at any time.

  The list of nodes, which no event carries, is not part of the page here.
-/

import Borehole.Conc.Lts
import Borehole.Dashboard.Store
import Borehole.World.Login

namespace Borehole

/-- An `EventSource`: the token it was opened with, and whether the page has closed
    it. -/
structure EventSource where
  token : String
  closed : Bool
  deriving DecidableEq

/-- A tab of the dashboard. -/
structure Page where
  /-- The token in `localStorage`, which all tabs share. -/
  stored : Option String
  jwt : Option String
  /-- Whether the layout is mounted. -/
  mounted : Bool
  streams : List EventSource
  /-- The stream that `disconnect` closes. -/
  disconnect : Option Nat
  /-- The tokens of the calls of `loadAll` that wait for their answers. -/
  loads : List String
  tunnels : List TunnelDto

namespace Page

/-- A token as `if (token)` sees it. -/
def truthy (token : Option String) : Option String :=
  token.filter (· ≠ "")

/-- Reads a non-expired token. -/
def initialJwt (expired : String → Bool) (stored : Option String) : Option String :=
  match truthy stored with
  | none => none
  | some token => if expired token then none else some token

/-- The subscriber of `jwt` that mirrors it to `localStorage`. -/
def persist (p : Page) : Page :=
  { p with stored := truthy p.jwt }

/-- The page is loaded, which starts from what is stored. -/
def load (expired : String → Bool) (stored : Option String) : Page :=
  persist
    { stored := stored
      jwt := initialJwt expired stored
      mounted := false
      streams := []
      disconnect := none
      loads := []
      tunnels := [] }

/-- `disconnect?.()` -/
def hangUp (p : Page) : Page :=
  match p.disconnect with
  | none => p
  | some i => { p with streams := p.streams.modify i fun s => { s with closed := true } }

/-- (Re)establishes the data feed for a given token. -/
def connect (p : Page) (token : String) : Page :=
  { p.hangUp with
    loads := p.loads ++ [token]
    streams := p.hangUp.streams ++ [⟨token, false⟩]
    disconnect := some p.hangUp.streams.length }

/-- The subscriber of `jwt` in the layout. -/
def follow (p : Page) : Page :=
  match truthy p.jwt with
  | none => { p.hangUp with disconnect := none, tunnels := [] }
  | some token => p.connect token

/-- `jwt.set(value)`, which calls the subscribers if that changes the store. -/
def setJwt (p : Page) (value : Option String) : Page :=
  if p.jwt = value then p
  else if p.mounted then (persist { p with jwt := value }).follow
  else persist { p with jwt := value }

/-- What happens to a page. -/
inductive Label where
  /-- The page is loaded again. -/
  | reload (now : DateTime)
  | mount
  | unmount
  /-- The server has accepted a login. -/
  | login (jwt : String)
  /-- A request of a page fails. -/
  | logout
  /-- The answers that a call of `loadAll` waits for. -/
  | loaded (i : Nat) (rows : List TunnelDto)
  | loadFailed (i : Nat)
  | event (i : Nat) (e : BhEvent)
  /-- Another tab writes `localStorage`. -/
  | otherTab (stored : Option String)

/-- How the page answers, given which tokens count as expired. -/
def step (expired : DateTime → String → Bool) (p : Page) : Label → Option Page
  | .reload now => some (load (expired now) p.stored)
  | .mount =>
      if p.mounted then none else some (follow { p with mounted := true, disconnect := none })
  | .unmount => if p.mounted then some { p.hangUp with mounted := false } else none
  | .login jwt => some (p.setJwt (some jwt))
  | .logout => some (p.setJwt none)
  | .loaded i rows =>
      if i < p.loads.length then some { p with loads := p.loads.eraseIdx i, tunnels := rows }
      else none
  -- a rejected token forces re-login, whichever token the store has by now
  | .loadFailed i =>
      if i < p.loads.length then some (setJwt { p with loads := p.loads.eraseIdx i } none)
      else none
  | .event i e =>
      match p.streams[i]? with
      | some ⟨_, false⟩ => some { p with tunnels := handleEvent p.tunnels e }
      | _ => none
  | .otherTab stored => some { p with stored := stored }

/-- The token that comes from outside the page. -/
def Label.token? : Label → Option String
  | .login jwt => some jwt
  | .otherTab stored => stored
  | _ => none

end Page

/-- A tab that is opened at `start`, when `stored` is in `localStorage`. -/
def page (expired : DateTime → String → Bool) (start : DateTime) (stored : Option String) :
    Conc.Lts Page Page.Label where
  init := Page.load (expired start) stored
  step := Page.step expired

namespace Page

variable {p p' : Page} {expired : DateTime → String → Bool} {start : DateTime}
  {stored : Option String} {ls : List Label} {a : Label} {token : String}

/-! ## One event stream -/

/-- What is open can be closed through `disconnect`. -/
structure Closable (p : Page) : Prop where
  last : ∀ i, p.disconnect = some i → i + 1 = p.streams.length
  only : ∀ (i : Nat) (s : EventSource), p.streams[i]? = some s → s.closed = false →
    p.disconnect = some i

/-- The stream of the session that the page has is open, and no other. -/
structure FeedInv (p : Page) : Prop where
  closable : p.Closable
  only : ∀ (i : Nat) (s : EventSource), p.streams[i]? = some s → s.closed = false →
    p.mounted = true ∧ truthy p.jwt = some s.token
  live : p.mounted = true → ∀ token, truthy p.jwt = some token →
    ∃ i, p.disconnect = some i ∧ p.streams[i]? = some ⟨token, false⟩

@[simp] theorem hangUp_jwt (p : Page) : p.hangUp.jwt = p.jwt := by
  unfold hangUp
  split <;> rfl

@[simp] theorem hangUp_stored (p : Page) : p.hangUp.stored = p.stored := by
  unfold hangUp
  split <;> rfl

@[simp] theorem hangUp_mounted (p : Page) : p.hangUp.mounted = p.mounted := by
  unfold hangUp
  split <;> rfl

@[simp] theorem hangUp_disconnect (p : Page) : p.hangUp.disconnect = p.disconnect := by
  unfold hangUp
  split <;> rfl

@[simp] theorem hangUp_loads (p : Page) : p.hangUp.loads = p.loads := by
  unfold hangUp
  split <;> rfl

@[simp] theorem hangUp_length (p : Page) : p.hangUp.streams.length = p.streams.length := by
  unfold hangUp
  split
  · rfl
  · exact List.length_modify _ _ _

/-- After `disconnect` nothing is open. -/
theorem Closable.hangUp_closed (hc : p.Closable) {i : Nat} {s : EventSource}
    (hs : p.hangUp.streams[i]? = some s) : s.closed = true := by
  cases hd : p.disconnect with
  | none =>
      rw [hangUp, hd] at hs
      cases hopen : s.closed with
      | true => rfl
      | false =>
          have hlast := hc.only i s hs hopen
          rw [hd] at hlast
          cases hlast
  | some j =>
      rw [hangUp, hd, List.getElem?_modify] at hs
      obtain ⟨s', hs', rfl⟩ := Option.map_eq_some_iff.mp hs
      by_cases hij : j = i
      · rw [if_pos hij]
      · rw [if_neg hij]
        cases hopen : s'.closed with
        | true => rfl
        | false =>
            have hlast := hc.only i s' hs' hopen
            rw [hd] at hlast
            exact absurd (Option.some.inj hlast) hij

theorem Closable.follow (hc : p.Closable) (hm : p.mounted = true) : p.follow.FeedInv := by
  unfold Page.follow
  split
  · rename_i hjwt
    refine ⟨⟨nofun, fun i s hs hopen => ?_⟩, fun i s hs hopen => ?_, fun _ token ht => ?_⟩
    · rw [hc.hangUp_closed hs] at hopen
      cases hopen
    · rw [hc.hangUp_closed hs] at hopen
      cases hopen
    · have ht : truthy p.hangUp.jwt = some token := ht
      rw [hangUp_jwt, hjwt] at ht
      cases ht
  · rename_i token hjwt
    -- what is open is the new stream
    have hnew : ∀ i s, (p.hangUp.streams ++ [(⟨token, false⟩ : EventSource)])[i]? = some s →
        s.closed = false → i = p.hangUp.streams.length ∧ s = ⟨token, false⟩ := by
      intro i s hs hopen
      rcases Nat.lt_trichotomy i p.hangUp.streams.length with hlt | heq | hgt
      · rw [List.getElem?_append_left hlt] at hs
        rw [hc.hangUp_closed hs] at hopen
        cases hopen
      · rw [heq, List.getElem?_concat_length] at hs
        exact ⟨heq, (Option.some.inj hs).symm⟩
      · have hbeyond : (p.hangUp.streams ++ [(⟨token, false⟩ : EventSource)]).length ≤ i := by
          rw [List.length_append, List.length_singleton]
          omega
        rw [List.getElem?_eq_none hbeyond] at hs
        cases hs
    refine ⟨⟨fun i hi => ?_, fun i s hs hopen => ?_⟩, fun i s hs hopen => ?_, fun _ t ht => ?_⟩
    · have hi : some p.hangUp.streams.length = some i := hi
      rw [← Option.some.inj hi, Page.connect, List.length_append]
      rfl
    · rw [(hnew i s hs hopen).1]
      rfl
    · rw [(hnew i s hs hopen).2]
      exact ⟨(hangUp_mounted p).trans hm, (congrArg truthy (hangUp_jwt p)).trans hjwt⟩
    · have ht : truthy p.hangUp.jwt = some t := ht
      rw [hangUp_jwt, hjwt] at ht
      cases ht
      exact ⟨_, rfl, List.getElem?_concat_length ..⟩

/-- A page that is not mounted has nothing open. -/
theorem FeedInv.closed (hi : p.FeedInv) (hm : p.mounted = false) {i : Nat} {s : EventSource}
    (hs : p.streams[i]? = some s) : s.closed = true := by
  cases hopen : s.closed with
  | true => rfl
  | false =>
      have hmounted := (hi.only i s hs hopen).1
      rw [hm] at hmounted
      cases hmounted

theorem FeedInv.setJwt (hi : p.FeedInv) (value : Option String) : (p.setJwt value).FeedInv := by
  unfold Page.setJwt
  split
  · exact hi
  · split
    · rename_i hm
      have hc : (persist { p with jwt := value }).Closable := ⟨hi.closable.last, hi.closable.only⟩
      exact hc.follow hm
    · rename_i hm
      have hm : p.mounted = false := Bool.eq_false_iff.mpr hm
      refine ⟨⟨hi.closable.last, hi.closable.only⟩, fun i s hs hopen => ?_, fun hmounted => ?_⟩
      · rw [hi.closed hm hs] at hopen
        cases hopen
      · have hmounted : p.mounted = true := hmounted
        rw [hm] at hmounted
        cases hmounted

theorem feedInv_load (expired : String → Bool) (stored : Option String) :
    (load expired stored).FeedInv := by
  refine ⟨⟨nofun, fun i s hs => ?_⟩, fun i s hs => ?_, nofun⟩
  · cases hs
  · cases hs

theorem FeedInv.step (hi : p.FeedInv) (h : p.step expired a = some p') : p'.FeedInv := by
  cases a with
  | reload now =>
      rw [← Option.some.inj h]
      exact feedInv_load _ _
  | mount =>
      obtain ⟨hm, he⟩ := Option.ite_none_left_eq_some.mp h
      rw [← Option.some.inj he]
      refine Closable.follow ⟨nofun, fun i s hs hopen => ?_⟩ rfl
      rw [hi.closed (Bool.eq_false_iff.mpr hm) hs] at hopen
      cases hopen
  | unmount =>
      obtain ⟨hm, he⟩ := Option.ite_none_right_eq_some.mp h
      rw [← Option.some.inj he]
      refine ⟨⟨fun i hd => ?_, fun i s hs hopen => ?_⟩, fun i s hs hopen => ?_, nofun⟩
      · have hd : p.hangUp.disconnect = some i := hd
        rw [hangUp_disconnect] at hd
        exact (hi.closable.last i hd).trans (hangUp_length p).symm
      · rw [hi.closable.hangUp_closed hs] at hopen
        cases hopen
      · rw [hi.closable.hangUp_closed hs] at hopen
        cases hopen
  | login jwt =>
      rw [← Option.some.inj h]
      exact hi.setJwt _
  | logout =>
      rw [← Option.some.inj h]
      exact hi.setJwt _
  | loaded i rows =>
      obtain ⟨-, he⟩ := Option.ite_none_right_eq_some.mp h
      rw [← Option.some.inj he]
      exact ⟨⟨hi.closable.last, hi.closable.only⟩, hi.only, hi.live⟩
  | loadFailed i =>
      obtain ⟨-, he⟩ := Option.ite_none_right_eq_some.mp h
      rw [← Option.some.inj he]
      have hrest : FeedInv { p with loads := p.loads.eraseIdx i } :=
        ⟨⟨hi.closable.last, hi.closable.only⟩, hi.only, hi.live⟩
      exact hrest.setJwt none
  | event i e =>
      rw [Page.step] at h
      split at h
      · rw [← Option.some.inj h]
        exact ⟨⟨hi.closable.last, hi.closable.only⟩, hi.only, hi.live⟩
      · cases h
  | otherTab stored =>
      rw [← Option.some.inj h]
      exact ⟨⟨hi.closable.last, hi.closable.only⟩, hi.only, hi.live⟩

theorem feedInv (h : (page expired start stored).Run ls p) : p.FeedInv :=
  Conc.Lts.Run.induct (P := fun _ p => p.FeedInv) (feedInv_load _ _)
    (fun _ _ _ _ _ hi hs => hi.step hs) h

/-! ## Where tokens come from -/

/-- The tokens that the page has. -/
structure Holds (good : String → Prop) (p : Page) : Prop where
  stored : ∀ token, truthy p.stored = some token → good token
  jwt : ∀ token, truthy p.jwt = some token → good token
  loads : ∀ token ∈ p.loads, good token

variable {good : String → Prop}

theorem truthy_some (h : truthy stored = some token) : stored = some token :=
  (Option.filter_eq_some_iff.mp h).1

theorem truthy_truthy (token : Option String) : truthy (truthy token) = truthy token := by
  cases token with
  | none => rfl
  | some t => by_cases ht : t = "" <;> simp [truthy, Option.filter, ht]

theorem truthy_initialJwt (expired : String → Bool) (stored : Option String) :
    truthy (initialJwt expired stored) = (truthy stored).filter fun token => !expired token := by
  unfold initialJwt
  cases hs : truthy stored with
  | none => rfl
  | some token =>
      have ht := hs
      rw [truthy_some hs] at ht
      by_cases he : expired token = true
      · simp [he, truthy, Option.filter]
      · simp [he, ht, Option.filter]

theorem holds_load (h : ∀ token, truthy stored = some token → good token)
    (expired : String → Bool) : (load expired stored).Holds good := by
  have hjwt : ∀ token, truthy (initialJwt expired stored) = some token → good token := by
    intro token ht
    rw [truthy_initialJwt] at ht
    exact h token (Option.filter_eq_some_iff.mp ht).1
  refine ⟨fun token ht => ?_, hjwt, nofun⟩
  have ht : truthy (truthy (initialJwt expired stored)) = some token := ht
  rw [truthy_truthy] at ht
  exact hjwt token ht

theorem Holds.follow (hi : p.Holds good) : p.follow.Holds good := by
  unfold Page.follow
  split
  · refine ⟨fun token ht => hi.stored token ?_, fun token ht => hi.jwt token ?_, fun token ht => ?_⟩
    · rw [← hangUp_stored]
      exact ht
    · rw [← hangUp_jwt]
      exact ht
    · refine hi.loads token ?_
      rw [← hangUp_loads]
      exact ht
  · rename_i jwt hjwt
    refine ⟨fun token ht => hi.stored token ?_, fun token ht => hi.jwt token ?_, fun token ht => ?_⟩
    · rw [← hangUp_stored]
      exact ht
    · rw [← hangUp_jwt]
      exact ht
    · obtain ht | ht := List.mem_append.mp ht
      · exact hi.loads token ht
      · rw [List.mem_singleton.mp ht]
        exact hi.jwt jwt hjwt

theorem Holds.setJwt (hi : p.Holds good) {value : Option String}
    (hv : ∀ token, truthy value = some token → good token) : (p.setJwt value).Holds good := by
  have hset : (persist { p with jwt := value }).Holds good := by
    refine ⟨fun token ht => hv token ?_, hv, hi.loads⟩
    rw [← truthy_truthy]
    exact ht
  unfold Page.setJwt
  split
  · exact hi
  · split
    · exact hset.follow
    · exact hset

theorem Holds.step (hi : p.Holds good) (ha : ∀ token, a.token? = some token → good token)
    (h : p.step expired a = some p') : p'.Holds good := by
  have hrest : ∀ i, Holds good { p with loads := p.loads.eraseIdx i } := fun i =>
    ⟨hi.stored, hi.jwt, fun token ht => hi.loads token (List.mem_of_mem_eraseIdx ht)⟩
  cases a with
  | reload now =>
      rw [← Option.some.inj h]
      exact holds_load hi.stored _
  | mount =>
      obtain ⟨-, he⟩ := Option.ite_none_left_eq_some.mp h
      rw [← Option.some.inj he]
      exact Holds.follow ⟨hi.stored, hi.jwt, hi.loads⟩
  | unmount =>
      obtain ⟨-, he⟩ := Option.ite_none_right_eq_some.mp h
      rw [← Option.some.inj he]
      refine ⟨fun token ht => hi.stored token ?_, fun token ht => hi.jwt token ?_,
        fun token ht => hi.loads token ?_⟩
      · rw [← hangUp_stored]
        exact ht
      · rw [← hangUp_jwt]
        exact ht
      · rw [← hangUp_loads]
        exact ht
  | login jwt =>
      rw [← Option.some.inj h]
      exact hi.setJwt fun token ht => ha token (truthy_some ht)
  | logout =>
      rw [← Option.some.inj h]
      exact hi.setJwt nofun
  | loaded i rows =>
      obtain ⟨-, he⟩ := Option.ite_none_right_eq_some.mp h
      rw [← Option.some.inj he]
      exact ⟨hi.stored, hi.jwt, (hrest i).loads⟩
  | loadFailed i =>
      obtain ⟨-, he⟩ := Option.ite_none_right_eq_some.mp h
      rw [← Option.some.inj he]
      exact (hrest i).setJwt nofun
  | event i e =>
      rw [Page.step] at h
      split at h
      · rw [← Option.some.inj h]
        exact ⟨hi.stored, hi.jwt, hi.loads⟩
      · cases h
  | otherTab stored =>
      rw [← Option.some.inj h]
      exact ⟨fun token ht => ha token (truthy_some ht), hi.jwt, hi.loads⟩

theorem run_holds (h : (page expired start stored).Run ls p)
    (hstored : ∀ token, truthy stored = some token → good token)
    (htokens : ∀ a ∈ ls, ∀ token, a.token? = some token → good token) : p.Holds good := by
  refine Conc.Lts.Run.induct (P := fun ls p =>
    (∀ a ∈ ls, ∀ token, a.token? = some token → good token) → p.Holds good)
    (fun _ => holds_load hstored _) ?_ h htokens
  intro ls p a p' _ ih hs htokens
  refine (ih fun b hb => htokens b (List.mem_append_left _ hb)).step ?_ hs
  exact htokens a (List.mem_append_right _ (List.mem_singleton.mpr rfl))

end Page

/-! ## The page and the server -/

namespace World

open Auth (Crates ClockReads Presents timestamp)

/-- A token that the server has issued. -/
def Issued (k : Crates) (secret jwt : String) : Prop :=
  ∃ email issued expiresAt, ClockReads issued ∧
    Auth.issueToken k secret email issued = some (jwt, expiresAt)

/-- A tab follows its session: one stream, which has the token of the session, and
    requests that the server grants as the user of its login for as long as the page
    takes the token to be live; loading the page again keeps the login for its 24 hours
    and no longer. -/
structure Follows (k : Crates) (r : Readers k) (secret : String) (p : Page) : Prop where
  streams : ∀ i s, p.streams[i]? = some s → (s.closed = false ↔
    p.mounted = true ∧ Page.truthy p.jwt = some s.token ∧ i + 1 = p.streams.length)
  opened : p.mounted = true → ∀ token, Page.truthy p.jwt = some token →
    ⟨token, false⟩ ∈ p.streams
  granted : ∀ token, Page.truthy p.jwt = some token ∨ token ∈ p.loads →
    ∃ email issued expiresAt, Auth.issueToken k secret email issued = some (token, expiresAt) ∧
      ∀ now, Session.isExpired r.jsonParse token now = false →
        ∀ parts, parts = Session.connectEvents token ∨ (∃ query, parts = Session.auth token query) →
          Auth.authClaims k secret now parts = .ok (Auth.claimsFor email issued)
  reload : ∀ token, Page.truthy p.stored = some token →
    ∃ email issued expiresAt, Auth.issueToken k secret email issued = some (token, expiresAt) ∧
      ∀ now p', p.step (fun now => (Session.isExpired r.jsonParse · now)) (.reload now) = some p' →
        p'.jwt = (if Session.dateNow now < (timestamp issued + 86400) * 1000 then some token
          else none) ∧ p'.stored = p'.jwt

section Page

variable {k : Crates} {secret token : String} {start : DateTime} {stored : Option String}
  {ls : List Page.Label} {p : Page}

/-- The server grants a live token as the user that it was issued to. -/
theorem Issued.granted (hk : k.Jwt) (r : Readers k) (h : Issued k secret token) :
    ∃ email issued expiresAt, Auth.issueToken k secret email issued = some (token, expiresAt) ∧
      ∀ now, Session.isExpired r.jsonParse token now = false →
        ∀ parts, parts = Session.connectEvents token ∨ (∃ query, parts = Session.auth token query) →
          Auth.authClaims k secret now parts = .ok (Auth.claimsFor email issued) := by
  obtain ⟨email, issued, expiresAt, hi, htoken⟩ := h
  obtain ⟨jwt, hencode, he⟩ := Option.map_eq_some_iff.mp htoken
  cases he
  refine ⟨email, issued, _, htoken, fun now hlive parts hparts => ?_⟩
  have hpresents : Presents token parts := by
    rcases hparts with rfl | ⟨query, rfl⟩
    · exact Session.presents_connectEvents (hk.chars hencode)
    · exact Session.presents_auth _ query
  exact (lives hk r hi htoken now).granted (Or.inl hlive) hpresents

theorem Issued.reload (hk : k.Jwt) (r : Readers k) (h : Issued k secret token)
    (hs : Page.truthy p.stored = some token) :
    ∃ email issued expiresAt, Auth.issueToken k secret email issued = some (token, expiresAt) ∧
      ∀ now p', p.step (fun now => (Session.isExpired r.jsonParse · now)) (.reload now) = some p' →
        p'.jwt = (if Session.dateNow now < (timestamp issued + 86400) * 1000 then some token
          else none) ∧ p'.stored = p'.jwt := by
  obtain ⟨email, issued, expiresAt, hi, htoken⟩ := h
  refine ⟨email, issued, expiresAt, htoken, fun now p' hstep => ?_⟩
  have hlive := (lives hk r hi htoken now).dashboard
  have htruthy : Page.truthy (some token) = some token := by
    have hself := hs
    rwa [Page.truthy_some hs] at hself
  have hjwt : p'.jwt = if Session.dateNow now < (timestamp issued + 86400) * 1000 then some token
      else none := by
    rw [← Option.some.inj hstep]
    simp only [Page.load, Page.persist, Page.initialJwt, hs]
    by_cases hnow : Session.dateNow now < (timestamp issued + 86400) * 1000
    · have hvalid := hlive.mpr hnow
      simp [hvalid, hnow]
    · have hexpired : Session.isExpired r.jsonParse token now = true := by
        rw [← Bool.not_eq_false, hlive]
        exact hnow
      simp [hexpired, hnow]
  refine ⟨hjwt, ?_⟩
  have hstored : p'.stored = Page.truthy p'.jwt := by
    rw [← Option.some.inj hstep]
    rfl
  rw [hstored, hjwt]
  split
  · exact htruthy
  · rfl

/-- Whatever happens in a tab and in the others, and in whatever order: if the server
    has issued every token that comes in, the tab has one event stream for its
    session and none without, the server grants what it asks with a live token, and a
    reload keeps exactly the sessions whose 24 hours are not over. -/
theorem page_follows (hk : k.Jwt) (r : Readers k)
    (hr : (page (fun now => (Session.isExpired r.jsonParse · now)) start stored).Run ls p)
    (hstored : ∀ token, Page.truthy stored = some token → Issued k secret token)
    (htokens : ∀ a ∈ ls, ∀ token, a.token? = some token → Issued k secret token) :
    Follows k r secret p := by
  have hfeed := Page.feedInv hr
  have hholds := Page.run_holds hr hstored htokens
  constructor
  case streams =>
    intro i s hs
    constructor
    · intro hopen
      obtain ⟨hm, hjwt⟩ := hfeed.only i s hs hopen
      exact ⟨hm, hjwt, hfeed.closable.last i (hfeed.closable.only i s hs hopen)⟩
    · rintro ⟨hm, hjwt, hlast⟩
      obtain ⟨j, hd, hj⟩ := hfeed.live hm s.token hjwt
      have hij : i = j := by
        have := hfeed.closable.last j hd
        omega
      rw [hij, hj] at hs
      rw [← Option.some.inj hs]
  case opened =>
    intro hm token hjwt
    obtain ⟨i, -, hi⟩ := hfeed.live hm token hjwt
    exact List.mem_of_getElem? hi
  case granted =>
    rintro token (hjwt | hload)
    · exact (hholds.jwt token hjwt).granted hk r
    · exact (hholds.loads token hload).granted hk r
  case reload =>
    intro token hs
    exact (hholds.stored token hs).reload hk r hs

/-- Ana opens the dashboard, logs in and loads the page again. -/
theorem page_follows_ana : ∃ jwt expiresAt p,
    Auth.issueToken Auth.sample "secret" "ana@example.com" 0 = some (jwt, expiresAt) ∧
      (page (fun now => (Session.isExpired sampleReaders.jsonParse · now)) 0 none).Run
        [.mount, .login jwt, .reload 1000000000, .mount] p ∧
      Follows Auth.sample sampleReaders "secret" p := by
  obtain ⟨⟨jwt, expiresAt⟩, h⟩ : ∃ x,
      Auth.issueToken Auth.sample "secret" "ana@example.com" 0 = some x := ⟨_, rfl⟩
  obtain ⟨p, hr⟩ : ∃ p,
      (page (fun now => (Session.isExpired sampleReaders.jsonParse · now)) 0 none).Run
        [.mount, .login jwt, .reload 1000000000, .mount] p := ⟨_, rfl⟩
  refine ⟨jwt, expiresAt, p, h, hr, page_follows Auth.sample_jwt sampleReaders hr nofun ?_⟩
  intro a ha token htoken
  have hissued : Issued Auth.sample "secret" jwt := ⟨_, 0, _, ⟨by decide, by decide⟩, h⟩
  simp only [List.mem_cons, List.not_mem_nil, or_false] at ha
  rcases ha with rfl | rfl | rfl | rfl
  · cases htoken
  · cases htoken
    exact hissued
  · cases htoken
  · cases htoken

end Page

end World

end Borehole
