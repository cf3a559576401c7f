/-
  Borehole.Server.LoginPage

  The login page of the CLI flow (`cli_login_page`, `login_html` and `html_escape` in
  crates/server/src/api/auth.rs).

  The callback comes from the query string of a page that needs no login and is put
  into a hidden field.  `html_escape` replaces one character after another in the
  whole text, ampersands first, and so writes each character once.
-/

import Borehole.Cli.Login
import Borehole.Common.Html

namespace Borehole

/-- `str::replace` of a character. -/
def replace (input : String) (c : Char) (text : String) : String :=
  String.ofList (input.toList.flatMap fun x => if x = c then text.toList else [x])

/-- Minimal HTML escape for attribute values (callback URL). -/
def htmlEscape (input : String) : String :=
  replace (replace (replace (replace input '&' "&amp;") '"' "&quot;") '<' "&lt;") '>' "&gt;"

/-- The login form up to the value of the hidden field. -/
def loginHead (error : Bool) : String :=
  let banner := if error then "<p class=\"err\">Credenciales no válidas.</p>" else ""
  "<!doctype html>
<html lang=\"es\">
<head>
<meta charset=\"utf-8\">
<meta name=\"viewport\" content=\"width=device-width, initial-scale=1\">
<title>borehole — iniciar sesión</title>
<style>
  body \x7b background:#0a0b0d; color:#e7e9ee; font-family:ui-monospace,monospace;
          display:flex; min-height:100vh; align-items:center; justify-content:center; \x7d
  form \x7b border:1px solid rgba(232,236,242,.17); background:#0d0f13; padding:28px;
          width:320px; \x7d
  h1 \x7b font-size:14px; letter-spacing:2px; text-transform:uppercase; margin:0 0 18px; \x7d
  label \x7b display:block; font-size:11px; color:#878d97; margin:14px 0 4px; \x7d
  input \x7b width:100%; background:#0a0b0d; border:1px solid rgba(232,236,242,.17);
           color:#e7e9ee; padding:8px; font-family:inherit; \x7d
  button \x7b margin-top:20px; width:100%; background:#5b8def; color:#0a0b0d; border:0;
            padding:10px; font-family:inherit; font-weight:600; cursor:pointer; \x7d
  .err \x7b color:#d76a5c; font-size:12px; margin:0 0 12px; \x7d
</style>
</head>
<body>
<form method=\"get\" action=\"/api/auth/cli\">
  <h1>borehole</h1>
  " ++ banner ++ "
  <input type=\"hidden\" name=\"callback\" value=\""

/-- The login form after the value of the hidden field and its closing quote. -/
def loginTail : String :=
  ">
  <label for=\"email\">Email</label>
  <input id=\"email\" name=\"email\" type=\"email\" autocomplete=\"username\" required>
  <label for=\"password\">Contraseña</label>
  <input id=\"password\" name=\"password\" type=\"password\" autocomplete=\"current-password\" required>
  <button type=\"submit\">Iniciar sesión</button>
</form>
</body>
</html>"

/-- Renders the minimal browser login form for the CLI flow. -/
def loginHtml (callback : String) (error : Bool) : String :=
  loginHead error ++ htmlEscape callback ++ "\"" ++ loginTail

/-- Query string for `GET /api/auth/cli`. -/
structure CliQuery where
  callback : String
  email : Option String
  password : Option String
  deriving DecidableEq, Repr

/-- The answer to `GET /api/auth/cli`. -/
inductive CliLogin where
  | redirect (url : String)
  | html (page : String)

/-- The browser login page used by `borehole login`, given whether credentials are
    valid and the token that is issued for an email.  A callback that cannot stand in a
    header is left out: for one with a control character in it `Redirect::to` panics,
    and the request is not answered. -/
def cliLoginPage (credentialsValid : String → String → Bool)
    (issueToken : String → Option (String × String)) (query : CliQuery) : CliLogin :=
  match query.email, query.password with
  | some email, some password =>
      if credentialsValid email password then
        match issueToken email with
        | some (jwt, expiresAt) =>
            .redirect (query.callback ++ "?token=" ++ Login.percentEncode jwt ++ "&expires=" ++
              Login.percentEncode expiresAt)
        | none => .html (loginHtml query.callback true)
      else .html (loginHtml query.callback true)
  | _, _ => .html (loginHtml query.callback false)

/-! ## Escaping -/

/-- A replacement acts on what each character has become. -/
theorem replace_flatMap (s : List Char) (f : Char → List Char) (c : Char) (text : String) :
    replace (String.ofList (s.flatMap f)) c text = String.ofList (s.flatMap fun x =>
      (f x).flatMap fun y => if y = c then text.toList else [y]) := by
  rw [replace, String.toList_ofList, List.flatMap_assoc]

/-- The four replacements write each character as it is or as its entity. -/
theorem htmlEscape_eq (s : String) : htmlEscape s = String.ofList (Html.escape s.toList) := by
  rw [htmlEscape, show replace s '&' "&amp;" = String.ofList (s.toList.flatMap _) from rfl,
    replace_flatMap, replace_flatMap, replace_flatMap, Html.escape]
  congr 2
  funext c
  rw [Html.escapeChar]
  by_cases hamp : c = '&'
  · subst hamp
    rfl
  by_cases hquot : c = '"'
  · subst hquot
    rfl
  by_cases hlt : c = '<'
  · subst hlt
    rfl
  by_cases hgt : c = '>'
  · subst hgt
    rfl
  -- Any other character passes through all four.
  simp only [if_neg hamp, if_neg hquot, if_neg hlt, if_neg hgt, List.flatMap_cons,
    List.flatMap_nil, List.append_nil]

theorem htmlEscape_toList (s : String) : (htmlEscape s).toList = Html.escape s.toList := by
  rw [htmlEscape_eq, String.toList_ofList]

/-- What is written for a text in an attribute: it cannot end the attribute or open a
    tag, and reading its entities gives the text back. -/
structure AttributeSafe (s written : String) : Prop where
  plain : ∀ c ∈ ['"', '<', '>'], c ∉ written.toList
  ampersands : ∀ before after, written.toList = before ++ '&' :: after →
    ∃ entity ∈ Html.entities, entity.1 <+: '&' :: after
  reversible : Html.unescape written.toList = s.toList

theorem attributeSafe_htmlEscape (s : String) : AttributeSafe s (htmlEscape s) := by
  refine ⟨fun c hc => ?_, fun before after h => ?_, ?_⟩
  · rw [htmlEscape_toList]
    exact Html.not_mem_escape hc s.toList
  · rw [htmlEscape_toList] at h
    exact Html.ampersand_escape s.toList before after h
  · rw [htmlEscape_toList, Html.unescape_escape]

/-! ## The hidden field -/

/-- A page of the login flow is the form with the callback of the query. -/
theorem cliLoginPage_html {credentialsValid : String → String → Bool}
    {issueToken : String → Option (String × String)} {query : CliQuery} {page : String}
    (h : cliLoginPage credentialsValid issueToken query = .html page) :
    ∃ error, page = loginHtml query.callback error := by
  rw [cliLoginPage] at h
  generalize loginHtml query.callback = form at h ⊢
  split at h
  · split at h
    · split at h
      · cases h
      · cases h
        exact ⟨true, rfl⟩
    · cases h
      exact ⟨true, rfl⟩
  · cases h
    exact ⟨false, rfl⟩

/-- A parser that knows the entities finds the callback in the hidden field of the
    form, and the rest of the form behind it. -/
theorem attributeValue_loginHtml {reference : List Char → Option (List Char × Nat)}
    (h : Html.ReadsEntities reference) (callback : String) (error : Bool) :
    ∃ field, (loginHtml callback error).toList = (loginHead error).toList ++ field ∧
      Html.attributeValue reference field = some (callback.toList, loginTail.toList) := by
  refine ⟨Html.escape callback.toList ++ '"' :: loginTail.toList, ?_, ?_⟩
  · rw [loginHtml, String.toList_append, String.toList_append, String.toList_append,
      htmlEscape_toList, List.append_assoc, List.append_assoc]
    rfl
  · exact Html.attributeValue_escape h callback.toList loginTail.toList

/-- Escaping is safe and reversible, so the form carries the callback, whatever it
    is. -/
theorem html_escape_safe (s : String) : AttributeSafe s (htmlEscape s) ∧
    ∀ reference, Html.ReadsEntities reference →
      ∀ credentialsValid issueToken query page, query.callback = s →
        cliLoginPage credentialsValid issueToken query = .html page →
        ∃ error field, page.toList = (loginHead error).toList ++ field ∧
          Html.attributeValue reference field = some (s.toList, loginTail.toList) := by
  refine ⟨attributeSafe_htmlEscape s, ?_⟩
  rintro reference href credentialsValid issueToken query page rfl hpage
  obtain ⟨error, rfl⟩ := cliLoginPage_html hpage
  exact ⟨error, attributeValue_loginHtml href query.callback error⟩

/-- A callback that tries to close the field and looks like an entity. -/
theorem html_escape_safe_quote :
    ∃ error field, (loginHtml "\"><b>&lt;" false).toList = (loginHead error).toList ++ field ∧
      Html.attributeValue Html.entityReference field =
        some ("\"><b>&lt;".toList, loginTail.toList) :=
  (html_escape_safe "\"><b>&lt;").2 Html.entityReference Html.readsEntities_entityReference
    (fun _ _ => false) (fun _ => none) ⟨"\"><b>&lt;", none, none⟩ _ rfl rfl

end Borehole
