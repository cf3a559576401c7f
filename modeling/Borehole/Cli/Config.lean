/-
  Borehole.Cli.Config

  The CLI's configuration file (crates/cli/src/config.rs) and the two commands that
  change it (`run_config` and `run_login` in crates/cli/src/main.rs).

  Every command loads the whole file, changes some fields and writes all of them
  back.  The file is JSON, so that no value of a field can damage the others.
-/

import Borehole.Cli.Login
import Borehole.Common.Pretty
import Borehole.Conc.Lts
import Borehole.Server.History

namespace Borehole.Cli

open Json (Scalar)

/-- On-disk CLI configuration. -/
structure CliConfig where
  /-- Server control address. -/
  serverAddr : Option String
  token : Option String
  /-- Base URL of the control API. -/
  serverUrl : Option String
  jwt : Option String
  jwtExpiresAt : Option String
  deriving DecidableEq, Repr

namespace CliConfig

/-- `CliConfig::default()` -/
def new : CliConfig where
  serverAddr := none
  token := none
  serverUrl := none
  jwt := none
  jwtExpiresAt := none

/-- The members of the file's object. -/
def toMembers (c : CliConfig) : List (String × Scalar) :=
  [("server_addr", Json.ofOption .string c.serverAddr),
   ("token", Json.ofOption .string c.token),
   ("server_url", Json.ofOption .string c.serverUrl),
   ("jwt", Json.ofOption .string c.jwt),
   ("jwt_expires_at", Json.ofOption .string c.jwtExpiresAt)]

/-- The derived deserialization. -/
def ofMembers (members : List (String × Scalar)) : Option CliConfig := do
  return {
    serverAddr := ← Json.nullable Json.string? "server_addr" members
    token := ← Json.nullable Json.string? "token" members
    serverUrl := ← Json.nullable Json.string? "server_url" members
    jwt := ← Json.nullable Json.string? "jwt" members
    jwtExpiresAt := ← Json.nullable Json.string? "jwt_expires_at" members }

/-- What `serde_json::from_str` does with the pretty text of a flat object. -/
def ReadsPretty (fromStr : String → Option CliConfig) : Prop :=
  ∀ members, fromStr (String.ofList (Json.prettyText members)) = ofMembers members

/-- A deserializer of configurations by way of their members. -/
def fromStr (text : String) : Option CliConfig :=
  (Json.readObject text.toList).bind ofMembers

theorem fromStr_readsPretty : ReadsPretty fromStr := by
  intro members
  rw [fromStr, String.toList_ofList, Json.readObject_prettyText, Option.bind_some]

/-- Loads the config from the contents of the file at `path`; the default when the
    file is absent. -/
def load (fromStr : String → Option CliConfig) (path : String) (file : Option String) :
    Except String CliConfig :=
  match file with
  | none => .ok new
  | some contents =>
      match fromStr contents with
      | some config => .ok config
      | none => .error ("invalid config at " ++ path)

/-- What is written to the file. -/
def save (c : CliConfig) : String :=
  String.ofList (Json.prettyText c.toMembers)

/-- A field that is set and not empty, or a descriptive error. -/
def require (value : Option String) (error : String) : Except String String :=
  match value.filter fun s => s ≠ "" with
  | some s => .ok s
  | none => .error error

/-- The server address, which most commands need. -/
def requireServerAddr (c : CliConfig) : Except String String :=
  require c.serverAddr "no server configured; run `borehole config` first"

/-- The token, which most commands need. -/
def requireToken (c : CliConfig) : Except String String :=
  require c.token "no token configured; run `borehole config` first"

/-- The address of the dashboard, which `borehole login` needs. -/
def requireServerUrl (c : CliConfig) : Except String String :=
  require c.serverUrl "no server URL configured; run `borehole config` first"

/-- Whether the stored JWT is missing or past its expiry, given
    `DateTime::parse_from_rfc3339`. -/
def isJwtExpired (parse : String → Option DateTime) (c : CliConfig) (now : DateTime) : Bool :=
  match c.jwtExpiresAt with
  | some s =>
      match parse s with
      | some expiry => expiry ≤ now
      | none => true
  | none => true

theorem ofMembers_toMembers (c : CliConfig) : ofMembers c.toMembers = some c := by
  simp [ofMembers, toMembers, Json.nullable, Json.field]

/-- What is saved is loaded. -/
theorem load_save {fromStr : String → Option CliConfig} (hserde : ReadsPretty fromStr)
    (path : String) (c : CliConfig) : load fromStr path (some c.save) = .ok c := by
  have hread : fromStr c.save = some c := by
    rw [save, hserde, ofMembers_toMembers]
  simp only [load, hread]

end CliConfig

/-! ## `borehole config` -/

/-- The flags of `borehole config`. -/
structure ConfigFlags where
  server : Option String
  token : Option String
  url : Option String
  deriving DecidableEq, Repr

/-- What the flags change.  Without any, the user is asked for the server address
    and the token. -/
def ConfigFlags.apply (flags : ConfigFlags) (serverAnswer tokenAnswer : String) (c : CliConfig) :
    CliConfig :=
  if flags = ⟨none, none, none⟩ then
    { c with serverAddr := some (trim serverAnswer), token := some (trim tokenAnswer) }
  else
    { c with
      serverAddr := flags.server.or c.serverAddr
      token := flags.token.or c.token
      serverUrl := flags.url.or c.serverUrl }

/-- Handles `borehole config`: the new contents of the file. -/
def runConfig (fromStr : String → Option CliConfig) (path : String) (file : Option String)
    (flags : ConfigFlags) (serverAnswer tokenAnswer : String) : Except String String :=
  (CliConfig.load fromStr path file).map fun c =>
    (flags.apply serverAnswer tokenAnswer c).save

/-! ## `borehole login` -/

/-- The address of the local listener. -/
def callbackUrl (port : UInt16) : String :=
  "http://localhost:" ++ String.ofList (Nat.toDigits 10 port.toNat)

/-- `str::trim_end_matches('/')` -/
def trimEndSlashes (s : String) : String :=
  String.ofList (s.toList.reverse.dropWhile fun c => c = '/').reverse

/-- The address that the browser is opened at. -/
def loginUrl (serverUrl : String) (port : UInt16) : String :=
  trimEndSlashes serverUrl ++ "/api/auth/cli?callback=" ++ callbackUrl port

/-- What `run_login` does before it waits: the configuration that it has loaded and
    the address that it opens. -/
def beginLogin (fromStr : String → Option CliConfig) (path : String) (file : Option String)
    (port : UInt16) : Except String (CliConfig × String) := do
  let c ← CliConfig.load fromStr path file
  let serverUrl ← c.requireServerUrl
  return (c, loginUrl serverUrl port)

/-- What it does with the request line of the callback, or without one: the new
    contents of the file. -/
def finishLogin (c : CliConfig) : Option String → Except String String
  | none => .error "timed out waiting for authentication"
  | some requestLine =>
      match Login.parseCallback requestLine with
      | some (token, expires) =>
          .ok (CliConfig.save { c with jwt := some token, jwtExpiresAt := expires })
      | none => .error "authentication callback carried no token"

end Borehole.Cli
