/-
  QueryCanvas.Settings.Load

  Where settings come from: a file in the working directory, else one in the
  user's configuration directory, else the defaults. Environment variables go
  before all of them.
-/

import QueryCanvas.Wire.Settings

namespace QueryCanvas

/-- What the environment says about the settings. -/
structure EnvironmentSettings where
  queryUrl : Option String
  prefixServiceUrl : Option String
  baseNamespace : Option String
deriving DecidableEq, Repr

/-- The name of the settings file in the working directory. -/
def localFileName : String := "visparql.toml"

/-- The place of the settings file in the user's configuration directory. -/
def userFileName : String := "visparql/config.toml"

/-- What is found at a place where a settings file may be. -/
inductive SettingsFile
  | missing
  | unreadable
  | content (text : String)
deriving DecidableEq, Repr

/-- The variables of the environment that hold settings. -/
def environmentVariables : List String :=
  ["VISPARQL_ENDPOINT", "VISPARQL_PREFIX_URL", "VISPARQL_BASE_NAMESPACE"]

/-- The settings of the environment, given a way to look up its variables. -/
def EnvironmentSettings.of (lookup : String → Option String) : EnvironmentSettings :=
  ⟨lookup "VISPARQL_ENDPOINT", lookup "VISPARQL_PREFIX_URL", lookup "VISPARQL_BASE_NAMESPACE"⟩

namespace Settings

/-- The settings with those of the environment in front. -/
def override (s : Settings) (env : EnvironmentSettings) : Settings :=
  { s with
    endpoint := { s.endpoint with queryUrl := env.queryUrl.getD s.endpoint.queryUrl }
    prefixService := { s.prefixService with url := env.prefixServiceUrl.getD s.prefixService.url }
    baseNamespace := env.baseNamespace.getD s.baseNamespace }

/-- The settings after the environment had its say, if they are usable. -/
def conclude (s : Settings) (env : EnvironmentSettings) : Except SettingsError Settings :=
  let s := s.override env
  s.validate.map fun _ => s

def ofFile (file : SettingsFile) (env : EnvironmentSettings) : Except SettingsError Settings :=
  match file with
  | .missing | .unreadable => .error .unreadable
  | .content text =>
    match read? text with
    | none => .error .malformed
    | some s => s.conclude env

/-- The settings of the first file that exists, else the defaults. -/
def load (localFile userFile : SettingsFile) (env : EnvironmentSettings) :
    Except SettingsError Settings :=
  match localFile, userFile with
  | .missing, .missing => Settings.default.conclude env
  | .missing, file => ofFile file env
  | file, _ => ofFile file env

end Settings

end QueryCanvas
