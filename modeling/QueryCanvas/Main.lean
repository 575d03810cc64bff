/-
  QueryCanvas.Main

  The program: its arguments, its settings and its output. Services are out of
  its reach, since nothing here opens a connection.
-/

import QueryCanvas.CommandLine.Run
import QueryCanvas.Service.Client

namespace QueryCanvas

/-- What is found at a path. -/
def readSettingsFile (path : String) : IO SettingsFile := do
  try
    pure (.content (← IO.FS.readFile path))
  catch
    | .noFileOrDirectory .. => pure .missing
    | _ => pure .unreadable

/-- What is found at the place for the settings of a user. -/
def readUserSettings : IO SettingsFile := do
  let configured := (← IO.getEnv "XDG_CONFIG_HOME").filter (·.startsWith "/")
  let home := (← IO.getEnv "HOME").map (· ++ "/.config")
  match configured <|> home with
  | some directory => readSettingsFile (directory ++ "/" ++ userFileName)
  | none => pure .missing

def readEnvironment : IO EnvironmentSettings := do
  let present ← environmentVariables.mapM fun name => do pure (name, ← IO.getEnv name)
  pure (.of fun name => (present.find? (·.1 = name)).bind (·.2))

end QueryCanvas

open QueryCanvas

/-- Runs the program. -/
def main (arguments : List String) : IO UInt32 := do
  let settings := Settings.load (← readSettingsFile localFileName) (← readUserSettings)
    (← readEnvironment)
  let outcome ← CommandLine.run (Client.services fun _ => pure none) settings arguments
  (← IO.getStdout).putStr outcome.output
  (← IO.getStderr).putStr outcome.complaint
  pure outcome.status.toUInt32
