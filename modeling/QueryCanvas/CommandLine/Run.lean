/-
  QueryCanvas.CommandLine.Run

  Doing what a command line asks for.
-/

import QueryCanvas.CommandLine.Arguments
import QueryCanvas.Session.Network
import QueryCanvas.Settings.Load

namespace QueryCanvas.CommandLine

/-! ## How a run ends -/

/-- What a run leaves behind. -/
structure Outcome where
  /-- Zero if all went well. -/
  status : Nat
  output : String
  /-- What is said about a failure, apart from the output. -/
  complaint : String
deriving DecidableEq, Repr

namespace Outcome

/-- All went well. -/
def success (output : String) : Outcome := ⟨0, output, ""⟩

/-- Something outside the command line went wrong. -/
def failure (message : String) : Outcome := ⟨1, "", "Error: " ++ message ++ "\n"⟩

/-- The end of a run that was not begun. The page of the program goes with the complaint where the
    command is missing. -/
def ofEnding : Ending → Outcome
  | .help topic => success topic.page
  | .misuse .noCommand => ⟨2, "", Topic.program.page⟩
  | .misuse misuse => ⟨2, "", "error: " ++ misuse.message ++ "\n"⟩

end Outcome

/-! ## Listings -/

/-- Lines of output. -/
def lines (l : List String) : String := String.join (l.map (· ++ "\n"))

def factLine (f : Fact) : String :=
  f.property.qualifiedName ++ "  " ++ f.domain.qualifiedName ++ " -> " ++ f.range.qualifiedName

/-- The facts that were loaded, and what was skipped. -/
def factListing (facts : List Fact) (report : LoadReport) : String :=
  lines (facts.map factLine) ++ "\n"
    ++ lines ((toString report.loaded ++ " facts loaded, " ++ toString report.skipped.length
        ++ " bindings skipped")
      :: report.skipped.map fun m => "  skipped: " ++ m.message)

def suggestionLine (s : Suggestion) : String := "  [" ++ toString s.index ++ "] " ++ s.label

def suggestionListing (content : String) (suggestions : List Suggestion) : String :=
  if suggestions.isEmpty then lines ["No suggestions for '" ++ content ++ "'."]
  else lines (suggestions.map suggestionLine)

/-! ## Runs -/

variable {m : Type → Type} [Monad m]

/-- A new session with the ontology loaded, and what came of the load. -/
def loadedSession (services : Services m) (s : Settings) :
    m (Session × Except SessionError LoadReport) :=
  (Session.new s.baseNamespace s.sizes).loadOntology services

/-- Loads the ontology and lists its facts. -/
def listFacts (services : Services m) (s : Settings) : m Outcome := do
  match ← loadedSession services s with
  | (_, .error error) => pure (.failure error.message)
  | (session, .ok report) => pure (.success (factListing session.ontology.facts report))

/-- Lists the suggestions for a new node. -/
def listSuggestions (services : Services m) (s : Settings) (content : String) : m Outcome := do
  match ← loadedSession services s with
  | (_, .error error) => pure (.failure error.message)
  | (session, .ok _) =>
    let (session, _) :=
      session.edit (·.createNode ⟨0.0, 0.0⟩ (.ofContent content) content)
    pure (.success (suggestionListing content session.suggestions))

/-- Does what is asked for. `connect` reaches the services that the settings name. -/
def execute (connect : Settings → Services m) (settings : Except SettingsError Settings)
    (invocation : Invocation) : m Outcome :=
  match invocation, settings with
  | .showDefaults, _ => pure (.success Settings.default.write)
  | _, .error error => pure (.failure error.message)
  | .listFacts, .ok s => listFacts (connect s) s
  | .suggest content, .ok s => listSuggestions (connect s) s content
  | .serve port, .ok _ => pure (.failure ("cannot listen on port " ++ toString port))

/-- Runs the program on a command line. -/
def run (connect : Settings → Services m) (settings : Except SettingsError Settings)
    (arguments : List String) : m Outcome :=
  match parse arguments with
  | .error ending => pure (.ofEnding ending)
  | .ok invocation => execute connect settings invocation

end QueryCanvas.CommandLine
