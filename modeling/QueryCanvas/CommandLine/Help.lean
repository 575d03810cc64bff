/-
  QueryCanvas.CommandLine.Help

  The commands of the program, and the pages that explain them.
-/

import QueryCanvas.Settings.Basic
import QueryCanvas.Text.Cut

namespace QueryCanvas.CommandLine

/-! ## Topics -/

/-- What there is help about: the program and each of its commands. -/
inductive Topic
  | program
  | config
  | ontology
  | suggest
  | serve
  | help
deriving DecidableEq, Repr

namespace Topic

/-- The commands, in the order in which they are listed. -/
def commands : List Topic := [config, ontology, suggest, serve, help]

/-- How a command is called. -/
def name : Topic → String
  | program => "visparql"
  | config => "config"
  | ontology => "ontology"
  | suggest => "suggest"
  | serve => "serve"
  | help => "help"

/-- The command with a name. -/
def ofName? (s : String) : Option Topic := commands.find? (·.name = s)

/-- What a command does, in one line. -/
def about : Topic → String
  | program => "Visual SPARQL query builder"
  | config => "Print the default configuration"
  | ontology => "Load the ontology and list its facts"
  | suggest => "List edge suggestions for a node"
  | serve => "Start the graph editor server"
  | help => "Print this message or the help of the given subcommand(s)"

/-- What may stand behind a command. -/
def arguments : Topic → String
  | program => " <COMMAND>"
  | config | ontology => ""
  | suggest => " <CLASS>"
  | serve => " [OPTIONS]"
  | help => " [COMMAND]..."

/-- How a command line with the command looks. -/
def usage (t : Topic) : String :=
  program.name ++ (if t = program then "" else " " ++ t.name) ++ t.arguments

end Topic

/-! ## Pages -/

/-- A part of a page: a title over words and their meanings. -/
structure Section where
  title : String
  rows : List (String × String)
deriving DecidableEq, Repr

/-- A text with blanks behind it, up to the given width. -/
def padded (width : Nat) (s : String) : String :=
  s ++ String.ofList (List.replicate (width - s.length) ' ')

/-- A part of a page with its meanings in one column. -/
def Section.text (s : Section) : String :=
  let width := (s.rows.map (·.1.length)).foldl max 0
  "\n" ++ s.title ++ ":\n"
    ++ String.join (s.rows.map fun (word, meaning) =>
      "  " ++ padded width word ++ "  " ++ meaning ++ "\n")

def helpRow : String × String := ("-h, --help", "Print help")

def portRow : String × String :=
  ("-p, --port <PORT>", "Port to listen on [default: " ++ toString defaultPort ++ "]")

namespace Topic

/-- The parts of the page about a topic. -/
def sections : Topic → List Section
  | program =>
    [⟨"Commands", commands.map fun t => (t.name, t.about)⟩, ⟨"Options", [helpRow]⟩]
  | config | ontology => [⟨"Options", [helpRow]⟩]
  | suggest =>
    [⟨"Arguments", [("<CLASS>", "Node content, e.g. `Person` or a full IRI")]⟩,
      ⟨"Options", [helpRow]⟩]
  | serve => [⟨"Options", [portRow, helpRow]⟩]
  | help => [⟨"Arguments", [("[COMMAND]...", "Print help for the subcommand(s)")]⟩]

def page (t : Topic) : String :=
  t.about ++ "\n\nUsage: " ++ t.usage ++ "\n" ++ String.join (t.sections.map Section.text)

end Topic

end QueryCanvas.CommandLine
