/-
  QueryCanvas.CommandLine.Arguments

  What a command line asks for.

  Arguments are read from left to right, and the first one that settles the
  matter does: a wrong one, or one that asks for help. Behind `--` nothing is
  an option any more.
-/

import QueryCanvas.CommandLine.Help
import QueryCanvas.Text.Scan

namespace QueryCanvas.CommandLine

open QueryCanvas.Text

/-! ## What can be asked for -/

/-- What the program is to do. -/
inductive Invocation
  /-- Show the settings that hold if nothing else is said. -/
  | showDefaults
  /-- Load the ontology and list its facts. -/
  | listFacts
  /-- List the suggestions for a node with the given content. -/
  | suggest (content : String)
  | serve (port : Nat)
deriving DecidableEq, Repr

/-- What is wrong with a command line. -/
inductive Misuse
  | noCommand
  | unknownCommand (name : String)
  | unexpected (argument : String)
  | missing (name : String)
  | badPort (text : String)
  /-- The port is given a second time. -/
  | secondPort
deriving DecidableEq, Repr

/-- The wording for a misuse. -/
def Misuse.message : Misuse → String
  | noCommand => "a command is missing"
  | unknownCommand name => "there is no command " ++ name
  | unexpected argument => "the argument " ++ argument ++ " is out of place"
  | missing name => "an argument is missing: " ++ name
  | badPort text => text ++ " is not a port"
  | secondPort => "the port is given twice"

/-- Why a command line asks for nothing to be done. -/
inductive Ending
  /-- It asks for help. -/
  | help (topic : Topic)
  | misuse (misuse : Misuse)
deriving DecidableEq, Repr

/-! ## Sorts of arguments -/

/-- A number of 16 bits in digits, perhaps behind a sign. -/
def parsePort? (s : String) : Option Nat :=
  let (digits, bound) := match s.toList with
    | '+' :: cs => (cs, 0x10000)
    | '-' :: cs => (cs, 1)
    | cs => (cs, 0x10000)
  if digits.isEmpty || !digits.all Char.isDigit then none
  else
    let n := digitsValue 10 digits
    if n < bound then some n else none

/-- What an argument is by its form. -/
inductive Form
  /-- Two hyphens, behind which there are no options. -/
  | barrier
  | help
  | port (value : Option String)
  | unknownOption
  | value
deriving DecidableEq, Repr

/-- The form of an argument that starts with two hyphens, given what follows them. -/
def longForm (topic : Topic) (cs : List Char) : Form :=
  let name := String.ofList (cs.takeWhile (· ≠ '='))
  let value := (cutAtFirst? '=' cs).map fun parts => String.ofList parts.2
  if name = "help" && value.isNone then .help
  else if topic = .serve && name = "port" then .port value
  else .unknownOption

/-- The form of an argument that starts with one hyphen, given the letter behind it and the rest. A
    value may follow its letter at once or behind an equals sign. -/
def shortForm (topic : Topic) (c : Char) (cs : List Char) : Form :=
  if c = 'h' then .help
  else if topic = .serve && c = 'p' then
    match cs with
    | [] => .port none
    | '=' :: rest => .port (some (String.ofList rest))
    | cs => .port (some (String.ofList cs))
  else .unknownOption

/-- The form of an argument of a command. A single hyphen is a value. -/
def Form.of (topic : Topic) (argument : String) : Form :=
  match argument.toList with
  | ['-', '-'] => .barrier
  | '-' :: '-' :: cs => longForm topic cs
  | '-' :: c :: cs => shortForm topic c cs
  | _ => .value

/-! ## Reading -/

/-- The arguments of a command that were read so far. -/
structure Arguments where
  content : Option String
  port : Option Nat
deriving DecidableEq, Repr

/-- Takes an argument that is no option. Only one command has such an argument. -/
def Arguments.takeValue (topic : Topic) (a : Arguments) (argument : String) :
    Except Ending Arguments :=
  if topic = .suggest && a.content.isNone then .ok { a with content := some argument }
  else .error (.misuse (.unexpected argument))

/-- Takes the value of the option for the port. -/
def Arguments.takePort (a : Arguments) (text : String) : Except Ending Arguments :=
  if a.port.isSome then .error (.misuse .secondPort)
  else
    match parsePort? text with
    | some port => .ok { a with port := some port }
    | none => .error (.misuse (.badPort text))

def Arguments.read (topic : Topic) (a : Arguments) : List String → Except Ending Arguments
  | [] => .ok a
  | argument :: rest =>
    match Form.of topic argument with
    | .barrier => rest.foldlM (Arguments.takeValue topic) a
    | .help => .error (.help topic)
    | .unknownOption => .error (.misuse (.unexpected argument))
    | .value => do Arguments.read topic (← a.takeValue topic argument) rest
    | .port (some text) => do Arguments.read topic (← a.takePort text) rest
    | .port none =>
      match rest with
      | [] => .error (.misuse (.missing "<PORT>"))
      -- what has the form of an option is none of its values
      | text :: rest =>
        if Form.of topic text = .value then do Arguments.read topic (← a.takePort text) rest
        else .error (.misuse (.missing "<PORT>"))

/-- What a command with its arguments asks for. -/
def Arguments.conclude (topic : Topic) (a : Arguments) : Except Ending Invocation :=
  match topic with
  | .config => .ok .showDefaults
  | .ontology => .ok .listFacts
  | .suggest => (a.content.map Invocation.suggest).elim (.error (.misuse (.missing "<CLASS>"))) .ok
  | .serve => .ok (.serve (a.port.getD defaultPort))
  | .program | .help => .error (.misuse .noCommand)

/-- The page that is asked for behind the command for help. -/
def helpEnding : List String → Ending
  | [] => .help .program
  | [name] => ((Topic.ofName? name).map Ending.help).getD (.misuse (.unknownCommand name))
  | _ :: name :: _ => .misuse (.unknownCommand name)

/-- What a command line asks for. -/
def parse : List String → Except Ending Invocation
  | [] => .error (.misuse .noCommand)
  | argument :: rest =>
    match Topic.ofName? argument with
    | some .help => .error (helpEnding rest)
    | some topic => do (← Arguments.read topic ⟨none, none⟩ rest).conclude topic
    | none =>
      match Form.of .program argument with
      | .help => .error (.help .program)
      | _ => .error (.misuse (.unknownCommand argument))

end QueryCanvas.CommandLine
