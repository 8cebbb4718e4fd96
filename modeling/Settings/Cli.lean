import Settings.Demo
import Settings.Script

/-!
# The command line

Two commands work on the demonstration: one prints it, with some settings assigned first, and one
calls a function of it. What a run prints and the code it ends with are a value; only the program
around it does the printing.

Printing is all or nothing. Options are read before anything is assigned, and assignments are made
before anything is printed, so a run that fails prints nothing on standard output.
-/

set_option autoImplicit false

namespace Settings

namespace Cli

structure Output where
  code : Nat
  stdout : String
  stderr : String
  deriving DecidableEq

def lines (texts : List String) : String := String.join (texts.map fun text => text ++ "\n")

def Output.success (stdout : String) : Output := ⟨0, stdout, ""⟩

def Output.failure (messages : List String) : Output := ⟨1, "", lines messages⟩

def usage : String := lines
  ["Knob - configuration symbol tables",
    "",
    "Usage: knob <command> [options]",
    "",
    "Commands:",
    "  example [--column N] [--set path=value]...",
    "                         Print the demo configuration",
    "  call <path> [args...]  Call a demo function, e.g. \x60knob call world.pop.grow 5\x60",
    "  help                   Show this message",
    "",
    "Set RUST_LOG=knob_symbols=debug to trace registration and calls."]

/-! ## Options -/

structure Options where
  column : Nat
  assignments : List String

/-- A column: a whole number of machine size. -/
def column? (text : String) : Option Nat :=
  ((intNumeral? false text.toList).bind (IntType.ofInt? .usize)).map fun v => v.toInt.toNat

/-- Reads options in order. A later column takes the place of an earlier one. -/
def options (so : Options) : List String → Except (List String) Options
  | [] => .ok so
  | "--column" :: value :: rest =>
      match column? value with
      | some n => options { so with column := n } rest
      | none => .error ["error: --column expects a number, found '" ++ value ++ "'"]
  | "--set" :: value :: rest => options { so with assignments := so.assignments ++ [value] } rest
  | other :: _ =>
      .error ["error: unexpected argument '" ++ other ++ "'",
        "Usage: knob example [--column N] [--set path=value]..."]

/-! ## Commands -/

def message {ε : Type} (wording : ε → String) : Failure ε → String
  | .fault x => x.message
  | .error e => wording e

/-- Runs a step on the demonstration; its failure is the run's. -/
def onDemo (step : Action ScriptError Output) : Output :=
  match Demo.start with
  | (.error e, _) =>
      .failure ["error: failed to build demo configuration: " ++ message BindError.message e]
  | (.ok _, s) =>
      match (step.run s).1 with
      | .ok output => output
      | .error e => .failure ["error: " ++ message ScriptError.message e]

def assignAll : List String → Action ScriptError Unit
  | [] => return ()
  | assignment :: rest => do
      Session.assign Table.root assignment
      assignAll rest

/-- The warning about an entry whose value it does not accept. -/
def warning (s : Session) (id : EntryId) : Except Fault String := do
  let value := match s.table.readText s.store id with
    | .ok text => text
    | .error _ => ""
  return "warning: " ++ (← s.table.pathOf id) ++ " = " ++ value ++ " is outside its allowed range"

/-- What is printed of a session: the listing, and warnings about values out of range. -/
def report (column : Nat) (s : Session) : Except Fault Output := do
  let listing ← s.table.listingOfContents s.store Table.root "" column
  let warnings ← (← s.table.validate s.store Table.root).mapM (warning s)
  return ⟨0, String.join listing, lines warnings⟩

/-- Prints the demonstration. Current values are recorded first, so that they are shown and not the
defaults. -/
def example? (so : Options) : Output :=
  onDemo do
    assignAll so.assignments
    Session.ask (.updateDefault Table.root)
    Action.reading fun s => Attempt.ofFault (report so.column s)

/-- Calls a function of the demonstration. Its failure is printed here and not by the channel. -/
def call (path : String) (literals : List String) : Output :=
  onDemo do
    .ofFunction fun s => (.ok (), { s with channel := .silent })
    return .success (lines [← Session.callPath Table.root path literals])

/-- The run with some arguments, the program's own name not among them. -/
def run : List String → Output
  | [] => .success usage
  | "example" :: rest =>
      match options ⟨Listing.defaultColumn, []⟩ rest with
      | .ok so => example? so
      | .error messages => .failure messages
  | ["call"] => .failure ["Usage: knob call <path> [args...]"]
  | "call" :: path :: literals => call path literals
  | "help" :: _ => .success usage
  | "--help" :: _ => .success usage
  | "-h" :: _ => .success usage
  | other :: _ => ⟨1, usage, lines ["error: unknown command '" ++ other ++ "'"]⟩

end Cli

end Settings
