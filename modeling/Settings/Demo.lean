import Settings.Binding.Catalogue
import Settings.Stock.Accessors
import Settings.Stock.Functions

/-!
# A demonstration

A small tree of settings that shows every kind of entry: two links at the root, one type of object
with linked settings, an accessor and two members, an instance of it, and a few functions.

    output = run.dat;
    seed = 1;
    world = {
      pop = { .. }    // an instance of Population
    }
-/

set_option autoImplicit false

namespace Settings

namespace Demo

/-! ## Populations -/

/-- A group of organisms: how many there are, a label, and a mutation rate. -/
def populationTag : TypeTag := ⟨"Population"⟩

def u64 (n : Int) : (HostType.int .u64).Carrier := IntType.clamp .u64 n

def hundredth : Double := Binary.ofDecimal false 1 (-2)

/-- The settings of a population. The rate can also be read and set as a percentage. -/
def populationSetup (o : Object) : List SetupStep :=
  match o.fields with
  | [size, label, rate] =>
      [⟨.top, "size", "Number of organisms",
          .content (.linked (.var (.int .u64) size) (u64 100)),
          [.min (Binary.ofInt 1), .integerOnly true]⟩,
        ⟨.top, "label", "Name used in reports",
          .content (.linked (.var .text label) "founders"), []⟩,
        ⟨.top, "mutation_rate", "Per-site mutation probability",
          .content (.linked (.var .double rate) hundredth),
          [.min Binary.zero, .max (Binary.ofInt 1)]⟩,
        ⟨.top, "mutation_percent", "Mutation rate as a percentage",
          .content (.linked (.accessor (.percent rate)) (Binary.ofInt 1 : Double)),
          [.min Binary.zero, .max (Binary.ofInt 100)]⟩]
  | _ => []

def populationType : ObjectType where
  tag := populationTag
  initial := [⟨.int .u64, u64 0⟩, ⟨.text, ""⟩, ⟨.double, (Binary.zero : Double)⟩]
  setup := populationSetup

/-- Adds organisms, up to the greatest size there is, and tells the new size. -/
def grow : Method :=
  .fixed populationTag [.value (.int .u64)] fun o (n, ()) s =>
    let size := IntType.Value.toInt (t := .u64) (o.read 0 (.int .u64) s)
    let grown := IntType.clamp .u64 (size + IntType.Value.toInt (t := .u64) n)
    (.ok (.int grown), o.write 0 (.int .u64) grown s)

def describe : Method :=
  .fixed populationTag [] fun o () s =>
    let label : String := o.read 1 .text s
    let size := (HostType.int .u64).toText (o.read 0 (.int .u64) s)
    let rate := HostType.double.toText (o.read 2 .double s)
    (.ok (.text (label ++ " (" ++ size ++ " organisms, mutation rate " ++ rate ++ ")")), s)

def catalogue : Except BindError Catalogue := do
  let c ← Catalogue.empty.register "Population" "A group of organisms" populationType
  let c ← c.addMember "Population" "grow" grow "Add organisms; returns the new size"
  c.addMember "Population" "describe" describe "One-line summary"

/-! ## The tree -/

structure Handles where
  catalogue : Catalogue
  output : VariableId
  seed : VariableId
  population : Instance

/-- The ratio of a circle's circumference to its diameter. -/
def pi : Double := Binary.ofDecimal false 3141592653589793 (-15)

def rootFunctions : List (String × Function × String × Bool) :=
  [("add", Stock.add "add", "Sum two numbers", false),
    ("concat", Stock.concat "concat", "Join two strings", false),
    ("pi", Stock.constant (.number pi) "pi", "The constant pi", false),
    ("max", Stock.largest, "Largest numeric argument", false),
    ("count", Stock.count, "Number of arguments", true)]

def defineAll (scope : EntryId) : List (String × Function × String × Bool) → Action TreeError Unit
  | [] => return ()
  | (name, f, description, builtin) :: more => do
      discard (Session.define scope name f description builtin)
      defineAll scope more

/-- Builds the tree in a new session. -/
def build : Action BindError Handles := do
  let catalogue ← Action.orFail catalogue
  let root := Table.root
  let output ← Session.newVariable ⟨.text, ""⟩
  let id ← (Session.register root "output" "File to write results to"
    (.linked (.var .text output) "run.dat")).mapError .tree
  Session.ask (.edit id (.kind .filename))
  let seed ← Session.newVariable ⟨.int .u64, u64 0⟩
  let id ← (Session.register root "seed" "Random number seed"
    (.linked (.var (.int .u64) seed) (u64 1))).mapError .tree
  Session.ask (.edit id (.integerOnly true))
  let world ← (Session.register root "world" "World settings" (.scope "")).mapError .tree
  let population ← Session.instantiate catalogue "Population" world "pop" "Main population"
  (defineAll root rootFunctions).mapError .tree
  return ⟨catalogue, output, seed, population⟩

/-- The demonstration in a session of its own. -/
def start : Attempt BindError Handles × Session := build.run (.ofTable .new)

end Demo

end Settings
