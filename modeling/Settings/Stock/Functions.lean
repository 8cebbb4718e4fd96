import Settings.Function

/-!
# Functions in stock

Ready-made functions that a host can bind as they are: arithmetic and text, functions that answer
in the form they were asked in, and functions of whole argument lists, some of which work on the
table that they are called from.
-/

set_option autoImplicit false

namespace Settings

namespace Stock

/-- A result that no host variable has a part in. -/
def answer (r : Returned) : StateM Store (Except CallError Returned) := pure (.ok r)

/-- An error that no host variable has a part in. -/
def refuse (e : CallError) : StateM Store (Except CallError Returned) := pure (.error e)

/-- A value of a host type as a result. -/
def returned : (t : HostType) → t.Carrier → Returned
  | .int _, v => .number (IntType.Value.toNumber v)
  | .single, x => .number (Binary.convert (x : Single))
  | .double, x => .number x
  | .bool, b => .bool b
  | .text, s => .text s

/-! ## Functions of values -/

/-- The argument as it is, once it has been read as a value of the type. -/
def echo (t : HostType) (name : String) : Function :=
  .fixed name [.value t] fun (x, ()) => answer (returned t x)

def text (t : HostType) (name : String) : Function :=
  .fixed name [.value t] fun (x, ()) => answer (.text (t.toText x))

def constant (r : Returned) (name : String) : Function := .fixed name [] fun () => answer r

def neg (name : String) : Function :=
  .fixed name [.value .double] fun (x, ()) => answer (.number (Binary.neg (x : Double)))

def not (name : String) : Function :=
  .fixed name [.value .bool] fun (b, ()) => answer (.bool (!b))

/-- The argument's own entry. -/
def ident (name : String) : Function := .fixed name [.entry] fun (id, ()) => answer (.entry id)

/-- The square root; the call fails for a negative number. -/
def sqrt (name : String) : Function :=
  .fixed name [.value .double] fun (x, ()) =>
    if Binary.lt (x : Double) Binary.zero then refuse (.notCallable "sqrt")
    else answer (.number (Binary.sqrt (x : Double)))

def add (name : String) : Function :=
  .fixed name [.value .double, .value .double] fun (x, y, ()) =>
    answer (.number (Binary.add (x : Double) y))

def concat (name : String) : Function :=
  .fixed name [.value .text, .value .text] fun (a, b, ()) => answer (.text (String.append a b))

def first (name : String) : Function :=
  .fixed name [.entry, .entry] fun (a, _, ()) => answer (.entry a)

def second (name : String) : Function :=
  .fixed name [.entry, .entry] fun (_, b, ()) => answer (.entry b)

/-- The sum of three integers, wrapping around. -/
def sum3 (name : String) : Function :=
  let i32 : Param := .value (.int .i32)
  .fixed name [i32, i32, i32] fun (a, b, c, ()) =>
    let sum := IntType.Value.toInt (t := .i32) a + IntType.Value.toInt (t := .i32) b
      + IntType.Value.toInt (t := .i32) c
    answer (.int (IntType.wrap .i32 sum))

def barred (parts : List String) : Returned := .text ("|".intercalate parts)

def join4 (name : String) : Function :=
  .fixed name [.value .text, .value .text, .value .text, .value .text]
    fun (a, b, c, d, ()) => answer (barred [a, b, c, d])

def mix5 (name : String) : Function :=
  .fixed name [.value .double, .value (.int .i64), .value .bool, .value .text, .value (.int .u8)]
    fun (a, b, c, d, e, ()) =>
      answer (barred [HostType.double.toText a, (HostType.int .i64).toText b,
        HostType.bool.toText c, d, (HostType.int .u8).toText e])

/-- The texts of arguments of five types, and the number of the sixth argument's entry. -/
def mix6 (name : String) : Function :=
  .fixed name [.value (.int .u16), .value (.int .i8), .value .single, .value (.int .usize),
      .value .bool, .entry]
    fun (a, b, c, d, e, id, ()) =>
      answer (barred [(HostType.int .u16).toText a, (HostType.int .i8).toText b,
        HostType.single.toText c, (HostType.int .usize).toText d, HostType.bool.toText e,
        natText (EntryId.index id)])

/-! ## Functions of argument lists -/

/-- Goes on with the largest of `best` and the arguments that can be read as numbers. -/
def largestOf (best : Double) : List EntryId → Body
  | [] => .finish (.ok (.number best))
  | id :: ids => .ask (.readNumber id) fun
      | .ok x => largestOf (best.larger x) ids
      | .error _ => largestOf best ids

/-- The largest argument that is a number; of zeros of both signs, the last. -/
def largest : Function := .variadic (largestOf (.infinite true))

def count : Function :=
  .variadic fun args => .finish (.ok (.number (Binary.ofInt args.length)))

/-- Goes on with the texts so far and those of the arguments that have one. -/
def joinOf (texts : List String) : List EntryId → Body
  | [] => .finish (.ok (.text (",".intercalate texts)))
  | id :: ids => .ask (.readText id) fun
      | .ok text => joinOf (texts ++ [text]) ids
      | .error _ => joinOf texts ids

/-- The texts of the arguments that have one, with commas between them. -/
def join : Function := .variadic (joinOf [])

/-- Ends a call with a table function's error about its number of arguments. -/
def wrongCount (name : String) (expected : Nat) (args : List EntryId) : Body :=
  .done (.error (.arityMismatch name expected args.length))

/-- Calls the first argument with the others. -/
def applyFirst : Function :=
  .variadic fun
    | f :: args => .invoke f args .done
    | [] => wrongCount "apply" 1 []

def cloneFirst : Function :=
  .variadic fun
    | id :: _ => .ask (.clone id) fun copy => .done (.ok copy)
    | [] => wrongCount "clone_of" 1 []

/-- Copies the value of the second argument to the first, and tells whether it could. -/
def storeSecond : Function :=
  .variadic fun
    | [target, source] => .ask (.copy target source) fun ok => .finish (.ok (.bool ok))
    | args => wrongCount "store" 2 args

/-- Releases arguments in order and goes on to count those that were temporaries. -/
def freeOf (freed : Nat) : List EntryId → Body
  | [] => .finish (.ok (.number (Binary.ofInt freed)))
  | id :: ids => .ask (.releaseIfTemporary id) fun
      | true => freeOf (freed + 1) ids
      | false => freeOf freed ids

/-- Releases the arguments that are temporaries, and tells how many there were. -/
def freeAll : Function := .variadic (freeOf 0)

def live : Function :=
  .variadic fun _ => .ask .size fun (n : Nat) => .finish (.ok (.number (Binary.ofInt n)))

def reject : Function := .variadic fun _ => .done (.error (.notCallable "reject"))

/-! ## By word -/

/-- The type that a word names after some other characters. -/
def typeAfter? (start word : String) : Option HostType :=
  HostType.all.find? fun t => word == start ++ t.name

/-- The function that a word stands for, bound under a name. -/
def function? (word name : String) : Option Function :=
  match word with
  | "const" => some (constant (.number (Binary.ofDecimal false 35 (-1))) name)
  | "hello" => some (constant (.text "hello") name)
  | "unit" => some (constant .unit name)
  | "neg" => some (neg name)
  | "not" => some (not name)
  | "ident" => some (ident name)
  | "sqrt" => some (sqrt name)
  | "add" => some (add name)
  | "concat" => some (concat name)
  | "first" => some (first name)
  | "second" => some (second name)
  | "sum3" => some (sum3 name)
  | "join4" => some (join4 name)
  | "mix5" => some (mix5 name)
  | "mix6" => some (mix6 name)
  | "max" => some largest
  | "count" => some count
  | "join" => some join
  | "apply" => some applyFirst
  | "clone_of" => some cloneFirst
  | "store" => some storeSecond
  | "free" => some freeAll
  | "live" => some live
  | "reject" => some reject
  | _ =>
      match typeAfter? "echo_" word, typeAfter? "text_" word with
      | some t, _ => some (echo t name)
      | none, some t => some (text t name)
      | none, none => none

end Stock

end Settings
