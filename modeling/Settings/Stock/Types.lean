import Settings.Demo

/-!
# Object types in stock

Ready-made types of object with their methods: a counter that has no settings, a gadget with linked
settings at two levels, and a type whose set-up always fails.
-/

set_option autoImplicit false

namespace Settings

namespace Stock

/-! ## Counters -/

def counterTag : TypeTag := ⟨"Counter"⟩

def counterType (start : IntType.Value .i64) : ObjectType where
  tag := counterTag
  initial := [⟨.int .i64, start⟩]
  setup := fun _ => []

def counterValue (o : Object) (s : Store) : Int :=
  IntType.Value.toInt (t := .i64) (o.read 0 (.int .i64) s)

/-- Sets a counter, wrapping around. -/
def setCounter (o : Object) (n : Int) (s : Store) : Store :=
  o.write 0 (.int .i64) (IntType.wrap .i64 n) s

def counterResult (o : Object) (s : Store) : Returned :=
  returned (.int .i64) (o.read 0 (.int .i64) s)

def counterText (o : Object) (s : Store) : String :=
  (HostType.int .i64).toText (o.read 0 (.int .i64) s)

def Counter.get : Method :=
  .fixed counterTag [] fun o () s => (.ok (counterResult o s), s)

def Counter.reset : Method :=
  .fixed counterTag [] fun o () s => (.ok .unit, setCounter o 0 s)

/-- Adds to the count and tells the new one. -/
def Counter.bump : Method :=
  .fixed counterTag [.value (.int .i64)] fun o (n, ()) s =>
    let s := setCounter o (counterValue o s + IntType.Value.toInt (t := .i64) n) s
    (.ok (counterResult o s), s)

/-- Adds to the count and tells the new one as text. -/
def Counter.bumpText : Method :=
  .fixed counterTag [.value (.int .i64)] fun o (n, ()) s =>
    let s := setCounter o (counterValue o s + IntType.Value.toInt (t := .i64) n) s
    (.ok (.text (counterText o s)), s)

/-- Adds two numbers of different types to the count. -/
def Counter.add2 : Method :=
  .fixed counterTag [.value (.int .u8), .value (.int .i16)] fun o (a, b, ()) s =>
    let sum := IntType.Value.toInt (t := .u8) a + IntType.Value.toInt (t := .i16) b
    let s := setCounter o (counterValue o s + sum) s
    (.ok (counterResult o s), s)

/-- Counts the call and picks one of two texts. -/
def Counter.pick3 : Method :=
  .fixed counterTag [.value .bool, .value .text, .value .text] fun o (which, a, b, ()) s =>
    (.ok (.text (cond which a b)), setCounter o (counterValue o s + 1) s)

/-- Sets the count to a number of four digits; a negative count stays but fails the call. -/
def Counter.set4 : Method :=
  let i32 : Param := .value (.int .i32)
  .fixed counterTag [i32, i32, i32, i32] fun o (a, b, c, d, ()) s =>
    let digit (v : IntType.Value .i32) : Int := v.toInt
    let s := setCounter o (digit a * 1000 + digit b * 100 + digit c * 10 + digit d) s
    if counterValue o s < 0 then (.error (.notCallable "set4"), s)
    else (.ok (counterResult o s), s)

/-- The count and the texts of five arguments. -/
def Counter.show5 : Method :=
  .fixed counterTag [.value .double, .value (.int .u64), .value .bool, .value .text, .entry]
    fun o (a, b, c, d, id, ()) s =>
      let parts : List String := [HostType.double.toText a, (HostType.int .u64).toText b,
        HostType.bool.toText c, d, natText (EntryId.index id)]
      (.ok (.text (counterText o s ++ ":" ++ "|".intercalate parts)), s)

/-- Counts the call, then calls the first argument with the others, the counter being in use. -/
def Counter.poke : Method :=
  .variadic counterTag fun o args =>
    .update (fun s => setCounter o (counterValue o s + 1) s) (match args with
      | [] => .finish (.ok (.text "idle"))
      | f :: rest => .invoke f rest .done)

/-! ## Gadgets -/

def gadgetTag : TypeTag := ⟨"Gadget"⟩

def u32 (n : Int) : (HostType.int .u32).Carrier := IntType.clamp .u32 n

/-- A gadget has a size, and a name in a scope of its parts. -/
def gadgetSetup (o : Object) : List SetupStep :=
  match o.fields with
  | [size, name] =>
      [⟨.top, "size", "Gadget size", .content (.linked (.var (.int .u32) size) (u32 10)),
          [.min (Binary.ofInt 1), .max (Binary.ofInt 50)]⟩,
        ⟨.top, "parts", "", .content (.scope ""), []⟩,
        ⟨.within 1, "name", "", .content (.linked (.var .text name) "gadget"), []⟩]
  | _ => []

def gadgetType : ObjectType where
  tag := gadgetTag
  initial := [⟨.int .u32, u32 0⟩, ⟨.text, ""⟩]
  setup := gadgetSetup

/-- Multiplies the size, wrapping around, and tells the new one. -/
def Gadget.scale : Method :=
  .fixed gadgetTag [.value (.int .u32)] fun o (n, ()) s =>
    let size := IntType.Value.toInt (t := .u32) (o.read 0 (.int .u32) s)
    let scaled := IntType.wrap .u32 (size * IntType.Value.toInt (t := .u32) n)
    (.ok (.int scaled), o.write 0 (.int .u32) scaled s)

def Gadget.label : Method :=
  .fixed gadgetTag [] fun o () s => (.ok (.text (o.read 1 .text s)), s)

/-- Gives another name and tells the old one. -/
def Gadget.rename : Method :=
  .fixed gadgetTag [.value .text] fun o (name, ()) s =>
    (.ok (.text (o.read 1 .text s)), o.write 1 .text name s)

/-! ## A type that fails -/

def brokenTag : TypeTag := ⟨"Broken"⟩

/-- The third step registers a name that the first has taken. -/
def brokenSetup : List SetupStep :=
  [⟨.top, "size", "", .content .number, []⟩,
    ⟨.top, "inner", "", .content (.scope ""), []⟩,
    ⟨.top, "size", "", .content .number, []⟩]

def brokenType : ObjectType where
  tag := brokenTag
  initial := []
  setup := fun _ => brokenSetup

/-! ## By word -/

def type? (word : String) : Option ObjectType :=
  match word with
  | "Counter" => some (counterType (IntType.zero .i64))
  | "Gadget" => some gadgetType
  | "Broken" => some brokenType
  | "Population" => some Demo.populationType
  | _ => none

def method? (word : String) : Option Method :=
  match word with
  | "Counter.get" => some Counter.get
  | "Counter.reset" => some Counter.reset
  | "Counter.bump" => some Counter.bump
  | "Counter.bump_text" => some Counter.bumpText
  | "Counter.add2" => some Counter.add2
  | "Counter.pick3" => some Counter.pick3
  | "Counter.set4" => some Counter.set4
  | "Counter.show5" => some Counter.show5
  | "Counter.poke" => some Counter.poke
  | "Gadget.scale" => some Gadget.scale
  | "Gadget.label" => some Gadget.label
  | "Gadget.rename" => some Gadget.rename
  | "Population.grow" => some Demo.grow
  | "Population.describe" => some Demo.describe
  | _ => none

end Stock

end Settings
