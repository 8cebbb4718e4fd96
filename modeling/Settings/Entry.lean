import Settings.Function
import Settings.NameIndex

/-!
# Entries

An entry is one named place in the tree of settings. All entries have the same header: name,
description, recorded default, owner, kind and advisory range. They differ in their storage: a link
to the host, a number or a text of their own, a function, or a scope with children.

A *scalar* entry, one that is neither a function nor a scope, can be read and written both as a
number and as a text, with a conversion where its storage is of the other form. The kind and the
range never stop a write: they are what `Entry.accepts` and the validation of a tree look at.

Reading and writing take the store of host variables, since a linked entry has no value of its own.
A write answers whether it was done, and gives the entry and the store as they are then, also when
it was refused.
-/

set_option autoImplicit false

namespace Settings

/-- The children of a scope, each list in the order of registration, and the index that finds all of
them by name. Builtin children are found like the others but are not listed, validated or saved. -/
structure ScopeBody where
  entries : List EntryId
  builtins : List EntryId
  index : NameIndex
  /-- The type of object whose settings the scope holds; empty for a plain scope. -/
  structureType : String

namespace ScopeBody

def empty (structureType : String) : ScopeBody := ⟨[], [], .empty, structureType⟩

/-- All children, the registered ones first. -/
def children (b : ScopeBody) : List EntryId := b.entries ++ b.builtins

def find? (b : ScopeBody) (name : String) : Option EntryId := b.index.find? name

/-- The body with one child more, at the end of its list. -/
def push (b : ScopeBody) (name : String) (id : EntryId) (builtin : Bool) : ScopeBody :=
  { b with
    entries := if builtin then b.entries else b.entries ++ [id]
    builtins := if builtin then b.builtins ++ [id] else b.builtins
    index := b.index.insert name id }

/-- The body without a child, which has the name. -/
def erase (b : ScopeBody) (id : EntryId) (name : String) : ScopeBody :=
  { b with
    entries := b.entries.filter fun c => c ≠ id
    builtins := b.builtins.filter fun c => c ≠ id
    index := b.index.erase name }

/-- The body with a child found under another name than before. -/
def relabel (b : ScopeBody) (id : EntryId) (old name : String) : ScopeBody :=
  { b with index := (b.index.erase old).insert name id }

end ScopeBody

inductive Storage where
  | linked (target : Target)
  | number (value : Double)
  | text (value : String)
  | function (function : Function)
  | scope (body : ScopeBody)

/-- The kind that entries with a storage start with. -/
def Storage.kind : Storage → ValueKind
  | linked target => target.kind
  | number _ => .double
  | text _ => .string
  | function _ => .none
  | scope _ => .scope

structure Entry where
  name : String
  description : String
  /-- The text to save in place of the live value; empty if none is recorded. -/
  defaultText : String
  /-- The scope that the entry is registered in. The root, temporaries and detached copies have
  none. -/
  owner : Option EntryId
  temporary : Bool
  kind : ValueKind
  min : Option Double
  max : Option Double
  integerOnly : Bool
  storage : Storage

namespace Entry

def new (name description : String) (storage : Storage) : Entry where
  name := name
  description := description
  defaultText := ""
  owner := none
  temporary := false
  kind := storage.kind
  min := none
  max := none
  integerOnly := false
  storage := storage

/-- A holder of a value on its way through a call. -/
def temp (value : Scalar) : Entry :=
  { new "" "" (match value with | .number x => .number x | .text s => .text s) with
    temporary := true }

def isScope (e : Entry) : Bool := match e.storage with | .scope _ => true | _ => false

def isFunction (e : Entry) : Bool := match e.storage with | .function _ => true | _ => false

def isLinked (e : Entry) : Bool := match e.storage with | .linked _ => true | _ => false

/-- Whether the entry carries a value that can be read. -/
def isScalar (e : Entry) : Bool := !e.isScope && !e.isFunction

def scope? (e : Entry) : Option ScopeBody :=
  match e.storage with | .scope b => some b | _ => none

def function? (e : Entry) : Option Function :=
  match e.storage with | .function f => some f | _ => none

/-- All children, the registered ones first; an entry that is no scope has none. -/
def children (e : Entry) : List EntryId := (e.scope?.map ScopeBody.children).getD []

def structureType? (e : Entry) : Option String := e.scope?.map ScopeBody.structureType

/-! ## The header -/

def edit (e : Entry) : HeaderEdit → Entry
  | .description text => { e with description := text }
  | .defaultText text => { e with defaultText := text }
  | .kind kind => { e with kind := kind }
  | .min bound => { e with min := some bound }
  | .max bound => { e with max := some bound }
  | .integerOnly flag => { e with integerOnly := flag }

/-- Whether a number meets the advisory constraints. A bound refuses only a number that is beyond
it, so not-a-number meets every bound. -/
def accepts (e : Entry) (x : Double) : Bool :=
  !(e.min.any fun low => Binary.lt x low) && !(e.max.any fun high => Binary.lt high x)
    && (!e.integerOnly || x.isWhole)

/-! ## Reading -/

def unsupported (e : Entry) (access : Access) : EntryError :=
  .unsupported e.name e.kind access

def readNumber (e : Entry) (s : Store) : Except EntryError Double :=
  match e.storage with
  | .linked target => target.toNumber s
  | .number x => .ok x
  | .text t => parseNumber t
  | .function _ | .scope _ => .error (e.unsupported .numericRead)

def readText (e : Entry) (s : Store) : Except EntryError String :=
  match e.storage with
  | .linked target => .ok (target.toText s)
  | .number x => .ok x.toText
  | .text t => .ok t
  | .function _ | .scope _ => .error (e.unsupported .stringRead)

/-- The value in the form it is stored in. -/
def snapshot (e : Entry) (s : Store) : Option Scalar :=
  match e.storage with
  | .linked target =>
      if target.type.isText then some (.text (target.toText s))
      else (target.toNumber s).toOption.map .number
  | .number x => some (.number x)
  | .text t => some (.text t)
  | .function _ | .scope _ => none

/-- The text that is saved: the recorded default if there is one, else the live value. -/
def serialized (e : Entry) (s : Store) : Except EntryError String :=
  if e.defaultText = "" then e.readText s else .ok e.defaultText

/-! ## Writing -/

/-- Writes a number. Text storage takes its text. -/
def writeNumber (x : Double) (e : Entry) (s : Store) : Except EntryError Unit × Entry × Store :=
  match e.storage with
  | .linked target => (.ok (), e, target.setNumber x s)
  | .number _ => (.ok (), { e with storage := .number x }, s)
  | .text _ => (.ok (), { e with storage := .text x.toText }, s)
  | .function _ | .scope _ => (.error (e.unsupported .numericWrite), e, s)

/-- Writes a text. Numeric storage takes the number that it spells. -/
def writeText (text : String) (e : Entry) (s : Store) : Except EntryError Unit × Entry × Store :=
  match e.storage with
  | .linked target =>
      let (outcome, s) := target.setText text s
      (outcome, e, s)
  | .number _ =>
      match parseNumber text with
      | .ok x => (.ok (), { e with storage := .number x }, s)
      | .error error => (.error error, e, s)
  | .text _ => (.ok (), { e with storage := .text text }, s)
  | .function _ | .scope _ => (.error (e.unsupported .stringWrite), e, s)

/-- Whether the value is stored as a number; none for an entry without a value. -/
def isNumeric? (e : Entry) : Option Bool :=
  match e.storage with
  | .linked target => some (!target.type.isText)
  | .number _ => some true
  | .text _ => some false
  | .function _ | .scope _ => none

def accepted {σ : Type} (outcome : Except EntryError Unit × σ) : Bool × σ :=
  (outcome.1.toBool, outcome.2)

/-- Writes a scalar in the form the storage needs, and tells whether it could: the scalar may not
have that form, and the entry may hold no value. -/
def assign (value : Scalar) (e : Entry) (s : Store) : Bool × Entry × Store :=
  match e.isNumeric? with
  | none => (false, e, s)
  | some true =>
      match value.toNumber with
      | .ok x => accepted (e.writeNumber x s)
      | .error _ => (false, e, s)
  | some false => accepted (e.writeText value.toText s)

def copyFrom (source e : Entry) (s : Store) : Bool × Entry × Store :=
  match source.snapshot s with
  | some value => e.assign value s
  | none => (false, e, s)

def recordDefault (e : Entry) (s : Store) : Entry :=
  match e.readText s with
  | .ok text => { e with defaultText := text }
  | .error _ => e

/-- The header and the value with no children. A link in the copy leads to the same target. -/
def bare (e : Entry) : Entry :=
  match e.storage with
  | .scope b => { e with storage := .scope (.empty b.structureType) }
  | _ => e

end Entry

end Settings
