import Settings.Listing
import Settings.Session.Invoke

/-!
# Scripts

The least a script needs: to write a value down, to call a function by its path, and to assign to a
setting.

An argument is written as a literal. What reads as a number is a number; text in double quotes is
that text; a path that leads somewhere from the calling scope is that entry; anything else is text
as it stands. Numbers and texts travel as temporaries, and once the result of a call has been read
all of them are released, the result too if it is one.
-/

set_option autoImplicit false

namespace Settings

/-- An evaluated literal: a temporary made for it, or an entry that was there before. -/
inductive Argument where
  | temp (id : EntryId)
  | entry (id : EntryId)
  deriving DecidableEq

def Argument.id : Argument → EntryId
  | temp id => id
  | entry id => id

/-- The text between double quotes, if a text begins and ends with one of its own. -/
def unquote? (text : String) : Option String :=
  match text.toList with
  | '"' :: rest =>
      match rest.reverse with
      | '"' :: inner => some (String.ofList inner.reverse)
      | _ => none
  | _ => none

namespace Session

variable {ε : Type}

def tempArgument (value : Scalar) : Action ε Argument := do
  return .temp (← ask (.makeTemp value))

def evalLiteral (scope : EntryId) (text : String) : Action ε Argument := do
  match Binary.ofBlankText? text with
  | some x => tempArgument (.number x)
  | none =>
      match unquote? text with
      | some inner => tempArgument (.text inner)
      | none =>
          match ← ask (.lookupPath scope text) with
          | some id => if text = "" then tempArgument (.text text) else return .entry id
          | none => tempArgument (.text text)

def evalAll (scope : EntryId) : List String → Action ε (List Argument)
  | [] => return []
  | text :: texts => do
      let argument ← evalLiteral scope text
      return argument :: (← evalAll scope texts)

/-- Shows a result: a scope as configuration text, anything else as its value. -/
def render (id : EntryId) : Action EntryError String :=
  .reading fun s => do
    let e ← s.table.liveEntry id
    if e.isScope then Attempt.ofFault (s.table.configText s.store id)
    else s.table.readText s.store id

def releaseAll : List Argument → Action ε Unit
  | [] => return ()
  | .temp id :: args => do
      discard (ask (.releaseIfTemporary id))
      releaseAll args
  | .entry _ :: args => releaseAll args

/-- Shows the result of a call and releases it, unless it is one of the call's own temporaries. -/
def takeResult (args : List Argument) (result : EntryId) : Action ε (Except EntryError String) := do
  let text ← (render result).settle
  if .temp result ∉ args then discard (ask (.releaseIfTemporary result))
  return text

/-- Calls the function at a path with literals and shows the result. -/
def callPath (scope : EntryId) (path : String) (literals : List String) :
    Action ScriptError String := do
  match ← ask (.lookupPath scope path) with
  | none => .fail (.unknownEntry path)
  | some f =>
      let e ← Action.reading fun s => s.table.liveEntry f
      if !e.isFunction then .fail (.notAFunction path)
      let args ← evalAll scope literals
      let outcome ← (invoke f (args.map Argument.id)).settle
      let shown : Except ScriptError String ← match outcome with
        | .error error => pure (.error (.call error))
        | .ok result => Except.mapError .entry <$> takeResult args result
      releaseAll args
      .orFail shown

/-- Applies an assignment `path=value`. The value is written as text, so a numeric setting reads it
as a number; blanks around the path and around the value are ignored. -/
def assign (scope : EntryId) (assignment : String) : Action ScriptError Unit := do
  match splitFirst? '=' assignment with
  | none => .fail (.malformedAssignment assignment)
  | some (left, right) =>
      let path := trim left
      match ← ask (.lookupPath scope path) with
      | none => .fail (.unknownEntry path)
      | some id =>
          let e ← Action.reading fun s => s.table.liveEntry id
          if !e.isScalar then .fail (.notAssignable path)
          (Action.orFail (← ask (.writeText id (trim right)))).mapError .entry

end Session

end Settings
