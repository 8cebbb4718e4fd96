import Settings.Proofs.Host.Locality
import Settings.Proofs.Session.ScriptCalls

/-!
# Calls with literals alone

A number and a quoted text stand for the same value wherever they are written, unlike a path. The
temporaries of a call with such literals hold these values, in whatever slots they are. A parameter
that takes values gets from a temporary what the value alone decides, so if the host function does
not look at handles, all that a call depends on are the values and the host variables: `onValues` is
the call without a table, and `run_callPath_values` says that the script's call comes to it.
-/

set_option autoImplicit false

namespace Settings

/-- The value of a literal that is a number or a text in quotes. -/
def literalValue? (text : String) : Option Scalar :=
  match Binary.ofBlankText? text with
  | some x => some (.number x)
  | none => (unquote? text).map .text

/-! ## Host functions on values that are passed -/

/-- What a parameter gets from a temporary with the value. All handles count as the same. -/
def Param.ofScalar : (p : Param) → Scalar → Except EntryError p.Carrier
  | .value type, v => type.ofArgument (.ok v.toText) v.toNumber
  | .entry, _ => .ok (⟨0⟩ : EntryId)

/-- Converts values from left to right, the first of them at `position`. -/
def Args.ofScalars (name : String) :
    (ps : List Param) → (position : Nat) → List Scalar → Except CallError (Args ps)
  | [], _, _ => .ok ()
  | p :: ps, position, v :: vs =>
      match p.ofScalar v with
      | .error e => .error (.argumentType name position p.expected e)
      | .ok x => (ofScalars name ps (position + 1) vs).map fun xs => (x, xs)
  | _ :: ps, position, [] =>
      .error (.arityMismatch name (position + ps.length) (position - 1))

variable {name : String} {ps : List Param}

/-- A host function that answers with values, as one that could answer with handles too. -/
def answering (f : Args ps → StateM Store (Except CallError Scalar)) (vs : Args ps) :
    StateM Store (Except CallError Returned) :=
  fun s => ((f vs s).1.map .scalar, (f vs s).2)

/-- The arguments that come of values, if their number is right and all can be converted. -/
def Args.ofValues (name : String) (ps : List Param) (values : List Scalar) :
    Except CallError (Args ps) :=
  if values.length = ps.length then ofScalars name ps 1 values
  else .error (.arityMismatch name ps.length values.length)

/-- What a host function comes to on values. -/
def onValues (name : String) (f : Args ps → StateM Store (Except CallError Scalar))
    (values : List Scalar) : StateM Store (Except CallError Scalar) :=
  match Args.ofValues name ps values with
  | .ok vs => f vs
  | .error e => pure (.error e)

theorem localStep_onValues {V : VariableId → Prop}
    {f : Args ps → StateM Store (Except CallError Scalar)} (h : LocalFunction V f) (name : String)
    (values : List Scalar) (e : Entry) :
    e.LocalStep V fun s => ((onValues name f values s).1, e, (onValues name f values s).2) := by
  unfold onValues
  cases Args.ofValues name ps values with
  | ok vs => exact ⟨fun _ => rfl, h.reply vs, fun _ _ _ => rfl, h.own vs, h.others vs⟩
  | error x => exact .ownValue _ e rfl

/-! ## Temporaries with the values -/

namespace Table

variable {t : Table} {s : Store} {ids : List EntryId} {values : List Scalar}

/-- The handles are of temporaries with the values. -/
def Temps (t : Table) (ids : List EntryId) (values : List Scalar) : Prop :=
  List.Forall₂ (fun id v => t.get? id = some (.temp v)) ids values

theorem Temps.live (h : t.Temps ids values) : ∀ id ∈ ids, t.contains id = true := by
  induction h with
  | nil => simp
  | cons live _ ih => exact List.forall_mem_cons.mpr ⟨contains_iff.mpr ⟨_, live⟩, ih⟩

theorem convert_of_temp (p : Param) {id : EntryId} {v : Scalar}
    (live : t.get? id = some (.temp v)) (s : Store) :
    (∃ x, t.convert s p id = .ok x ∧ p.ofScalar v = .ok (p.blank x)) ∨
      ∃ x, t.convert s p id = .error (.error x) ∧ p.ofScalar v = .error x := by
  cases p with
  | entry => exact Or.inl ⟨id, rfl, rfl⟩
  | value type =>
    rw [convert_temp live s type]
    show (∃ x, _ ∧ type.ofArgument (.ok v.toText) v.toNumber = .ok x) ∨
      ∃ x, _ ∧ type.ofArgument (.ok v.toText) v.toNumber = .error x
    cases type.ofArgument (.ok v.toText) v.toNumber with
    | ok x => exact Or.inl ⟨x, rfl, rfl⟩
    | error x => exact Or.inr ⟨x, rfl, rfl⟩

/-- The values of temporaries decide how their conversion ends. -/
theorem Temps.ofScalars (h : t.Temps ids values) (name : String) {ps : List Param}
    (hlen : values.length = ps.length) (position : Nat) (s : Store) :
    (∃ vs, t.Converts s ps ids vs ∧
      Args.ofScalars name ps position values = .ok (Args.blank ps vs)) ∨
    ∃ i p x, t.FailsFirst s ps ids i p x ∧ Args.ofScalars name ps position values =
      .error (.argumentType name (position + i) p.expected x) := by
  induction h generalizing ps position with
  | nil =>
    obtain rfl : ps = [] := List.length_eq_zero_iff.mp hlen.symm
    exact Or.inl ⟨(), .nil, rfl⟩
  | @cons id v ids values live _ ih =>
    cases ps with
    | nil => simp at hlen
    | cons p ps =>
      unfold Args.ofScalars
      rcases convert_of_temp p live s with ⟨x, hconvert, hx⟩ | ⟨x, hconvert, hx⟩
      · rw [hx]
        rcases ih (by simpa using hlen) (position + 1) with ⟨vs, hvs, hrest⟩ | ⟨i, q, y, hfail, hrest⟩
        · exact Or.inl ⟨(x, vs), .cons hconvert hvs, by simp only [hrest]; rfl⟩
        · refine Or.inr ⟨i + 1, q, y, hfail.there hconvert, ?_⟩
          simp only [hrest, Except.map]
          rw [show position + 1 + i = position + (i + 1) by omega]
      · rw [hx]
        exact Or.inr ⟨0, p, x, .here ps ids hconvert, rfl⟩

end Table

/-! ## The call of an entry -/

namespace Session

variable {s : Session} {id : EntryId} {e : Entry} {g : Function} {ids : List EntryId}
  {values : List Scalar} {f : Args ps → StateM Store (Except CallError Scalar)}

/-- The call ends with an error that is reported, or with a fresh temporary for a value. -/
inductive Yields (s : Session) (call : CallOutcome) : Except CallError Scalar → Store → Prop
  | error {x : CallError} {st : Store}
      (h : call = (.error (.error x), { s with store := st }.report x)) :
      Yields s call (.error x) st
  | value {v : Scalar} {new : EntryId} {t : Table} {st : Store} (gains : s.table.Gains new v t)
      (h : call = (.ok new, { s with store := st, table := t })) : Yields s call (.ok v) st

theorem HostCall.yields {call : CallOutcome} (h : HostCall s name ps (answering f) ids call)
    (temps : s.table.Temps ids values) (blind : ∀ vs, f vs = f (Args.blank ps vs)) :
    Yields s call (onValues name f values s.store).1 (onValues name f values s.store).2 := by
  unfold onValues Args.ofValues
  have hids : ids.length = values.length := List.Forall₂.length_eq temps
  by_cases hlen : values.length = ps.length
  · rw [if_pos hlen]
    rcases temps.ofScalars name hlen 1 s.store with ⟨vs, hvs, hok⟩ | ⟨i, p, x, hfail, herror⟩
    · rw [hok]
      simp only [← blind vs]
      cases hf : f vs s.store with
      | mk outcome st =>
        have hanswer : answering f vs s.store = (outcome.map .scalar, st) := by
          unfold answering
          rw [hf]
        cases outcome with
        | error x => exact .error (h.error vs hvs x st hanswer)
        | ok v =>
          obtain ⟨new, t, gains, hcall⟩ := h.scalar vs hvs v st hanswer
          exact .value gains hcall
    · rw [herror, show 1 + i = i + 1 by omega]
      exact .error (h.wrongArgument (hids.trans hlen) i p x hfail)
  · rw [if_neg hlen, ← hids]
    exact .error (h.wrongNumber fun heq => hlen (hids.symm.trans heq))

/-! ## The call of a script -/

variable {ε : Type} {scope : EntryId} {literals : List String}

theorem run_evalLiteral_value {text : String} {v : Scalar} (h : literalValue? text = some v)
    (s : Session) : (evalLiteral scope text : Action ε Argument).run s =
      (tempArgument v : Action ε Argument).run s := by
  unfold literalValue? at h
  unfold evalLiteral
  cases hx : Binary.ofBlankText? text with
  | some x =>
    rw [hx] at h
    obtain rfl := Option.some.inj h
    rfl
  | none =>
    rw [hx] at h
    obtain ⟨inner, hinner, rfl⟩ := Option.map_eq_some_iff.mp h
    simp only [hinner]

/-- Literals with values come to temporaries that hold them. -/
theorem run_evalAll_values (scope : EntryId) (h : s.table.Sound)
    (hvalues : List.Forall₂ (fun text v => literalValue? text = some v) literals values) :
    ∃ ids t, (evalAll scope literals : Action ε (List Argument)).run s =
        (.ok (ids.map .temp), { s with table := t }) ∧
      s.table.Holding ids t ∧ t.Temps ids values := by
  induction hvalues generalizing s with
  | nil => exact ⟨[], s.table, rfl, h.holding, .nil⟩
  | @cons text v texts values hv _ ih =>
    have gains := h.gains v
    obtain ⟨ids, t, hrest, hholding, temps⟩ :=
      ih (s := { s with table := (s.table.alloc (.temp v)).2 }) gains.sound
    have hfirst : (evalLiteral scope text : Action ε Argument).run s =
        (.ok (.temp (s.table.alloc (.temp v)).1),
          { s with table := (s.table.alloc (.temp v)).2 }) := run_evalLiteral_value hv s
    refine ⟨(s.table.alloc (.temp v)).1 :: ids, t, ?_, ?_, .cons (hholding.live gains.holds) temps⟩
    · unfold evalAll
      rw [Action.bind_ok _ hfirst, Action.bind_ok _ hrest]
      rfl
    · exact ((h.holding.gain gains).trans hholding).perm (List.perm_append_singleton _ _)

/-- What a script is shown of a call. -/
def shownResult (r : Except CallError Scalar) : Except ScriptError String :=
  (r.map Scalar.toText).mapError .call

/-- A call with literals that have values shows what the call of the entry yields. The temporaries
are gone afterwards. -/
theorem run_callPath_values (h : s.table.Sound) {path : String}
    (hlookup : s.table.lookupPath? scope path = .ok (some id)) (live : s.table.get? id = some e)
    (hfunction : e.isFunction = true)
    (hvalues : List.Forall₂ (fun text v => literalValue? text = some v) literals values)
    {r : Except CallError Scalar} {st : Store}
    (hcall : ∀ ids t, s.table.Holding ids t → t.Temps ids values →
      Yields { s with table := t } ((invoke id ids).run { s with table := t }) r st) :
    ∃ t c, (callPath scope path literals).run s = (Attempt.ofError (shownResult r),
        { s with table := t, store := st, channel := c }) ∧ s.table.Holding [] t := by
  obtain ⟨ids, t, hargs, hholding, temps⟩ :=
    run_evalAll_values (ε := ScriptError) scope h hvalues
  rw [run_callPath hlookup live hfunction hargs]
  have hids : (ids.map Argument.temp).map Argument.id = ids := by
    simp [Argument.id, Function.comp_def]
  have hheld : s.table.Holding (temporaries (ids.map .temp)) t := by
    have htemps : temporaries (ids.map .temp) = ids := by
      simp [temporaries, List.filterMap_map]
    rwa [htemps]
  have hcall := hcall ids t hholding temps
  rw [← hids] at hcall
  cases hcall with
  | @error x st hrun =>
    obtain ⟨t', hclose, hdone⟩ := run_closing
      (s := { s with table := t, store := st }.report x) hheld (.error (.call x))
    exact ⟨t', _, (run_callWith_error hrun).trans hclose, hdone⟩
  | @value v new t₁ st gains hrun =>
    obtain ⟨t₂, htake, htaken⟩ := run_takeResult_fresh (ε := ScriptError)
      (s := { s with table := t₁, store := st }) (hheld.gain gains) gains.holds
    obtain ⟨t', hclose, hdone⟩ := run_closing
      (s := { s with table := t₂, store := st }) htaken (.ok v.toText)
    exact ⟨t', _, (run_callWith_ok hrun htake).trans hclose, hdone⟩

end Session
end Settings
