import Settings.Proofs.Host.Arguments
import Settings.Proofs.Number.WholeTexts
import Settings.Proofs.Session.Calls
import Settings.Stock.Functions

/-!
# Integers as results of calls

A function that answers with an integer leaves a number in a fresh temporary, the one nearest to the
integer, as numbers are all that a temporary can hold of it. Up to `2 ^ 53` in magnitude this is the
integer itself, it is printed with the integer's digits, and a parameter of the same type that is
handed the temporary gets the integer back (`IntType.ofArgument_toNumber`).

A text argument, in contrast, keeps every digit on its way into a parameter. So an integer may be
read from a text exactly and still not come back from the function that only hands it on.
-/

set_option autoImplicit false

namespace Settings

variable {type : IntType} {t t' : Table} {id new : EntryId}

/-! ## Temporaries as arguments -/

/-- Numbers hold every integer up to `2 ^ 53` in magnitude, and are printed with its digits. -/
theorem IntType.ofArgument_toNumber {v : type.Value} (h : v.toInt.natAbs ≤ 2 ^ 53) :
    HostType.ofArgument (.int type) (.ok v.toNumber.toText) (.ok v.toNumber) = .ok v := by
  have htext : v.toNumber.toText = intText v.toInt := Binary.toText_ofInt_of_le h
  rw [HostType.ofArgument_int, htext, ofText?_intText, Option.some_or]
  rfl

/-- A text argument keeps every digit of an integer. -/
theorem Table.convert_intText {v : type.Value}
    (live : t.get? id = some (.temp (.text (intText v.toInt)))) (s : Store) :
    t.convert s (.value (.int type)) id = .ok v := by
  rw [convert_temp live]
  simp [HostType.ofArgument, Except.toOption, Scalar.toText, IntType.ofText?_intText]
  rfl

namespace Session

variable {s : Session}

/-- The call has ended with a fresh temporary that holds an integer as a number, and if this is not
rounding, a parameter of the integer's type gets the integer from it. -/
def ReturnsInteger (s : Session) (v : type.Value) (st : Store) (outcome : CallOutcome) : Prop :=
  ∃ new t, s.table.Gains new (.number v.toNumber) t ∧
    outcome = (.ok new, { s with store := st, table := t }) ∧
    (v.toInt.natAbs ≤ 2 ^ 53 → ∀ st', t.convert st' (.value (.int type)) new = .ok v)

theorem HostCall.returnsInteger {name : String} {ps : List Param}
    {f : Args ps → StateM Store (Except CallError Returned)} {args : List EntryId}
    {outcome : CallOutcome} (h : HostCall s name ps f args outcome) {vs : Args ps}
    (hvs : s.table.Converts s.store ps args vs) {v : type.Value} {st : Store}
    (hf : f vs s.store = (.ok (.int v), st)) : s.ReturnsInteger v st outcome := by
  obtain ⟨new, t, gains, houtcome⟩ := h.scalar vs hvs (.number v.toNumber) st hf
  refine ⟨new, t, gains, houtcome, fun hsmall st' => ?_⟩
  have reads := Table.convert_temp gains.holds st' (.int type)
  exact reads.trans (congrArg Attempt.ofError (IntType.ofArgument_toNumber hsmall))

/-- An integer that a bound function returns is put into a fresh temporary as a number, and up to
`2 ^ 53` in magnitude a parameter of its type gets it back. That a text holds all the digits does
not help: the function that hands its argument on reads them, and returns the integer as any other
function does. -/
theorem returned_integer_arrives (h : s.table.Reachable) (v : type.Value) {id : EntryId} {e : Entry}
    (live : s.table.get? id = some e) {g : Function} (hg : e.function? = some g)
    (ready : g.Ready s) {name : String} :
    (∀ ps f, g.Hosts name ps f → ∀ args, (∀ a ∈ args, s.table.contains a = true) →
      ∀ vs, s.table.Converts s.store ps args vs → ∀ st, f vs s.store = (.ok (.int v), st) →
        s.ReturnsInteger v st ((invoke id args).run s)) ∧
    (g.Hosts name [.value (.int type)] (fun (x, ()) => Stock.answer (.int x)) → ∀ arg,
      s.table.get? arg = some (.temp (.text (intText v.toInt))) →
        s.ReturnsInteger v s.store ((invoke id [arg]).run s)) := by
  have returned : ∀ ps f, g.Hosts name ps f → ∀ args,
      (∀ a ∈ args, s.table.contains a = true) → ∀ vs, s.table.Converts s.store ps args vs →
      ∀ st, f vs s.store = (.ok (.int v), st) →
        s.ReturnsInteger v st ((invoke id args).run s) := by
    intro ps f hosts args hargs vs hvs st hf
    have called : HostCall s name ps f args ((invoke id args).run s) :=
      hostCall_invokeWithin h.sound live hg hosts ready hargs 9999
    exact called.returnsInteger hvs hf
  refine ⟨returned, ?_⟩
  intro hosts arg harg
  have hargs : ∀ a ∈ [arg], s.table.contains a = true :=
    List.forall_mem_singleton.mpr (Table.contains_iff.mpr ⟨_, harg⟩)
  have hvs : s.table.Converts s.store [.value (.int type)] [arg] (v, ()) :=
    .cons (Table.convert_intText harg s.store) .nil
  exact returned _ _ hosts [arg] hargs (v, ()) hvs s.store rfl

/-- The greatest integer of those, returned by a function of no arguments and by one that hands on
what it has read from a text. -/
theorem greatest_exact_integer_arrives :
    let v : IntType.Value .i64 := IntType.clamp .i64 9007199254740992
    let s := (fresh "root" "").after
      [.define Table.root "echo" (Stock.echo (.int .i64) "echo") "" true,
        .define Table.root "top" (Stock.constant (.int v) "top") "" true,
        .ask (.makeTemp (.text "9007199254740992"))]
    let arrives (call : CallOutcome) : Prop := ∃ new after, call = (.ok new, after) ∧
      after.table.convert after.store (.value (.int .i64)) new = .ok v
    arrives ((invoke ⟨2⟩ []).run s) ∧ arrives ((invoke ⟨1⟩ [⟨3⟩]).run s) := by
  intro v s arrives
  have h : s.table.Reachable := ⟨"root", "", _, rfl⟩
  have arrived {call : CallOutcome} {st : Store} (hreturns : s.ReturnsInteger v st call) :
      arrives call := by
    obtain ⟨new, t, -, hcall, hconvert⟩ := hreturns
    exact ⟨new, _, hcall, hconvert (by decide) st⟩
  have ready {g : Function} (hg : g.receiver = none) : g.Ready s := by
    intro r hr
    exact absurd (hg.symm.trans hr) (by simp)
  have function (id : EntryId) {g : Function}
      (hg : (s.table.get? id).bind Entry.function? = some g) :
      ∃ e, s.table.get? id = some e ∧ e.function? = some g := Option.bind_eq_some_iff.mp hg
  constructor
  · obtain ⟨e, live, hg⟩ := function ⟨2⟩ (g := Stock.constant (.int v) "top") rfl
    have returned := (returned_integer_arrives h v live hg (ready rfl)).1 [] _ (.free _)
    exact arrived (returned [] (by simp) () .nil s.store rfl)
  · obtain ⟨e, live, hg⟩ := function ⟨1⟩ (g := Stock.echo (.int .i64) "echo") rfl
    have handed := (returned_integer_arrives h v live hg (ready rfl)).2 (.free _)
    have htext : intText v.toInt = "9007199254740992" := by decide +kernel
    exact arrived (handed ⟨3⟩ (htext ▸ rfl))

/-- The next integer is read from a text exactly, handed on, and arrives as the one before it. -/
theorem echo_of_large_integer_changes_it :
    let s := (fresh "root" "").after
      [.define Table.root "echo" (Stock.echo (.int .i64) "echo") "" true,
        .ask (.makeTemp (.text "9007199254740993"))]
    let after := (invoke ⟨1⟩ [⟨2⟩]).run s
    let read (s : Session) (id : EntryId) : Option Int :=
      (s.table.convert s.store (.value (.int .i64)) id).toOption.map IntType.Value.toInt
    read s ⟨2⟩ = some 9007199254740993 ∧ after.1 = .ok ⟨3⟩ ∧
      read after.2 ⟨3⟩ = some 9007199254740992 := by
  decide +kernel

end Session

end Settings
