import Settings.Proofs.Session.Calls
import Settings.Proofs.Table.Quantities
import Settings.Stock.Functions

/-!
# Entries as arguments of integer types

What a parameter of an integer type gets from an entry depends on how the entry stores its value.

* A text is read exactly, however many digits it has. What the type does not have is refused, except
  for the integers that are rounded up to the least value of a type of 64 bits
  (`Table.integer_text_as_argument`).
* A number gives its whole part if the type has it. But the digits it is printed with come first,
  and a floating-point number past the bits of its format may be printed as another integer
  (`Entry.PrintsOther`). If the type has that integer, the parameter gets it in place of the number
  (`Table.stored_number_as_argument`). Integers and flags of the host are not touched by this.
-/

set_option autoImplicit false

namespace Settings

variable {t : Table} {s : Store} {id : EntryId} {e : Entry} {text : String}

/-! ## Texts -/

/-- An entry that stores a text spelling an integer gives a parameter the integer, if the parameter
is of a type that has it. Of the other integers those just below the least value of a signed type of
64 bits are taken for this value, and the rest is refused. -/
theorem Table.integer_text_as_argument (live : t.get? id = some e)
    (stored : e.isNumeric? = some false) (hread : e.readText s = .ok text) {n : Int}
    (spelled : Spells (trimBlanks text.toList) n) (type : IntType) :
    (∀ v : type.Value, v.toInt = n → t.convert s (.value (.int type)) id = .ok v) ∧
    (type.RoundsUp n → t.convert s (.value (.int type)) id = .ok type.least) ∧
    (n < type.min ∨ type.max < n → ¬ type.RoundsUp n →
      t.convert s (.value (.int type)) id = .error (.error (.outOfRange text type))) := by
  obtain ⟨text', hread', hnumber, -⟩ := Entry.readings_of_isText stored s
  obtain rfl : text' = text := Except.ok.inj (hread'.symm.trans hread)
  have hrun : t.convert s (.value (.int type)) id = Attempt.ofError
      (((type.ofInt? n).or (if type.RoundsUp n then some type.least else none)).elim
        (.error (.outOfRange text' type)) .ok) := by
    rw [convert_of_live live, hread, hnumber]
    exact congrArg Attempt.ofError (HostType.ofArgument_of_spells spelled)
  refine ⟨?_, ?_, ?_⟩
  · rintro v rfl
    rw [hrun, IntType.ofInt?_toInt]
    rfl
  · intro hup
    have hnone : type.ofInt? n = none := IntType.ofInt?_eq_none.mpr (Or.inl hup.lt_min)
    rw [hrun, hnone, if_pos hup]
    rfl
  · intro hout hup
    rw [hrun, IntType.ofInt?_eq_none.mpr hout, if_neg hup]
    rfl

/-- A sign, leading zeros and blanks on either side, given to a type that has the integer and to one
that has not, and an integer that is rounded up. -/
theorem Session.padded_text_as_argument :
    let s := (fresh "root" "").after [.ask (.makeTemp (.text " +0300\t")),
      .ask (.makeTemp (.text "-9223372036854776832"))]
    let read (type : IntType) := s.table.convert s.store (.value (.int type))
    read .i16 ⟨1⟩ = .ok (IntType.clamp .i16 300) ∧
      read .u8 ⟨1⟩ = .error (.error (.outOfRange " +0300\t" .u8)) ∧
      read .i64 ⟨2⟩ = .ok (IntType.least .i64) := by
  intro s read
  have digits : Spells (trimBlanks " +0300\t".toList) 300 := by
    have hcs : trimBlanks " +0300\t".toList = '+' :: ['0', '3', '0', '0'] := by decide
    rw [hcs]
    exact .plus ⟨by decide, List.all_eq_true.mp rfl⟩
  have digits' : Spells (trimBlanks "-9223372036854776832".toList) (-9223372036854776832) := by
    have hcs : trimBlanks "-9223372036854776832".toList =
        '-' :: "9223372036854776832".toList := by decide
    rw [hcs]
    exact .minus ⟨by decide, List.all_eq_true.mp rfl⟩
  have first : s.table.get? ⟨1⟩ = some (.temp (.text " +0300\t")) := rfl
  have second : s.table.get? ⟨2⟩ = some (.temp (.text "-9223372036854776832")) := rfl
  have holds := Table.integer_text_as_argument (s := s.store) first rfl rfl digits
  have holds' := Table.integer_text_as_argument (s := s.store) second rfl rfl digits'
  exact ⟨(holds .i16).1 _ (by decide), (holds .u8).2.2 (Or.inr (by decide)) (by decide),
    (holds' .i64).2.1 (by decide)⟩

/-- The integer before the least one of 64 bits is read as this one, not refused. -/
theorem Session.integer_before_least_is_not_refused :
    let s := (fresh "root" "").after [.ask (.makeTemp (.text "-9223372036854775809"))]
    Spells (trimBlanks "-9223372036854775809".toList) (-9223372036854775809) ∧
      -9223372036854775809 < IntType.min .i64 ∧
      (s.table.convert s.store (.value (.int .i64)) ⟨1⟩).toOption.map IntType.Value.toInt =
        some (-9223372036854775808) := by
  refine ⟨?_, by decide, by decide +kernel⟩
  have hcs : trimBlanks "-9223372036854775809".toList =
      '-' :: "9223372036854775809".toList := by decide
  rw [hcs]
  exact .minus ⟨by decide, List.all_eq_true.mp rfl⟩

/-! ## Numbers -/

/-- The whole part of a quantity, if the type has it. -/
def IntType.whole? (type : IntType) (q : Option Quantity) : Option type.Value :=
  (q.bind Quantity.wholePart?).bind type.ofInt?

theorem IntType.whole?_ofInt (type : IntType) (n : Int) :
    type.whole? (some (Quantity.ofInt n)) = type.ofInt? n := by
  show (some (wholePart n)).bind type.ofInt? = type.ofInt? n
  rw [wholePart_intCast, Option.bind_some]

/-- The number is an integer that needs all the bits of its format, and the digits it is printed
with are those of another integer that is made into the same number. -/
inductive PrintsOther : Option Format → Option Quantity → String → Int → Prop
  | intro {f : Format} {k n : Int} {text : String} (large : 2 ^ f.precision ≤ k.natAbs)
      (printed : Spells (trimBlanks text.toList) n)
      (nearest : (Binary.ofInt n : Binary f).value? = some (Quantity.ofInt k)) (other : k ≠ n) :
      PrintsOther (some f) (some (Quantity.ofInt k)) text n

namespace HostType

variable {type : IntType}

/-- An integer of the host is made into an integer of any type by way of its digits alone. -/
theorem ofArgument_intText {source : IntType} (v : source.Value) :
    ofArgument (.int type) (.ok (intText v.toInt)) (.ok (Binary.ofInt v.toInt)) =
      (type.ofInt? v.toInt).elim (.error (.outOfRange (intText v.toInt) type)) .ok := by
  rw [ofArgument_int, IntType.ofText?_eq_ofInt?]
  cases hn : type.ofInt? v.toInt with
  | some w => rfl
  | none =>
    -- no host integer is below the least one of 64 bits
    have hup : ¬ type.RoundsUp v.toInt := by
      have hmin : -2 ^ 63 ≤ source.min := by cases source <;> decide
      have low : source.min ≤ v.toInt := v.2.1
      intro hup
      have := hup.2.2
      omega
    rw [Option.none_or, IntType.truncate?_bind_ofInt? hn, if_neg hup]

theorem ofArgument_boolText (b : Bool) :
    ofArgument (.int type) (.ok (boolText b)) (.ok (cond b (Binary.ofInt 1) Binary.zero)) =
      (type.ofInt? (cond b 1 0)).elim (.error (.outOfRange (boolText b) type)) .ok := by
  have hword : type.ofText? (boolText b) = none := by
    cases type <;> cases b <;> decide
  have hwhole : (cond b (Binary.ofInt 1) Binary.zero : Double).truncate? = some (cond b 1 0) := by
    cases b <;> decide +kernel
  rw [ofArgument_int, hword, hwhole]
  rfl

theorem ofText?_toText_infinite {f : Format} (s : Bool) :
    type.ofText? (Binary.infinite s : Binary f).toText = none := by
  have hword : (Binary.infinite s : Binary f).toText = cond s "-inf" "inf" := by
    cases s <;> exact String.ofList_toList
  rw [hword]
  cases type <;> cases s <;> decide

/-- A parameter makes a number into its whole part, or into the other integer that it is printed
as. -/
theorem ofArgument_toText {f : Format} (low : f.minExp ≤ 0) (high : f.precision ≤ f.maxExp)
    (x : Binary f) {y : Double} (same : y.value? = x.value?) :
    ofArgument (.int type) (.ok x.toText) (.ok y) =
        (type.whole? x.value?).elim (.error (.outOfRange x.toText type)) .ok ∨
      ∃ v : type.Value, PrintsOther (some f) x.value? x.toText v.toInt ∧
        ofArgument (.int type) (.ok x.toText) (.ok y) = .ok v := by
  have hwhole : y.truncate?.bind type.ofInt? = type.whole? x.value? := by
    rw [Binary.truncate?_eq, same]
    rfl
  rw [ofArgument_int, hwhole]
  cases htext : type.ofText? x.toText with
  | none => exact Or.inl rfl
  | some v =>
    have spelled := spells_of_ofText? htext
    obtain ⟨z, hread, hz⟩ := spelled.exists_number (f := f)
    obtain rfl : x = z := Option.some.inj ((Binary.ofBlankText?_toText x).symm.trans hread)
    obtain ⟨q, hq⟩ := Binary.exists_faithful_ofInt (f := f) v.toInt
    have hvalue : x.value? = some q := hz.trans hq.value
    rcases hq.whole low high with rfl | ⟨k, rfl, large⟩ | hinfinite
    · exact Or.inl (by rw [hvalue, IntType.whole?_ofInt, IntType.ofInt?_toInt]; rfl)
    · by_cases hown : k = v.toInt
      · exact Or.inl (by rw [hvalue, hown, IntType.whole?_ofInt, IntType.ofInt?_toInt]; rfl)
      · exact Or.inr ⟨v, hvalue ▸ .intro large spelled hq.value hown, rfl⟩
    · -- the names of the infinities spell no integer
      have hends : x.value? = some ⊥ ∨ x.value? = some ⊤ := by
        rw [hvalue]
        exact hinfinite.imp (congrArg some) (congrArg some)
      obtain ⟨u, rfl⟩ := Binary.exists_infinite_of_value? hends
      rw [ofText?_toText_infinite] at htext
      cases htext

theorem ofArgument_of_reads (type : IntType) {f : Option Format} {q : Option Quantity}
    {text : String} {x : Double} (h : Entry.Reads f q text x) :
    ofArgument (.int type) (.ok text) (.ok x) =
        (type.whole? q).elim (.error (.outOfRange text type)) .ok ∨
      ∃ v : type.Value, PrintsOther f q text v.toInt ∧
        ofArgument (.int type) (.ok text) (.ok x) = .ok v := by
  cases h with
  | int v => exact Or.inl (by rw [ofArgument_intText, IntType.whole?_ofInt])
  | single x => exact ofArgument_toText (by decide) (by decide) x (Binary.value?_convert x)
  | double x => exact ofArgument_toText (by decide) (by decide) x rfl
  | bool b => exact Or.inl (by rw [ofArgument_boolText, IntType.whole?_ofInt])

end HostType

/-- An entry that stores a number gives a parameter of an integer type the whole part of the number
that it holds, if the type has it, and is refused if not. The exception is a floating-point number
that needs all the bits of its format: where it is printed as another integer, and the type has that
one, the parameter gets the integer that is printed. -/
theorem Table.stored_number_as_argument (live : t.get? id = some e)
    (stored : e.isNumeric? = some true) (s : Store) (type : IntType) :
    ∃ text, e.readText s = .ok text ∧
      (t.convert s (.value (.int type)) id = Attempt.ofError
          ((type.whole? (e.quantity? s)).elim (.error (.outOfRange text type)) .ok) ∨
        ∃ v : type.Value, PrintsOther e.format? (e.quantity? s) text v.toInt ∧
          t.convert s (.value (.int type)) id = .ok v) := by
  obtain ⟨text, x, hread, hnumber, hreads⟩ := Entry.reads_of_isNumeric stored s
  refine ⟨text, hread, ?_⟩
  rw [convert_of_live live, hread, hnumber]
  rcases HostType.ofArgument_of_reads type hreads with hown | ⟨v, other, hv⟩
  · exact Or.inl (congrArg Attempt.ofError hown)
  · exact Or.inr ⟨v, other, congrArg Attempt.ofError hv⟩

/-- The greatest integer of 64 bits, read through a link, given to the type that has it and to one
that has not. -/
theorem Session.greatest_integer_as_argument :
    let source : HostType := .int .u64
    let value : source.Carrier := (IntType.clamp .u64 18446744073709551615 : IntType.Value .u64)
    let s := (fresh "root" "").after
      [.change fun st => (st.add ⟨source, value⟩).2,
        .ask (.register Table.root "seed" "" (.linked (.var source ⟨0⟩) value))]
    s.table.convert s.store (.value (.int .u64)) ⟨1⟩ = .ok value ∧
      s.table.convert s.store (.value (.int .i64)) ⟨1⟩ =
        .error (.error (.outOfRange "18446744073709551615" .i64)) := by
  intro source value s
  obtain ⟨e, live, stored, hformat, hholds, hread⟩ : ∃ e, s.table.get? ⟨1⟩ = some e ∧
      e.isNumeric? = some true ∧ e.format? = none ∧
      e.quantity? s.store = some (Quantity.ofInt 18446744073709551615) ∧
      e.readText s.store = .ok (intText 18446744073709551615) := ⟨_, rfl, rfl, rfl, rfl, rfl⟩
  have htext : intText 18446744073709551615 = "18446744073709551615" := by decide +kernel
  have whole (type : IntType) : s.table.convert s.store (.value (.int type)) ⟨1⟩ =
      Attempt.ofError ((type.ofInt? 18446744073709551615).elim
        (.error (.outOfRange "18446744073709551615" type)) .ok) := by
    obtain ⟨text, hread', hown | ⟨v, other, -⟩⟩ :=
      Table.stored_number_as_argument live stored s.store type
    · obtain rfl : "18446744073709551615" = text :=
        htext ▸ Except.ok.inj (hread.symm.trans hread')
      rw [hown, hholds, IntType.whole?_ofInt]
    · -- an integer has no format
      rw [hformat] at other
      cases other
  exact ⟨whole .u64, whole .i64⟩

/-- Two large numbers that do not arrive. The double `2 ^ 62` is printed with fewer digits than it
has and read as the integer of these digits, and so is the single `2 ^ 31`, which should be
refused. -/
theorem Session.large_numbers_are_read_as_printed :
    let short : HostType := .single
    let value : short.Carrier := (Binary.ofInt 2147483648 : Single)
    let s := (fresh "root" "").after
      [.ask (.register Table.root "top" "" .number),
        .ask (.writeNumber ⟨1⟩ (Binary.ofInt 4611686018427387904)),
        .change fun st => (st.add ⟨short, value⟩).2,
        .ask (.register Table.root "short" "" (.linked (.var short ⟨0⟩) value))]
    let holds (id : EntryId) (n : Int) : Prop :=
      (s.table.get? id).bind (Entry.quantity? · s.store) = some (Quantity.ofInt n)
    let read (type : IntType) (id : EntryId) : Option Int :=
      (s.table.convert s.store (.value (.int type)) id).toOption.map IntType.Value.toInt
    holds ⟨1⟩ 4611686018427387904 ∧ read .i64 ⟨1⟩ = some 4611686018427388000 ∧
      holds ⟨2⟩ 2147483648 ∧ IntType.max .i32 < 2147483648 ∧
      read .i32 ⟨2⟩ = some 2147483600 := by
  intro short value s holds read
  have top : (Binary.ofInt 4611686018427387904 : Double).Denotes 4611686018427387904 :=
    Binary.denotes_ofInt_two_pow (b := 62) (by decide) (by decide)
  have held : (Binary.ofInt 2147483648 : Single).Denotes 2147483648 :=
    Binary.denotes_ofInt_of_canonical (m := 2 ^ 23) (e := 8) (by decide) (by norm_num)
  exact ⟨top.value?, by decide +kernel, held.value?, by decide, by decide +kernel⟩

end Settings
