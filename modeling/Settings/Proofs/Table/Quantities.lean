import Settings.Entry
import Settings.Proofs.Host.Arguments

/-!
# What entries hold

An entry with a value holds a rational number or an infinity, or nothing that has a place among the
numbers: `Entry.quantity?` is what it holds exactly, an integer of the host with all of its digits.
An entry that stores a number is read in two ways, and `Entry.Reads` tells for each kind of number
what text and what double these are. The double has the value that the entry holds, with one
exception: an integer past `2 ^ 53` is read as the double nearest to it (`Entry.value?_readNumber`).
-/

set_option autoImplicit false

namespace Settings

namespace HostType

/-- What a value of a host type is exactly. -/
def quantity? : (t : HostType) → t.Carrier → Option Quantity
  | int _, v => some (Quantity.ofInt (IntType.Value.toInt v))
  | single, x => Binary.value? (x : Single)
  | double, x => Binary.value? (x : Double)
  | bool, b => some (Quantity.ofInt (cond b 1 0))
  | text, s => (parseNumber s).toOption.bind Binary.value?

/-- The format that the values of a host type are numbers of, if they are. -/
def format? : HostType → Option Format
  | single => some .single
  | double => some .double
  | int _ | bool | text => none

/-- A text is read as the number that it spells, and holds that number. -/
theorem readings_of_isText {t : HostType} (h : t.isText = true) (v : t.Carrier) :
    t.toNumber v = parseNumber (t.toText v) ∧
      t.quantity? v = (parseNumber (t.toText v)).toOption.bind Binary.value? := by
  cases t with
  | text => exact ⟨rfl, rfl⟩
  | int _ => cases h
  | single => cases h
  | double => cases h
  | bool => cases h

end HostType

/-- A single is made into the double of the same value. -/
theorem Binary.value?_convert (x : Single) : (convert x : Double).value? = x.value? := by
  cases x with
  | nan => rfl
  | infinite s => rfl
  | finite s m e h =>
    obtain ⟨v, hv⟩ := exists_faithful_ofDyadic (f := .double) s m e
    have hm : m < 2 ^ Format.double.precision := h.1.trans (by decide)
    have low : Format.double.minExp ≤ e := le_trans (by decide) h.2.1
    have high : e ≤ Format.double.maxExp := h.2.2.1.trans (by decide)
    obtain ⟨n, d, canonical, value⟩ := Format.double.exists_canonical hm low high
    have hy : (Binary.finite s n d canonical).value? =
        some ((signed s m * 2 ^ e : ℚ) : Quantity) := by
      refine congrArg some (congrArg WithBotTop.coe ?_)
      cases s <;> simp [signed, value]
    exact hv.value.trans (congrArg some (hv.eq_of_value hy))

namespace Entry

/-- What an entry holds exactly; none for an entry that holds no number, or not-a-number. -/
def quantity? (e : Entry) (s : Store) : Option Quantity :=
  match e.storage with
  | .linked target => target.type.quantity? (target.read s)
  | .number x => x.value?
  | .text t => (parseNumber t).toOption.bind Binary.value?
  | .function _ | .scope _ => none

def format? (e : Entry) : Option Format :=
  match e.storage with
  | .linked target => target.type.format?
  | .number _ => some .double
  | .text _ | .function _ | .scope _ => none

/-- The text and the double that a stored number is read as, with its format and with the number
itself. -/
inductive Reads : Option Format → Option Quantity → String → Double → Prop
  | int {type : IntType} (v : type.Value) :
      Reads none (some (Quantity.ofInt v.toInt)) (intText v.toInt) (Binary.ofInt v.toInt)
  | single (x : Single) : Reads (some .single) x.value? x.toText (Binary.convert x)
  | double (x : Double) : Reads (some .double) x.value? x.toText x
  | bool (b : Bool) : Reads none (some (Quantity.ofInt (cond b 1 0))) (HostType.boolText b)
      (cond b (Binary.ofInt 1) Binary.zero)

theorem reads_of_type {t : HostType} (h : t.isText = false) (v : t.Carrier) :
    ∃ x, t.toNumber v = .ok x ∧ Reads t.format? (t.quantity? v) (t.toText v) x := by
  cases t with
  | int type => exact ⟨_, rfl, .int v⟩
  | single => exact ⟨_, rfl, .single v⟩
  | double => exact ⟨_, rfl, .double v⟩
  | bool => exact ⟨_, rfl, .bool v⟩
  | text => cases h

variable {e : Entry} {s : Store}

/-! ### Forms of storage -/

theorem storage_of_isNumeric (h : e.isNumeric? = some true) :
    (∃ target, e.storage = .linked target ∧ target.type.isText = false) ∨
      ∃ x, e.storage = .number x := by
  unfold isNumeric? at h
  cases hs : e.storage with
  | linked target => exact Or.inl ⟨target, rfl, by simpa [hs] using h⟩
  | number x => exact Or.inr ⟨x, rfl⟩
  | text _ => simp [hs] at h
  | function _ => simp [hs] at h
  | scope _ => simp [hs] at h

theorem storage_of_isText (h : e.isNumeric? = some false) :
    (∃ target, e.storage = .linked target ∧ target.type.isText = true) ∨
      ∃ text, e.storage = .text text := by
  unfold isNumeric? at h
  cases hs : e.storage with
  | linked target => exact Or.inl ⟨target, rfl, by simpa [hs] using h⟩
  | text text => exact Or.inr ⟨text, rfl⟩
  | number _ => simp [hs] at h
  | function _ => simp [hs] at h
  | scope _ => simp [hs] at h

/-- A function and a scope have no value in any form. -/
theorem no_value (h : e.isNumeric? = none) (s : Store) :
    e.readNumber s = .error (e.unsupported .numericRead) ∧
      e.readText s = .error (e.unsupported .stringRead) ∧ e.snapshot s = none := by
  unfold isNumeric? at h
  unfold readNumber readText snapshot
  cases hs : e.storage with
  | function _ => exact ⟨rfl, rfl, rfl⟩
  | scope _ => exact ⟨rfl, rfl, rfl⟩
  | linked _ => simp [hs] at h
  | number _ => simp [hs] at h
  | text _ => simp [hs] at h

/-! ### Readings -/

theorem reads_of_isNumeric (h : e.isNumeric? = some true) (s : Store) :
    ∃ text x, e.readText s = .ok text ∧ e.readNumber s = .ok x ∧
      Reads e.format? (e.quantity? s) text x := by
  unfold readText readNumber format? quantity?
  rcases storage_of_isNumeric h with ⟨target, hs, htext⟩ | ⟨x, hs⟩
  · obtain ⟨x, hx, hreads⟩ := reads_of_type htext (target.read s)
    rw [hs]
    exact ⟨_, x, rfl, hx, hreads⟩
  · rw [hs]
    exact ⟨_, x, rfl, rfl, .double x⟩

/-- The text of a stored number is a numeral or a word, with no blank in it. -/
theorem Reads.isBlank_of_mem {f : Option Format} {q : Option Quantity} {text : String} {x : Double}
    (h : Reads f q text x) : ∀ c ∈ text.toList, isBlank c = false := by
  cases h with
  | int v => exact isBlank_of_mem_intText v.toInt
  | single x => exact Binary.isBlank_of_mem_toText x
  | double x => exact Binary.isBlank_of_mem_toText x
  | bool b => cases b <;> simp [HostType.boolText, isBlank]

/-- The double has the value of the number, but for an integer that needs more bits. -/
theorem Reads.value? {f : Option Format} {q : Option Quantity} {text : String} {x : Double}
    (h : Reads f q text x) : x.value? = q ∨
      ∃ n : Int, q = some (Quantity.ofInt n) ∧ x = Binary.ofInt n ∧
        2 ^ 53 < n.natAbs ∧ n.natAbs ≤ 2 ^ 64 := by
  cases h with
  | int v =>
    rcases le_or_gt v.toInt.natAbs (2 ^ 53) with hsmall | hlarge
    · exact Or.inl (Binary.denotes_ofInt_of_le hsmall).value?
    · exact Or.inr ⟨v.toInt, rfl, rfl, hlarge, IntType.natAbs_toInt_le v⟩
  | single x => exact Or.inl (Binary.value?_convert x)
  | double x => exact Or.inl rfl
  | bool b =>
    cases b with
    | true => exact Or.inl (Binary.denotes_ofInt_of_le (n := 1) (by decide)).value?
    | false => exact Or.inl (Binary.denotes_ofInt_of_le (n := 0) (by decide)).value?

/-- An entry that stores a text is read as what the text spells. -/
theorem readings_of_isText (h : e.isNumeric? = some false) (s : Store) :
    ∃ text, e.readText s = .ok text ∧ e.readNumber s = parseNumber text ∧
      e.quantity? s = (parseNumber text).toOption.bind Binary.value? := by
  unfold readText readNumber quantity?
  rcases storage_of_isText h with ⟨target, hs, htext⟩ | ⟨text, hs⟩
  · rw [hs]
    exact ⟨_, rfl, HostType.readings_of_isText htext (target.read s)⟩
  · rw [hs]
    exact ⟨text, rfl, rfl, rfl⟩

/-- What is read from an entry is what it holds, but for an integer that needs more bits. -/
theorem value?_readNumber {x : Double} (h : e.readNumber s = .ok x) : x.value? = e.quantity? s ∨
    ∃ n : Int, e.quantity? s = some (Quantity.ofInt n) ∧ x = Binary.ofInt n ∧
      2 ^ 53 < n.natAbs ∧ n.natAbs ≤ 2 ^ 64 := by
  cases hn : e.isNumeric? with
  | none =>
    rw [(no_value hn s).1] at h
    cases h
  | some numeric =>
    cases numeric with
    | true =>
      obtain ⟨text, y, -, hy, hreads⟩ := reads_of_isNumeric hn s
      obtain rfl : y = x := Except.ok.inj (hy.symm.trans h)
      exact hreads.value?
    | false =>
      obtain ⟨text, -, hread, hquantity⟩ := readings_of_isText hn s
      have hparse : parseNumber text = .ok x := hread.symm.trans h
      exact Or.inl (by rw [hquantity, hparse]; rfl)

end Entry

end Settings
