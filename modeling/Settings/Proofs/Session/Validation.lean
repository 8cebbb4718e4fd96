import Settings.Proofs.Session.Runs
import Settings.Proofs.Table.Quantities
import Settings.Proofs.Table.Walks

/-!
# Validation

Validation lists the entries under a scope whose numbers break their constraints. It finds all
entries that are reached through registered children, and no others (`Holds.mem_settingsAll`), and
checks of each the double that is read from it. Since a check only refuses what is beyond a bound,
not-a-number is refused by no bound, and since an integer of the host is rounded on the way, one
that is beyond a bound is not refused if the double nearest to it is the bound. `Entry.Passes` says
of the number that an entry holds exactly that it meets the constraints, with just these exceptions.
-/

set_option autoImplicit false

namespace Settings

/-! ## What is reached -/

namespace Table

/-- Reached from an entry through registered children alone. -/
inductive Registers (t : Table) : EntryId → EntryId → Prop
  | child {top id : EntryId} {ids : List EntryId} (found : t.entries top = .ok ids)
      (mem : id ∈ ids) : Registers t top id
  | under {top c id : EntryId} {ids : List EntryId} (found : t.entries top = .ok ids)
      (mem : c ∈ ids) (rest : Registers t c id) : Registers t top id

end Table

theorem Tree.settingsAll_eq (xs : List Tree) : settingsAll xs = xs.flatMap settings := by
  induction xs with
  | nil => simp [settingsAll]
  | cons x xs ih => simp [settingsAll, ih]

theorem Tree.mem_settings {x : Tree} {id : EntryId} {e : Entry} :
    (id, e) ∈ x.settings ↔
      (x.entry.isScalar = true ∧ id = x.id ∧ e = x.entry) ∨ (id, e) ∈ settingsAll x.entries := by
  cases x with
  | node i entry es bs =>
    simp only [settings, List.mem_append, Tree.id, Tree.entry, Tree.entries]
    split <;> simp_all

namespace Table

variable {t : Table} {s : Store} {id : EntryId} {e : Entry}

theorem registers_iff {top : EntryId} {ids : List EntryId} (found : t.entries top = .ok ids) :
    t.Registers top id ↔ ∃ c ∈ ids, id = c ∨ t.Registers c id := by
  constructor
  · intro h
    cases h with
    | child found' mem =>
      obtain rfl := Except.ok.inj (found.symm.trans found')
      exact ⟨id, mem, Or.inl rfl⟩
    | @under _ c _ _ found' mem rest =>
      obtain rfl := Except.ok.inj (found.symm.trans found')
      exact ⟨c, mem, Or.inr rest⟩
  · rintro ⟨c, mem, rfl | rest⟩
    · exact .child found mem
    · exact .under found mem rest

theorem Holds.entries_eq {x : Tree} (hx : t.Holds x) :
    t.entries x.id = .ok (x.entries.map Tree.id) := by
  unfold entries
  rw [entry_eq_ok.mpr hx.live]
  cases hx with
  | leaf _ plain => simp [Except.map, Tree.entry, Tree.entries, plain]
  | scope _ body entries _ _ => simp [Except.map, Tree.entry, Tree.entries, body, entries]

/-- The settings of a tree are the scalars that are reached in the table. -/
theorem Holds.mem_settingsAll {x : Tree} (hx : t.Holds x) : (id, e) ∈ Tree.settingsAll x.entries ↔
    t.Registers x.id id ∧ t.get? id = some e ∧ e.isScalar = true := by
  have found := hx.entries_eq
  induction hx with
  | leaf => simp [Tree.entries, Tree.settingsAll, registers_iff found]
  | @scope top entry b es bs _ _ _ _ held ih =>
    have inner (y : Tree) (hy : y ∈ es) : (id, e) ∈ y.settings ↔
        (id = y.id ∨ t.Registers y.id id) ∧ t.get? id = some e ∧ e.isScalar = true := by
      have hmem : y ∈ es ++ bs := List.mem_append_left bs hy
      have hlive := (held y hmem).live
      have hbelow : (id, e) ∈ Tree.settingsAll y.entries ↔
          t.Registers y.id id ∧ t.get? id = some e ∧ e.isScalar = true :=
        ih y hmem (held y hmem).entries_eq
      rw [Tree.mem_settings, hbelow]
      constructor
      · rintro (⟨hscalar, rfl, rfl⟩ | ⟨hunder, rest⟩)
        · exact ⟨Or.inl rfl, hlive, hscalar⟩
        · exact ⟨Or.inr hunder, rest⟩
      · rintro ⟨rfl | hunder, hget, hscalar⟩
        · obtain rfl := Option.mem_unique hlive hget
          exact Or.inl ⟨hscalar, rfl, rfl⟩
        · exact Or.inr ⟨hunder, hget, hscalar⟩
    show (id, e) ∈ Tree.settingsAll es ↔ _
    rw [Tree.settingsAll_eq, List.mem_flatMap, registers_iff found]
    constructor
    · rintro ⟨y, hy, hsetting⟩
      obtain ⟨hreach, hrest⟩ := (inner y hy).mp hsetting
      exact ⟨⟨y.id, List.mem_map_of_mem hy, hreach⟩, hrest⟩
    · rintro ⟨⟨c, hc, hreach⟩, hrest⟩
      obtain ⟨y, hy, rfl⟩ := List.mem_map.mp hc
      exact ⟨y, hy, (inner y hy).mpr ⟨hreach, hrest⟩⟩

theorem Holds.mem_registered {x : Tree} (hx : t.Holds x) :
    id ∈ x.registered ↔ id = x.id ∨ t.Registers x.id id := by
  have found := hx.entries_eq
  induction hx with
  | leaf =>
    rw [registers_iff found]
    simp [Tree.registered_node, Tree.entries, Tree.id]
  | @scope top entry b es bs _ _ _ _ held ih =>
    have inner (y : Tree) (hy : y ∈ es) : id ∈ y.registered ↔ id = y.id ∨ t.Registers y.id id :=
      have hmem := List.mem_append_left bs hy
      ih y hmem (held y hmem).entries_eq
    rw [Tree.registered_node, List.mem_cons, List.mem_flatMap, registers_iff found]
    refine or_congr Iff.rfl ?_
    constructor
    · rintro ⟨y, hy, hid⟩
      exact ⟨y.id, List.mem_map_of_mem hy, (inner y hy).mp hid⟩
    · rintro ⟨c, hc, hreach⟩
      obtain ⟨y, hy, rfl⟩ := List.mem_map.mp hc
      exact ⟨y, hy, (inner y hy).mpr hreach⟩

/-- A child on one of the lists of an entry is on that list of a scope. -/
theorem exists_body_of_mem {f : ScopeBody → List EntryId} {scope : EntryId} {row : List EntryId}
    (found : ((t.entry scope).map fun e => (e.scope?.map f).getD []) = .ok row) (mem : id ∈ row) :
    ∃ e b, t.get? scope = some e ∧ e.scope? = some b ∧ id ∈ f b := by
  cases he : t.entry scope with
  | error y => simp [he, Except.map] at found
  | ok e =>
    cases hb : e.scope? with
    | none =>
      obtain rfl : [] = row := by simpa [he, hb, Except.map] using found
      exact absurd mem List.not_mem_nil
    | some b =>
      obtain rfl : f b = row := by simpa [he, hb, Except.map] using found
      exact ⟨e, b, entry_eq_ok.mp he, hb, mem⟩

theorem Registers.exists_scope {top : EntryId} (h : t.Registers top id) :
    ∃ scope e b, t.get? scope = some e ∧ e.scope? = some b ∧ id ∈ b.entries := by
  induction h with
  | @child scope _ _ found mem => exact ⟨scope, exists_body_of_mem found mem⟩
  | under _ _ _ ih => exact ih

/-- A child has one scope, and is on one of its lists only. -/
theorem Sound.not_registers_of_builtin (h : t.Sound) {scope top : EntryId} {row : List EntryId}
    (found : t.builtins scope = .ok row) (mem : id ∈ row) : ¬ t.Registers top id := by
  intro hreach
  obtain ⟨e, b, live, body, hbuiltin⟩ := exists_body_of_mem found mem
  obtain ⟨scope', e', b', live', body', hentry⟩ := hreach.exists_scope
  have hchild : id ∈ e.children :=
    (children_eq body).symm ▸ List.mem_append_right b.entries hbuiltin
  have hchild' : id ∈ e'.children :=
    (children_eq body').symm ▸ List.mem_append_left b'.builtins hentry
  obtain ⟨c, lc, -, howner⟩ := h.child live hchild
  obtain ⟨c', lc', -, howner'⟩ := h.child live' hchild'
  obtain rfl := Option.mem_unique lc lc'
  obtain rfl := Option.mem_unique howner howner'
  obtain rfl := Option.mem_unique live live'
  obtain rfl := Option.mem_unique body body'
  have hnodup := h.children_nodup live
  rw [children_eq body, ScopeBody.children, List.nodup_append] at hnodup
  exact hnodup.2.2 id hentry id hbuiltin rfl

end Table

/-! ## What is checked -/

/-- The number is an integer of more bits than a double has, and the bound is the double nearest to
it. -/
def RoundsTo (r b : Quantity) : Prop :=
  ∃ n : Int, r = Quantity.ofInt n ∧ 2 ^ 53 < n.natAbs ∧
    (Binary.ofInt n : Double).value? = some b

namespace Entry

variable {e : Entry} {s : Store} {x : Double}

/-- The number that the entry holds exactly meets the constraints. Not-a-number is beyond no bound
and no number is beyond it, and an integer may be beyond a bound that it is rounded to. -/
structure Passes (e : Entry) (s : Store) : Prop where
  min : ∀ low ∈ e.min, ∀ r ∈ e.quantity? s, ∀ b ∈ low.value?, b ≤ r ∨ RoundsTo r b
  max : ∀ high ∈ e.max, ∀ r ∈ e.quantity? s, ∀ b ∈ high.value?, r ≤ b ∨ RoundsTo r b
  whole : e.integerOnly = true → ∃ n : Int, e.quantity? s = some (Quantity.ofInt n)

theorem accepts_iff : e.accepts x = true ↔
    (∀ low ∈ e.min, ∀ a ∈ x.value?, ∀ b ∈ low.value?, b ≤ a) ∧
    (∀ high ∈ e.max, ∀ a ∈ x.value?, ∀ b ∈ high.value?, a ≤ b) ∧
    (e.integerOnly = true → ∃ n, x.value? = some (Quantity.ofInt n)) := by
  have any_eq_false (bound : Option Double) (p : Double → Bool) :
      bound.any p = false ↔ ∀ y ∈ bound, p y = false := by
    cases bound <;> simp
  unfold accepts
  rw [Bool.and_eq_true, Bool.and_eq_true, Bool.not_eq_true', Bool.not_eq_true', any_eq_false,
    any_eq_false, Bool.or_eq_true, Bool.not_eq_true', Binary.isWhole_iff, and_assoc]
  simp only [Binary.lt_eq_false_iff]
  refine and_congr Iff.rfl (and_congr ?_ ?_)
  · exact ⟨fun h y hy a ha b hb => h y hy b hb a ha, fun h y hy b hb a ha => h y hy a ha b hb⟩
  · cases e.integerOnly <;> simp

/-- The double that is read from an entry has not passed a bound, and where it is the bound either
the entry holds the bound or it has been rounded to it. -/
theorem beside_bound (h : e.readNumber s = .ok x) {a r b : Quantity} (ha : x.value? = some a)
    (hr : e.quantity? s = some r) {y : Double} (hb : y.value? = some b) :
    (b ≤ r → b ≤ a) ∧ (r ≤ b → a ≤ b) ∧ (a = b → r = b ∨ RoundsTo r b) ∧
      (RoundsTo r b → a = b) := by
  rcases value?_readNumber h with hsame | ⟨n, hn, rfl, large, -⟩
  · obtain rfl : a = r := Option.some.inj (ha.symm.trans (hsame.trans hr))
    refine ⟨id, id, Or.inl, ?_⟩
    -- what is a double is rounded to itself
    rintro ⟨n, rfl, -, hvalue⟩
    obtain ⟨v, hv⟩ := Binary.exists_faithful_ofInt (f := .double) n
    obtain rfl : v = b := Option.some.inj (hv.value.symm.trans hvalue)
    exact (hv.eq_of_value ha).symm
  · obtain rfl : Quantity.ofInt n = r := Option.some.inj (hn.symm.trans hr)
    obtain ⟨v, hv⟩ := Binary.exists_faithful_ofInt (f := .double) n
    obtain rfl : v = a := Option.some.inj (hv.value.symm.trans ha)
    refine ⟨hv.le hb, hv.ge hb, ?_, ?_⟩
    · rintro rfl
      exact Or.inr ⟨n, rfl, large, ha⟩
    · rintro ⟨k, hk, -, hvalue⟩
      obtain rfl := Quantity.ofInt_injective hk
      exact Option.some.inj (ha.symm.trans hvalue)

/-- The double that is read from an entry is on the same side of a bound as what the entry holds,
unless it has been rounded to the bound. -/
theorem beyond_iff (h : e.readNumber s = .ok x) {a r b : Quantity} (ha : x.value? = some a)
    (hr : e.quantity? s = some r) {y : Double} (hb : y.value? = some b) :
    (b ≤ a ↔ b ≤ r ∨ RoundsTo r b) ∧ (a ≤ b ↔ r ≤ b ∨ RoundsTo r b) := by
  obtain ⟨hlow, hhigh, hequal, hround⟩ := beside_bound h ha hr hb
  constructor
  · constructor
    · intro hle
      rcases le_total b r with hbelow | habove
      · exact Or.inl hbelow
      · exact (hequal (le_antisymm (hhigh habove) hle)).imp_left Eq.ge
    · rintro (hbelow | heq)
      · exact hlow hbelow
      · exact (hround heq).ge
  · constructor
    · intro hle
      rcases le_total r b with habove | hbelow
      · exact Or.inl habove
      · exact (hequal (le_antisymm hle (hlow hbelow))).imp_left Eq.le
    · rintro (habove | heq)
      · exact hhigh habove
      · exact (hround heq).le

/-- The double is whole just if the number is. -/
theorem whole_iff (h : e.readNumber s = .ok x) :
    (∃ n, x.value? = some (Quantity.ofInt n)) ↔ ∃ n, e.quantity? s = some (Quantity.ofInt n) := by
  rcases value?_readNumber h with hsame | ⟨n, hn, rfl, -, bits⟩
  · rw [hsame]
  · obtain ⟨k, hk⟩ := Binary.exists_denotes_ofInt bits
    exact ⟨fun _ => ⟨n, hn⟩, fun _ => ⟨k, hk.value?⟩⟩

theorem value_cases (h : e.readNumber s = .ok x) :
    (x.value? = none ∧ e.quantity? s = none) ∨
      ∃ a r, x.value? = some a ∧ e.quantity? s = some r := by
  rcases value?_readNumber h with hsame | ⟨n, hn, rfl, -⟩
  · cases hx : x.value? with
    | none => exact Or.inl ⟨rfl, hsame ▸ hx⟩
    | some a => exact Or.inr ⟨a, a, rfl, hsame ▸ hx⟩
  · obtain ⟨v, hv⟩ := Binary.exists_faithful_ofInt (f := .double) n
    exact Or.inr ⟨v, _, hv.value, hn⟩

/-- The check of the double that is read is a check of what the entry holds. -/
theorem passes_iff (h : e.readNumber s = .ok x) : e.Passes s ↔ e.accepts x = true := by
  rw [accepts_iff, whole_iff h]
  rcases value_cases h with ⟨hx, hq⟩ | ⟨a, r, ha, hr⟩
  · constructor
    · intro hp
      exact ⟨by simp [hx], by simp [hx], hp.whole⟩
    · rintro ⟨-, -, hwhole⟩
      exact ⟨by simp [hq], by simp [hq], hwhole⟩
  · constructor
    · intro hp
      refine ⟨?_, ?_, hp.whole⟩
      · intro low hlow a' ha' b hb
        obtain rfl := Option.mem_unique ha ha'
        exact (beyond_iff h ha hr hb).1.mpr (hp.min low hlow r hr b hb)
      · intro high hhigh a' ha' b hb
        obtain rfl := Option.mem_unique ha ha'
        exact (beyond_iff h ha hr hb).2.mpr (hp.max high hhigh r hr b hb)
    · rintro ⟨hmin, hmax, hwhole⟩
      refine ⟨?_, ?_, hwhole⟩
      · intro low hlow r' hr' b hb
        obtain rfl := Option.mem_unique hr hr'
        exact (beyond_iff h ha hr hb).1.mp (hmin low hlow a ha b hb)
      · intro high hhigh r' hr' b hb
        obtain rfl := Option.mem_unique hr hr'
        exact (beyond_iff h ha hr hb).2.mp (hmax high hhigh a ha b hb)

end Entry

/-! ## What is listed -/

/-- Validation of an entry of any table that a host can come to ends, and lists just the scalars of
numeric kind that are reached from the entry through registered children, can be read as a number,
and hold one that does not meet their constraints. -/
theorem Table.validate_lists_what_does_not_pass {t : Table} (h : t.Reachable) {top : EntryId}
    {root : Entry} (live : t.get? top = some root) (s : Store) :
    ∃ listed, t.validate s top = .ok listed ∧ ∀ id, id ∈ listed ↔
      t.Registers top id ∧ ∃ e x, t.get? id = some e ∧ e.isScalar = true ∧
        e.kind.isNumeric = true ∧ e.readNumber s = .ok x ∧ ¬ e.Passes s := by
  obtain ⟨x, htree⟩ := h.sound.exists_tree live
  obtain ⟨⟨hx, -⟩, rfl⟩ := tree_eq_ok_iff.mp htree
  refine ⟨_, congrArg (Except.map _) htree, ?_⟩
  intro id
  have hviolates (e : Entry) : violates s e = true ↔
      e.kind.isNumeric = true ∧ ∃ x, e.readNumber s = .ok x ∧ ¬ e.Passes s := by
    unfold violates
    cases hread : e.readNumber s with
    | error _ => simp
    | ok x => simp [Entry.passes_iff hread]
  constructor
  · intro hid
    obtain ⟨⟨id', e⟩, hmem, rfl⟩ := List.mem_map.mp hid
    obtain ⟨hsetting, hv⟩ := List.mem_filter.mp hmem
    obtain ⟨hreach, hget, hscalar⟩ := hx.mem_settingsAll.mp hsetting
    obtain ⟨hkind, y, hread, hno⟩ := (hviolates e).mp hv
    exact ⟨hreach, e, y, hget, hscalar, hkind, hread, hno⟩
  · rintro ⟨hreach, e, y, hget, hscalar, hkind, hread, hno⟩
    refine List.mem_map.mpr ⟨(id, e), List.mem_filter.mpr ⟨?_, ?_⟩, rfl⟩
    · exact hx.mem_settingsAll.mpr ⟨hreach, hget, hscalar⟩
    · exact (hviolates e).mpr ⟨hkind, y, hread, hno⟩

/-- Of two entries in a scope, one is above its maximum and the other is above its minimum. -/
theorem Session.size_above_maximum_is_listed :
    let size : HostType := .int .i32
    let value : size.Carrier := (IntType.clamp .i32 7 : IntType.Value .i32)
    let s := (fresh "root" "").after
      [.change fun st => (st.add ⟨size, value⟩).2,
        .ask (.register Table.root "pop" "" (.scope "")),
        .ask (.register ⟨1⟩ "size" "" (.linked (.var size ⟨0⟩) value)),
        .ask (.register ⟨1⟩ "rate" "" .number), .ask (.edit ⟨2⟩ (.max (Binary.ofInt 5))),
        .ask (.edit ⟨3⟩ (.min Binary.zero)), .ask (.writeNumber ⟨3⟩ (Binary.ofInt 1))]
    ∃ listed, s.table.validate s.store Table.root = .ok listed ∧ ⟨2⟩ ∈ listed ∧ ⟨3⟩ ∉ listed := by
  intro size value s
  have h : s.table.Reachable := ⟨"root", "", _, rfl⟩
  obtain ⟨top, hroot⟩ : ∃ e, s.table.get? Table.root = some e :=
    Option.isSome_iff_exists.mp (by decide +kernel)
  obtain ⟨listed, hlisted, hiff⟩ := Table.validate_lists_what_does_not_pass h hroot s.store
  refine ⟨listed, hlisted, ?_, ?_⟩
  · have scope : s.table.entries Table.root = .ok [⟨1⟩] := by decide +kernel
    have settings : s.table.entries ⟨1⟩ = .ok [⟨2⟩, ⟨3⟩] := by decide +kernel
    have reached : s.table.Registers Table.root ⟨2⟩ :=
      .under scope (List.mem_singleton_self _) (.child settings List.mem_cons_self)
    obtain ⟨e, live⟩ : ∃ e, s.table.get? ⟨2⟩ = some e :=
      Option.isSome_iff_exists.mp (by decide +kernel)
    have hkind : (s.table.get? ⟨2⟩).map (fun e => (e.isScalar, e.kind.isNumeric,
        e.accepts (Binary.ofInt 7))) = some (true, true, false) := by decide +kernel
    have hread : s.table.readNumber s.store ⟨2⟩ = .ok (Binary.ofInt 7) := by decide +kernel
    rw [Table.readNumber_eq_ok live] at hread
    simp only [live, Option.map_some, Option.some.injEq, Prod.mk.injEq] at hkind
    obtain ⟨hscalar, hkind, hno⟩ := hkind
    refine (hiff ⟨2⟩).mpr ⟨reached, e, _, live, hscalar, hkind, hread, ?_⟩
    rw [Entry.passes_iff hread, hno]
    exact Bool.false_ne_true
  · intro hmem
    obtain ⟨-, e, x, live, -, -, -, hno⟩ := (hiff ⟨3⟩).mp hmem
    have hyes : (s.table.get? ⟨3⟩).map (·.accepts (Binary.ofInt 1)) = some true := by
      decide +kernel
    have hread : s.table.readNumber s.store ⟨3⟩ = .ok (Binary.ofInt 1) := by decide +kernel
    rw [Table.readNumber_eq_ok live] at hread
    rw [live] at hyes
    exact hno ((Entry.passes_iff hread).mpr (Option.some.inj hyes))

/-- Not-a-number is not listed where there is a minimum, and an integer one above its maximum is not
listed where the double nearest to it is the maximum. -/
theorem Session.undefined_and_rounded_numbers_are_not_listed :
    let count : HostType := .int .u64
    let value : count.Carrier := (IntType.clamp .u64 9007199254740993 : IntType.Value .u64)
    let s := (fresh "root" "").after
      [.change fun st => (st.add ⟨count, value⟩).2,
        .ask (.register Table.root "ratio" "" .number), .ask (.edit ⟨1⟩ (.min Binary.zero)),
        .ask (.writeNumber ⟨1⟩ .nan),
        .ask (.register Table.root "count" "" (.linked (.var count ⟨0⟩) value)),
        .ask (.edit ⟨2⟩ (.max (Binary.ofInt 9007199254740992)))]
    let entry (id : EntryId) := s.table.get? id
    s.table.validate s.store Table.root = .ok [] ∧
      (entry ⟨1⟩).map (fun e => (e.kind, e.min)) = some (.double, some Binary.zero) ∧
      s.table.readNumber s.store ⟨1⟩ = .ok .nan ∧ Binary.le Binary.zero (.nan : Double) = false ∧
      (entry ⟨2⟩).map (fun e => (e.kind, e.max)) =
        some (.unsigned, some (Binary.ofInt 9007199254740992)) ∧
      (entry ⟨2⟩).bind (Entry.quantity? · s.store) = some (Quantity.ofInt 9007199254740993) ∧
      (Binary.ofInt 9007199254740992 : Double).value? = some (Quantity.ofInt 9007199254740992) := by
  intro count value s entry
  refine ⟨by decide +kernel, by decide +kernel, by decide +kernel, rfl, by decide +kernel, ?_,
    (Binary.denotes_ofInt_of_le (by decide)).value?⟩
  decide +kernel

end Settings
