import Settings.Proofs.Listing.Lines

/-!
# The order of validation

What breaks its constraints is reported in the order in which it is listed, so that a report can be
read beside the listing. The listing goes through a scope line by line. `Table.collect` goes through
it as well, with the entries found so far in hand: from one registered child to the next, to what is
under the child if that is a scope, and else to a check of its number. Both come by the same values
in the same order, so what is collected is the listed values that do not pass the check, and that is
what validation gives (`Holds.collectWithin_eq`).
-/

set_option autoImplicit false

namespace Settings
namespace Table

open Listing

variable {t : Table} {s : Store} {x : Tree}

/-! ## Collecting -/

/-- Adds what breaks its constraints under an entry, down to a depth, to what has been found. -/
def collectWithin (t : Table) (s : Store) :
    (depth : Nat) → (found : List EntryId) → EntryId → Except Fault (List EntryId)
  | 0, _, _ => .error .cyclicTree
  | depth + 1, found, id => do
      (← t.entries id).foldlM (fun found c => do
        let e ← t.entry c
        if e.isScope then t.collectWithin s depth found c
        else if violates s e then return found ++ [c]
        else return found) found

def collect (t : Table) (s : Store) (id : EntryId) : Except Fault (List EntryId) :=
  t.collectWithin s (t.slots.size + 1) [] id

/-- The handles of those that break their constraints. -/
def broken (s : Store) (settings : List (EntryId × Entry)) : List EntryId :=
  (settings.filter fun setting => violates s setting.2).map Prod.fst

theorem broken_append (s : Store) (xs ys : List (EntryId × Entry)) :
    broken s (xs ++ ys) = broken s xs ++ broken s ys := by
  simp [broken]

theorem broken_flatMap (s : Store) (xs : List Tree) :
    xs.flatMap (fun y => broken s y.settings) = broken s (Tree.settingsAll xs) := by
  induction xs with
  | nil => simp [Tree.settingsAll, broken]
  | cons x xs ih => simp [Tree.settingsAll, broken_append, ih]

/-- A walk along a row of which every step adds to what has been found. -/
theorem foldlM_appends {α β ε : Type} {f : List β → α → Except ε (List β)} {g : α → List β}
    {as : List α} (h : ∀ a ∈ as, ∀ found, f found a = .ok (found ++ g a)) (found : List β) :
    as.foldlM f found = .ok (found ++ as.flatMap g) := by
  induction as generalizing found with
  | nil => simp [pure, Except.pure]
  | cons a as ih =>
    obtain ⟨ha, has⟩ := List.forall_mem_cons.mp h
    rw [List.foldlM_cons, ha found]
    show as.foldlM f (found ++ g a) = _
    rw [ih has, List.flatMap_cons, List.append_assoc]

/-- An entry that is no scope has nothing under it, and breaks constraints only if it is a value. -/
theorem Holds.broken_settings (hx : t.Holds x) (hscope : x.entry.isScope = false) (s : Store) :
    broken s x.settings = if violates s x.entry then [x.id] else [] := by
  cases hx with
  | @leaf id e live plain =>
    have hsettings : (Tree.node id e [] []).settings = if e.isScalar then [(id, e)] else [] := by
      simp [Tree.settings, Tree.settingsAll]
    rw [hsettings]
    cases hscalar : e.isScalar with
    | true => cases hv : violates s e <;> simp [broken, hv, Tree.entry, Tree.id]
    | false =>
      have hnone : violates s e = false := by
        have hf : e.isFunction = true := by
          simpa [Entry.isScalar, show e.isScope = false from hscope] using hscalar
        unfold violates Entry.readNumber
        cases hs : e.storage with
        | function f => simp
        | linked | number | text | scope => simp [Entry.isFunction, hs] at hf
      simp [broken, hnone, Tree.entry]
  | scope live body =>
    exact absurd ((isScope_of_scope? body).symm.trans hscope) (by decide)

theorem Holds.settings_of_isScope (hscope : x.entry.isScope = true) :
    x.settings = Tree.settingsAll x.entries := by
  cases x with
  | node id e es bs =>
    have hscalar : e.isScalar = false := by simp [Entry.isScalar, show e.isScope = true from hscope]
    simp [Tree.settings, Tree.entries, hscalar]

/-- What is collected is what the tree has of it, behind what was found before. -/
theorem Holds.collectWithin_eq (hx : t.Holds x) {depth : Nat} (hd : x.height ≤ depth)
    (found : List EntryId) : t.collectWithin s depth found x.id =
      .ok (found ++ broken s (Tree.settingsAll x.entries)) := by
  induction hx generalizing depth found with
  | @leaf id e live plain =>
    cases depth with
    | zero => simp [Tree.height] at hd
    | succ depth =>
      unfold collectWithin
      rw [(Holds.leaf live plain).entries_eq]
      simp [Tree.entries, Tree.settingsAll, broken, bind, Except.bind, pure, Except.pure]
  | @scope id e b es bs live body entries builtins held ih =>
    cases depth with
    | zero => simp [Tree.height] at hd
    | succ depth =>
      have hd := Tree.height_le_succ.mp hd
      unfold collectWithin
      rw [(Holds.scope live body entries builtins held).entries_eq]
      show ((es.map Tree.id).foldlM _ found : Except Fault (List EntryId)) = _
      rw [List.foldlM_map, ← broken_flatMap]
      refine foldlM_appends (fun y hy found => ?_) found
      have hmem := List.mem_append_left bs hy
      rw [entry_eq_ok.mpr (held y hmem).live]
      show (if y.entry.isScope then _ else _ : Except Fault (List EntryId)) = _
      cases hscope : y.entry.isScope with
      | true =>
        -- what is under the scope is collected, and the scope itself is no setting
        rw [if_pos rfl, Holds.settings_of_isScope hscope]
        exact ih y hmem (hd y hmem) found
      | false =>
        rw [(held y hmem).broken_settings hscope]
        cases violates s y.entry <;> simp [pure, Except.pure]

theorem collect_eq_broken {id : EntryId} (htree : t.tree id = .ok x) (s : Store) :
    t.collect s id = .ok (broken s (Tree.settingsAll x.entries)) := by
  obtain ⟨⟨hx, hh⟩, rfl⟩ := tree_eq_ok_iff.mp htree
  unfold collect
  rw [hx.collectWithin_eq hh, List.nil_append]

theorem validate_eq_broken {id : EntryId} (htree : t.tree id = .ok x) (s : Store) :
    t.validate s id = .ok (broken s (Tree.settingsAll x.entries)) := by
  unfold validate
  rw [htree]
  rfl

/-- What is found to break its constraints is there and does. -/
theorem Holds.violates_of_mem_broken (hx : t.Holds x) {id : EntryId}
    (h : id ∈ broken s (Tree.settingsAll x.entries)) :
    ∃ e, t.get? id = some e ∧ violates s e = true := by
  obtain ⟨⟨_, e⟩, hfilter, rfl⟩ := List.mem_map.mp h
  obtain ⟨hsetting, hviolates⟩ := List.mem_filter.mp hfilter
  exact ⟨e, (hx.mem_settingsAll.mp hsetting).2.1, hviolates⟩

/-! ## The two orders -/

/-- The entries that are validated are those that are printed and do not pass the check, in the
order in which they are printed. -/
structure InOrder (t : Table) (s : Store) (top : EntryId) (printed listed : List EntryId) :
    Prop where
  sublist : listed.Sublist printed
  nodup : printed.Nodup
  mem_listed : ∀ y, y ∈ listed ↔ y ∈ printed ∧ ∃ e n, t.get? y = some e ∧
    e.kind.isNumeric = true ∧ e.readNumber s = .ok n ∧ e.accepts n = false
  mem_printed : ∀ y, y ∈ printed ↔
    t.Registers top y ∧ ∃ e, t.get? y = some e ∧ e.isScalar = true
  builtin : ∀ scope row, t.builtins scope = .ok row → ∀ y ∈ row, y ∉ printed

theorem violates_iff {e : Entry} : violates s e = true ↔
    e.kind.isNumeric = true ∧ ∃ n, e.readNumber s = .ok n ∧ e.accepts n = false := by
  unfold violates
  cases e.readNumber s <;> simp

theorem mem_broken {settings : List (EntryId × Entry)} {y : EntryId} :
    y ∈ broken s settings ↔ ∃ e, (y, e) ∈ settings ∧ violates s e = true := by
  simp [broken]

theorem Sound.inOrder (h : t.Sound) (hx : t.Holds x) (s : Store) :
    t.InOrder s x.id ((Tree.settingsAll x.entries).map Prod.fst)
      (broken s (Tree.settingsAll x.entries)) := by
  have mem_printed (y : EntryId) : y ∈ (Tree.settingsAll x.entries).map Prod.fst ↔
      t.Registers x.id y ∧ ∃ e, t.get? y = some e ∧ e.isScalar = true := by
    simp [hx.mem_settingsAll]
  constructor
  case sublist => exact List.filter_sublist.map Prod.fst
  case nodup =>
    have hregistered : (Tree.registeredAll x.entries).Sublist x.registered := by
      cases x with
      | node id e es bs =>
        show (Tree.registeredAll es).Sublist (id :: Tree.registeredAll es)
        exact List.sublist_cons_self id _
    have hids := (Tree.settingsAll_sublist_registeredAll x.entries).trans hregistered
    exact (hids.trans x.registered_sublist_ids).nodup (hx.ids_nodup h)
  case mem_listed =>
    intro y
    rw [mem_broken, mem_printed]
    constructor
    · rintro ⟨e, hmem, hv⟩
      obtain ⟨hreach, live, hscalar⟩ := hx.mem_settingsAll.mp hmem
      obtain ⟨hkind, n, hread, hno⟩ := violates_iff.mp hv
      exact ⟨⟨hreach, e, live, hscalar⟩, e, n, live, hkind, hread, hno⟩
    · rintro ⟨⟨hreach, e, live, hscalar⟩, e', n, live', hkind, hread, hno⟩
      obtain rfl := Option.mem_unique live live'
      exact ⟨e, hx.mem_settingsAll.mpr ⟨hreach, live, hscalar⟩,
        violates_iff.mpr ⟨hkind, n, hread, hno⟩⟩
  case mem_printed => exact mem_printed
  case builtin =>
    intro scope row found y hy hmem
    exact h.not_registers_of_builtin found hy ((mem_printed y).mp hmem).1

/-- The contents of a live entry are printed line by line, each line telling what the table has of
its entry. Of the values that have a line, validation reports those that break their constraints, in
the order of the lines, whether it is taken from the tree or collects them on a walk of its own. -/
theorem validate_follows_the_listing (h : t.Reachable) {top : EntryId} {e : Entry}
    (live : t.get? top = some e) (s : Store) :
    ∃ x listed, t.tree top = .ok x ∧
      (∀ indent column, (t.listingOfContents s top indent column).map String.join =
        .ok (textOfLines indent column (Tree.linesAll s 0 x.entries))) ∧
      (∀ l ∈ Tree.linesAll s 0 x.entries, t.Tells s l) ∧
      t.validate s top = .ok listed ∧ t.collect s top = .ok listed ∧
      t.InOrder s top (((Tree.linesAll s 0 x.entries).filterMap Line.setting?).map Prod.fst)
        listed := by
  obtain ⟨x, htree⟩ := h.sound.exists_tree live
  obtain ⟨⟨hx, -⟩, rfl⟩ := tree_eq_ok_iff.mp htree
  refine ⟨x, _, htree, ?_, fun l hl => hx.tells_of_mem_linesAll hl, validate_eq_broken htree s,
    collect_eq_broken htree s, ?_⟩
  · intro indent column
    rw [listingOfContents_of_tree htree]
    exact congrArg Except.ok (join_outlineAll x.entries s indent column)
  · have hsettings : (Tree.linesAll s 0 x.entries).filterMap Line.setting? =
        Tree.settingsAll x.entries := hx.settings_linesAll s 0
    rw [hsettings]
    exact h.sound.inOrder hx s

end Table

/-- Two numbers above their maximum are reported as they are listed, the one in a scope before the
one that is registered behind the scope, though that one is older. A name of the kind of a number is
listed but cannot be read as one, so its maximum does not matter, and a builtin function is not
listed. -/
theorem Session.size_and_rate_are_reported_in_order :
    let s := (fresh "root" "").after
      [.ask (.makeTemp (.number (Binary.ofInt 9))), .ask (.rename ⟨1⟩ "rate"),
        .ask (.edit ⟨1⟩ (.max (Binary.ofInt 5))), .ask (.register Table.root "pop" "" (.scope "")),
        .ask (.register ⟨2⟩ "name" "" .text), .ask (.writeText ⟨3⟩ "founders"),
        .ask (.edit ⟨3⟩ (.kind .double)), .ask (.edit ⟨3⟩ (.max (Binary.ofInt 5))),
        .ask (.register ⟨2⟩ "size" "" .number),
        .ask (.writeNumber ⟨4⟩ (Binary.ofInt 7)), .ask (.edit ⟨4⟩ (.max (Binary.ofInt 5))),
        .define ⟨2⟩ "grow" (.variadic fun _ => .finish (.ok .unit)) "" true,
        .ask (.attach Table.root ⟨1⟩)]
    s.table.configText s.store Table.root =
        .ok "pop = \x7b \n  name = founders;\n  size = 7;\n\x7d\nrate = 9;\n" ∧
      s.table.collect s.store Table.root = .ok [⟨4⟩, ⟨1⟩] ∧
      s.table.InOrder s.store Table.root [⟨3⟩, ⟨4⟩, ⟨1⟩] [⟨4⟩, ⟨1⟩] := by
  intro s
  have h : s.table.Reachable := ⟨"root", "", _, rfl⟩
  obtain ⟨e, live⟩ : ∃ e, s.table.get? Table.root = some e :=
    Option.isSome_iff_exists.mp (by decide +kernel)
  obtain ⟨x, listed, htree, -, -, hvalidate, hcollect, inOrder⟩ :=
    Table.validate_follows_the_listing h live s.store
  have hlisted : s.table.validate s.store Table.root = .ok [⟨4⟩, ⟨1⟩] := by decide +kernel
  obtain rfl : listed = [⟨4⟩, ⟨1⟩] := Except.ok.inj (hvalidate.symm.trans hlisted)
  have hprinted : (s.table.tree Table.root).map (fun x =>
      ((Tree.linesAll s.store 0 x.entries).filterMap Listing.Line.setting?).map Prod.fst) =
        .ok [⟨3⟩, ⟨4⟩, ⟨1⟩] := by decide +kernel
  simp only [htree, Except.map, Except.ok.injEq] at hprinted
  rw [hprinted] at inOrder
  exact ⟨by decide +kernel, hcollect, inOrder⟩

end Settings
