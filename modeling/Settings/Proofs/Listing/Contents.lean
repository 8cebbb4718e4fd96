import Settings.Proofs.Listing.Reading
import Settings.Proofs.Session.Runs

/-!
# What the listing of a scope tells

`Shows t s ids os` says what a row of entries shows: functions nothing, values their name, saved
text and description, scopes their name and description and what their registered children show. It
is read off the table entry by entry, and speaks of no tree, no handle beyond the row and no
builtin.

In a sound table every row of children shows one thing, and the listing of a scope is the listing of
that (`Sound.listingOfContents`). With what a reader can tell from a listing this makes two scopes,
in any two tables, have the same text just if they show the same.
-/

set_option autoImplicit false

namespace Settings
namespace Table

variable {t t' : Table} {s s' : Store}

/-- The entries of a row show the outlines, in order. -/
inductive Shows (t : Table) (s : Store) : List EntryId → List Outline → Prop
  | nil : Shows t s [] []
  | function {id : EntryId} {e : Entry} {ids : List EntryId} {os : List Outline}
      (live : t.get? id = some e) (function : e.isFunction = true) (rest : Shows t s ids os) :
      Shows t s (id :: ids) os
  | value {id : EntryId} {e : Entry} {text : String} {ids : List EntryId} {os : List Outline}
      (live : t.get? id = some e) (scalar : e.isScalar = true) (saved : e.serialized s = .ok text)
      (rest : Shows t s ids os) :
      Shows t s (id :: ids) (.value e.name text e.description :: os)
  | scope {id : EntryId} {e : Entry} {b : ScopeBody} {ids : List EntryId}
      {children os : List Outline} (live : t.get? id = some e) (body : e.scope? = some b)
      (inside : Shows t s b.entries children) (rest : Shows t s ids os) :
      Shows t s (id :: ids) (.group e.name e.description children :: os)

theorem exists_serialized {e : Entry} (h : e.isScalar = true) (s : Store) :
    ∃ text, e.serialized s = .ok text := by
  unfold Entry.serialized Entry.readText
  split
  · cases hs : e.storage with
    | linked target => exact ⟨_, rfl⟩
    | number x => exact ⟨_, rfl⟩
    | text v => exact ⟨_, rfl⟩
    | function f => simp [Entry.isScalar, Entry.isScope, Entry.isFunction, hs] at h
    | scope b => simp [Entry.isScalar, Entry.isScope, Entry.isFunction, hs] at h
  · exact ⟨_, rfl⟩

theorem isScope_eq_scope? (e : Entry) : e.isScope = e.scope?.isSome := by
  unfold Entry.isScope Entry.scope?
  cases e.storage <;> rfl

theorem isScope_of_scope? {e : Entry} {b : ScopeBody} (h : e.scope? = some b) :
    e.isScope = true := by
  rw [isScope_eq_scope?, h]
  rfl

theorem isScope_of_plain {e : Entry} (h : e.scope? = none) : e.isScope = false := by
  rw [isScope_eq_scope?, h]
  rfl

theorem isFunction_of_scope? {e : Entry} {b : ScopeBody} (h : e.scope? = some b) :
    e.isFunction = false := by
  simp [Entry.isFunction, scope?_eq_some h]

/-- What is neither a function nor a scope is a value, and has a text that is saved. -/
theorem exists_serialized_of_plain {e : Entry} (hscope : e.isScope = false)
    (hf : e.isFunction = false) (s : Store) :
    e.isScalar = true ∧ ∃ text, e.serialized s = .ok text := by
  have hscalar : e.isScalar = true := by simp [Entry.isScalar, hscope, hf]
  exact ⟨hscalar, exists_serialized hscalar s⟩

/-! ## Trees and what they show -/

/-- A row of trees that the table has shows its outlines. -/
theorem shows_outlineAll {xs : List Tree}
    (h : ∀ x ∈ xs, t.Holds x ∧ ∀ {ids os}, Shows t s ids os →
      Shows t s (x.id :: ids) (x.outline s ++ os)) :
    Shows t s (xs.map Tree.id) (Tree.outlineAll s xs) := by
  induction xs with
  | nil => simpa [Tree.outlineAll] using Shows.nil
  | cons x xs ih =>
    obtain ⟨hx, hxs⟩ := List.forall_mem_cons.mp h
    simp only [List.map_cons, Tree.outlineAll]
    exact hx.2 (ih hxs)

theorem Holds.shows_outline {x : Tree} (h : t.Holds x) : ∀ {ids : List EntryId}
    {os : List Outline}, Shows t s ids os → Shows t s (x.id :: ids) (x.outline s ++ os) := by
  induction h with
  | @leaf id e live plain =>
    intro ids os rest
    have hscope := isScope_of_plain plain
    cases hf : e.isFunction with
    | true => simpa [Tree.outline, Tree.id, hf] using Shows.function live hf rest
    | false =>
      obtain ⟨hscalar, text, htext⟩ := exists_serialized_of_plain hscope hf s
      simpa [Tree.outline, Tree.id, hf, hscope, htext] using Shows.value live hscalar htext rest
  | @scope id e b es bs live body entries builtins held ih =>
    intro ids os rest
    have hscope := isScope_of_scope? body
    have inside : Shows t s b.entries (Tree.outlineAll s es) := by
      rw [← entries]
      refine shows_outlineAll fun x hx => ?_
      have hmem : x ∈ es ++ bs := List.mem_append_left bs hx
      exact ⟨held x hmem, ih x hmem⟩
    simpa [Tree.outline, Tree.id, hscope, isFunction_of_scope? body] using
      Shows.scope live body inside rest

/-- A row shows one thing only. -/
theorem Shows.unique {ids : List EntryId} {os os' : List Outline} (h : Shows t s ids os)
    (h' : Shows t s ids os') : os = os' := by
  induction h generalizing os' with
  | nil =>
    cases h'
    rfl
  | function live function _ ih =>
    cases h' with
    | function _ _ rest => exact ih rest
    | value live' scalar _ _ =>
      obtain rfl := Option.mem_unique live live'
      simp [Entry.isScalar, function] at scalar
    | scope live' body _ _ =>
      obtain rfl := Option.mem_unique live live'
      simp [isFunction_of_scope? body] at function
  | value live scalar saved _ ih =>
    cases h' with
    | function live' function _ =>
      obtain rfl := Option.mem_unique live live'
      simp [Entry.isScalar, function] at scalar
    | value live' _ saved' rest =>
      obtain rfl := Option.mem_unique live live'
      rw [saved, Except.ok.injEq] at saved'
      rw [saved', ih rest]
    | scope live' body _ _ =>
      obtain rfl := Option.mem_unique live live'
      simp [Entry.isScalar, isScope_of_scope? body] at scalar
  | scope live body _ _ ihInside ih =>
    cases h' with
    | function live' function _ =>
      obtain rfl := Option.mem_unique live live'
      simp [isFunction_of_scope? body] at function
    | value live' scalar _ _ =>
      obtain rfl := Option.mem_unique live live'
      simp [Entry.isScalar, isScope_of_scope? body] at scalar
    | scope live' body' inside rest =>
      obtain rfl := Option.mem_unique live live'
      obtain rfl := Option.mem_unique body body'
      rw [ihInside inside, ih rest]

theorem listing_of_tree {id : EntryId} {x : Tree} (htree : t.tree id = .ok x) (s : Store)
    (indent : String) (column : Nat) :
    t.listing s id indent column = .ok (Listing.piecesAll indent column (x.outline s)) := by
  unfold listing
  rw [htree]
  rfl

theorem listingOfContents_of_tree {id : EntryId} {x : Tree} (htree : t.tree id = .ok x) (s : Store)
    (indent : String) (column : Nat) : t.listingOfContents s id indent column =
      .ok (Listing.piecesAll indent column (Tree.outlineAll s x.entries)) := by
  unfold listingOfContents
  rw [htree]
  rfl

/-- The listing of a scope is the listing of what its registered children show. -/
theorem Sound.listingOfContents (h : t.Sound) (s : Store) {id : EntryId} {e : Entry} {b : ScopeBody}
    (live : t.get? id = some e) (body : e.scope? = some b) :
    ∃ os, Shows t s b.entries os ∧ ∀ indent column,
      t.listingOfContents s id indent column = .ok (Listing.piecesAll indent column os) := by
  obtain ⟨x, htree⟩ := h.exists_tree live
  obtain ⟨⟨hx, _⟩, hid⟩ := tree_eq_ok_iff.mp htree
  refine ⟨Tree.outlineAll s x.entries, ?_, fun indent column => ?_⟩
  · cases hx with
    | leaf live' plain =>
      obtain rfl := hid
      obtain rfl := Option.mem_unique live live'
      rw [body] at plain
      exact absurd plain (by simp)
    | @scope _ _ b' es bs live' body' entries _ held =>
      obtain rfl := hid
      obtain rfl := Option.mem_unique live live'
      obtain rfl := Option.mem_unique body body'
      rw [← entries]
      refine shows_outlineAll fun y hy => ?_
      have hheld := held y (List.mem_append_left bs hy)
      exact ⟨hheld, hheld.shows_outline⟩
  · exact listingOfContents_of_tree htree s indent column

/-- The row of entries shows the outlines and nothing else, and the scope they are registered in has
the text as its listing. -/
structure ListedAs (t : Table) (s : Store) (id : EntryId) (row : List EntryId) (indent : String)
    (column : Nat) (os : List Outline) (text : String) : Prop where
  shown : Shows t s row os
  unique : ∀ os', Shows t s row os' → os' = os
  text_eq : (t.listingOfContents s id indent column).map String.join = .ok text

/-- Scopes that show the same have the same text. Where no name, value or description holds a
character of the listing's own, scopes with the same text show the same. -/
theorem listing_is_unambiguous (h : t.Reachable) (h' : t'.Reachable) (s s' : Store)
    {id id' : EntryId} {e e' : Entry} {b b' : ScopeBody} (live : t.get? id = some e)
    (body : e.scope? = some b) (live' : t'.get? id' = some e') (body' : e'.scope? = some b')
    (indent : String) (column : Nat) :
    ∃ os os' text text', t.ListedAs s id b.entries indent column os text ∧
      t'.ListedAs s' id' b'.entries indent column os' text' ∧ (os = os' → text = text') ∧
      (Outline.PlainAll os → Outline.PlainAll os' → (text = text' ↔ os = os')) := by
  obtain ⟨os, hshows, hlisting⟩ := h.sound.listingOfContents s live body
  obtain ⟨os', hshows', hlisting'⟩ := h'.sound.listingOfContents s' live' body'
  have listed : t.ListedAs s id b.entries indent column os
      (String.join (Listing.piecesAll indent column os)) :=
    ⟨hshows, fun _ h₁ => h₁.unique hshows, by rw [hlisting]; rfl⟩
  have listed' : t'.ListedAs s' id' b'.entries indent column os'
      (String.join (Listing.piecesAll indent column os')) :=
    ⟨hshows', fun _ h₁ => h₁.unique hshows', by rw [hlisting']; rfl⟩
  have same : os = os' → String.join (Listing.piecesAll indent column os) =
      String.join (Listing.piecesAll indent column os') := by
    intro hos
    rw [hos]
  refine ⟨os, os', _, _, listed, listed', same, ?_⟩
  intro hos hos'
  exact ⟨Listing.join_piecesAll_inj hos hos', same⟩

/-- A scope with one value, and another that has come about in another way and has a builtin
function beside the value. -/
theorem listing_of_other_history_is_unambiguous :
    let t := ((Session.fresh "root" "").after
      [.ask (.register Table.root "label" "a name" .text)]).table
    let t' := ((Session.fresh "root" "").after
      [.ask (.makeTemp (.text "")), .ask (.register Table.root "pop" "" (.scope "")),
        .define ⟨2⟩ "grow" (.variadic fun _ => .finish (.ok .unit)) "" true,
        .ask (.release ⟨1⟩), .ask (.register ⟨2⟩ "label" "a name" .text)]).table
    t.Reachable ∧ t'.Reachable ∧ ∃ e b e' b', t.get? Table.root = some e ∧ e.scope? = some b ∧
      t'.get? ⟨2⟩ = some e' ∧ e'.scope? = some b' ∧ ∃ os os' text text',
        t.ListedAs .empty Table.root b.entries "  " 40 os text ∧
        t'.ListedAs .empty ⟨2⟩ b'.entries "  " 40 os' text' ∧ (os = os' → text = text') ∧
        (Outline.PlainAll os → Outline.PlainAll os' → (text = text' ↔ os = os')) := by
  intro t t'
  have h : t.Reachable := ⟨"root", "", _, rfl⟩
  have h' : t'.Reachable := ⟨"root", "", _, rfl⟩
  have scope : ((t.get? Table.root).bind Entry.scope?).isSome = true := by decide +kernel
  have scope' : ((t'.get? ⟨2⟩).bind Entry.scope?).isSome = true := by decide +kernel
  obtain ⟨b, hb⟩ := Option.isSome_iff_exists.mp scope
  obtain ⟨b', hb'⟩ := Option.isSome_iff_exists.mp scope'
  obtain ⟨e, live, body⟩ := Option.bind_eq_some_iff.mp hb
  obtain ⟨e', live', body'⟩ := Option.bind_eq_some_iff.mp hb'
  exact ⟨h, h', e, b, e', b', live, body, live', body',
    listing_is_unambiguous h h' .empty .empty live body live' body' "  " 40⟩

end Table
end Settings
