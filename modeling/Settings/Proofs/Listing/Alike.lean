import Settings.Proofs.Listing.Contents

/-!
# What a listing depends on

The listing of a scope depends on the entries that are reached through registered children, and of
each of them on its name, its description, whether it is a function, its registered children and, if
it carries a value, on its saved text. Where two tables agree on these, the listings are the same
(`Sound.configText_alike`), however much the tables differ elsewhere.
-/

set_option autoImplicit false

namespace Settings

/-- A listing shows the same of the two entries, what is under them aside. -/
structure Entry.ListedAlike (e : Entry) (s : Store) (e' : Entry) (s' : Store) : Prop where
  name : e'.name = e.name
  description : e'.description = e.description
  isFunction : e'.isFunction = e.isFunction
  entries : e'.scope?.map ScopeBody.entries = e.scope?.map ScopeBody.entries
  serialized : e.isScalar = true → e'.serialized s' = e.serialized s

namespace Entry.ListedAlike

variable {e e' : Entry} {s s' : Store}

theorem isScalar (h : e.ListedAlike s e' s') : e'.isScalar = e.isScalar := by
  have hscope : e'.scope?.isSome = e.scope?.isSome := by
    rw [← Option.isSome_map (f := ScopeBody.entries), h.entries, Option.isSome_map]
  unfold Entry.isScalar
  rw [Table.isScope_eq_scope?, Table.isScope_eq_scope?, hscope, h.isFunction]

theorem scope (h : e.ListedAlike s e' s') {b : ScopeBody} (hb : e.scope? = some b) :
    ∃ b', e'.scope? = some b' ∧ b'.entries = b.entries := by
  have hentries := h.entries
  rw [hb] at hentries
  exact Option.map_eq_some_iff.mp hentries

end Entry.ListedAlike

namespace Table

variable {t t' : Table} {s s' : Store}

/-- From the entries of a set a listing leads to entries of the set only, and of each of them it
shows the same in both tables. -/
def ListedAlike (t : Table) (s : Store) (t' : Table) (s' : Store) (P : EntryId → Prop) : Prop :=
  ∀ id e, P id → t.get? id = some e →
    (∃ e', t'.get? id = some e' ∧ e.ListedAlike s e' s') ∧
      ∀ b, e.scope? = some b → ∀ c ∈ b.entries, P c

theorem Shows.alike {P : EntryId → Prop} (hP : t.ListedAlike s t' s' P) {ids : List EntryId}
    {os : List Outline} (h : t.Shows s ids os) (hids : ∀ id ∈ ids, P id) : t'.Shows s' ids os := by
  induction h with
  | nil => exact .nil
  | @function id e ids os live function _ ih =>
    obtain ⟨hid, hrest⟩ := List.forall_mem_cons.mp hids
    obtain ⟨⟨e', live', alike⟩, _⟩ := hP id e hid live
    exact .function live' (alike.isFunction.trans function) (ih hrest)
  | @value id e text ids os live scalar saved _ ih =>
    obtain ⟨hid, hrest⟩ := List.forall_mem_cons.mp hids
    obtain ⟨⟨e', live', alike⟩, _⟩ := hP id e hid live
    rw [← alike.name, ← alike.description]
    exact .value live' (alike.isScalar.trans scalar) ((alike.serialized scalar).trans saved)
      (ih hrest)
  | @scope id e b ids children os live body _ _ ihInside ih =>
    obtain ⟨hid, hrest⟩ := List.forall_mem_cons.mp hids
    obtain ⟨⟨e', live', alike⟩, below⟩ := hP id e hid live
    obtain ⟨b', body', hentries⟩ := alike.scope body
    have inside := ihInside (below b body)
    rw [← hentries] at inside
    rw [← alike.name, ← alike.description]
    exact .scope live' body' inside (ih hrest)

/-- Scopes of which the same is shown have the same text. -/
theorem Sound.configText_alike (h : t.Sound) (h' : t'.Sound) {P : EntryId → Prop}
    (hP : t.ListedAlike s t' s' P) {id : EntryId} {e : Entry} {b : ScopeBody} (hid : P id)
    (live : t.get? id = some e) (body : e.scope? = some b) :
    ∃ text, t.configText s id = .ok text ∧ t'.configText s' id = .ok text := by
  obtain ⟨os, hshows, hlisting⟩ := h.listingOfContents s live body
  obtain ⟨⟨e', live', alike⟩, below⟩ := hP id e hid live
  obtain ⟨b', body', hentries⟩ := alike.scope body
  obtain ⟨os', hshows', hlisting'⟩ := h'.listingOfContents s' live' body'
  have hsame := hshows.alike hP (below b body)
  rw [← hentries] at hsame
  obtain rfl := hshows'.unique hsame
  unfold configText
  rw [hlisting, hlisting']
  exact ⟨_, rfl, rfl⟩

end Table
end Settings
