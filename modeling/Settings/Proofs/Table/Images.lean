import Settings.Listing
import Settings.Proofs.Table.Edits

/-!
# Images under a map of handles

A copy is told by a map `f` from the handles under an entry to those of the copy. What an entry
becomes under the map is `Entry.copied`: it stays as it is, but for its owner and, in a scope, the
handles in the two lists and in the index. A whole tree becomes `Tree.copied`.

A listing shows no handles, so the image of a tree is listed like the tree (`Tree.outline_copied`).
-/

set_option autoImplicit false

namespace Settings

/-! ## The image of an entry -/

/-- The index with other handles under the same names. -/
def NameIndex.map (x : NameIndex) (f : EntryId → EntryId) : NameIndex :=
  ⟨x.pairs.map fun p => (p.1, f p.2), List.pairwise_map.mpr x.sorted⟩

theorem NameIndex.find?_map (x : NameIndex) (f : EntryId → EntryId) (name : String) :
    (x.map f).find? name = (x.find? name).map f := by
  obtain ⟨pairs, sorted⟩ := x
  show (pairs.map fun p => (p.1, f p.2)).lookup name = (pairs.lookup name).map f
  clear sorted
  induction pairs with
  | nil => rfl
  | cons p ps ih =>
    rw [List.map_cons, lookup_pair, lookup_pair, ih]
    split <;> rfl

namespace ScopeBody

/-- The children of a scope under other handles. -/
def map (b : ScopeBody) (f : EntryId → EntryId) : ScopeBody :=
  ⟨b.entries.map f, b.builtins.map f, b.index.map f, b.structureType⟩

theorem children_map (b : ScopeBody) (f : EntryId → EntryId) :
    (b.map f).children = b.children.map f := by
  simp [map, children]

theorem find?_map (b : ScopeBody) (f : EntryId → EntryId) (name : String) :
    (b.map f).find? name = (b.find? name).map f := b.index.find?_map f name

theorem ext_find? {b b' : ScopeBody} (entries : b.entries = b'.entries)
    (builtins : b.builtins = b'.builtins) (index : ∀ name, b.find? name = b'.find? name)
    (structureType : b.structureType = b'.structureType) : b = b' := by
  have hindex : b.index = b'.index := NameIndex.ext_find? index
  cases b
  cases b'
  simp_all

/-- The body with the images of all the trees at the end of one list. -/
def pushAll (f : EntryId → EntryId) (builtin : Bool) (b : ScopeBody) (xs : List Tree) : ScopeBody :=
  xs.foldl (fun b x => b.push x.entry.name (f x.id) builtin) b

theorem entries_pushAll (f : EntryId → EntryId) (builtin : Bool) (b : ScopeBody) (xs : List Tree) :
    (b.pushAll f builtin xs).entries =
      if builtin then b.entries else b.entries ++ (xs.map Tree.id).map f := by
  induction xs generalizing b with
  | nil => cases builtin <;> simp [pushAll]
  | cons x xs ih =>
    show (pushAll f builtin (b.push x.entry.name (f x.id) builtin) xs).entries = _
    rw [ih]
    cases builtin <;> simp [push]

theorem builtins_pushAll (f : EntryId → EntryId) (builtin : Bool) (b : ScopeBody)
    (xs : List Tree) : (b.pushAll f builtin xs).builtins =
      if builtin then b.builtins ++ (xs.map Tree.id).map f else b.builtins := by
  induction xs generalizing b with
  | nil => cases builtin <;> simp [pushAll]
  | cons x xs ih =>
    show (pushAll f builtin (b.push x.entry.name (f x.id) builtin) xs).builtins = _
    rw [ih]
    cases builtin <;> simp [push]

theorem structureType_pushAll (f : EntryId → EntryId) (builtin : Bool) (b : ScopeBody)
    (xs : List Tree) : (b.pushAll f builtin xs).structureType = b.structureType := by
  induction xs generalizing b with
  | nil => rfl
  | cons x xs ih => exact ih (b.push x.entry.name (f x.id) builtin)

/-- Under each name the last tree of that name is found. -/
theorem find?_pushAll (f : EntryId → EntryId) (builtin : Bool) (b : ScopeBody) {xs : List Tree}
    (hn : xs.Pairwise fun x y => x.entry.name ≠ y.entry.name) (name : String) :
    (b.pushAll f builtin xs).find? name =
      ((xs.find? fun x => x.entry.name = name).map fun x => f x.id).or (b.find? name) := by
  induction xs generalizing b with
  | nil => rfl
  | cons x xs ih =>
    obtain ⟨hx, hn⟩ := List.pairwise_cons.mp hn
    show (pushAll f builtin (b.push x.entry.name (f x.id) builtin) xs).find? name = _
    rw [ih _ hn, Table.find?_push]
    by_cases h : x.entry.name = name
    · -- no other tree of the row has the name
      have hnone : xs.find? (fun y => y.entry.name = name) = none :=
        List.find?_eq_none.mpr fun y hy heq => hx y hy (h.trans (of_decide_eq_true heq).symm)
      simp [h, hnone]
    · rw [if_neg fun heq => h heq.symm, List.find?_cons_of_neg (by simpa using h)]

end ScopeBody

namespace Entry

/-- The entry as it stands in a copy. -/
def copied (e : Entry) (f : EntryId → EntryId) (owner : Option EntryId) : Entry :=
  match e.scope? with
  | some b => { e with owner := owner, storage := .scope (b.map f) }
  | none => { e with owner := owner }

theorem copied_of_plain {e : Entry} (h : e.scope? = none) (f : EntryId → EntryId)
    (owner : Option EntryId) : e.copied f owner = { e with owner := owner } := by
  unfold copied
  rw [h]

theorem copied_of_scope {e : Entry} {b : ScopeBody} (h : e.scope? = some b)
    (f : EntryId → EntryId) (owner : Option EntryId) :
    e.copied f owner = { e with owner := owner, storage := .scope (b.map f) } := by
  unfold copied
  rw [h]

theorem bare_of_plain {e : Entry} (h : e.scope? = none) : e.bare = e := by
  unfold bare
  split
  · rename_i b hs
    simp [scope?, hs] at h
  · rfl

theorem bare_of_scope {e : Entry} {b : ScopeBody} (h : e.scope? = some b) :
    e.bare = { e with storage := .scope (.empty b.structureType) } := by
  unfold bare
  rw [Table.scope?_eq_some h]

theorem name_copied (e : Entry) (f : EntryId → EntryId) (owner : Option EntryId) :
    (e.copied f owner).name = e.name := by
  unfold copied
  split <;> rfl

theorem owner_copied (e : Entry) (f : EntryId → EntryId) (owner : Option EntryId) :
    (e.copied f owner).owner = owner := by
  unfold copied
  split <;> rfl

theorem temporary_copied (e : Entry) (f : EntryId → EntryId) (owner : Option EntryId) :
    (e.copied f owner).temporary = e.temporary := by
  unfold copied
  split <;> rfl

theorem scope?_copied (e : Entry) (f : EntryId → EntryId) (owner : Option EntryId) :
    (e.copied f owner).scope? = e.scope?.map fun b => b.map f := by
  cases h : e.scope? with
  | none =>
    rw [copied_of_plain h]
    exact h
  | some b =>
    rw [copied_of_scope h]
    rfl

end Entry

/-! ## The image of a tree -/

namespace Tree

mutual

/-- The tree of a copy, owned as given. -/
def copied (f : EntryId → EntryId) (owner : Option EntryId) : Tree → Tree
  | node id e es bs =>
      node (f id) (e.copied f owner) (copiedAll f (some (f id)) es) (copiedAll f (some (f id)) bs)

def copiedAll (f : EntryId → EntryId) (owner : Option EntryId) : List Tree → List Tree
  | [] => []
  | x :: xs => copied f owner x :: copiedAll f owner xs

end

theorem copiedAll_eq (f : EntryId → EntryId) (owner : Option EntryId) (xs : List Tree) :
    copiedAll f owner xs = xs.map (copied f owner) := by
  induction xs with
  | nil => simp [copiedAll]
  | cons x xs ih => simp [copiedAll, ih]

theorem copied_node (f : EntryId → EntryId) (owner : Option EntryId) (id : EntryId) (e : Entry)
    (es bs : List Tree) : (node id e es bs).copied f owner =
      node (f id) (e.copied f owner) (es.map (copied f (some (f id))))
        (bs.map (copied f (some (f id)))) := by
  simp [copied, copiedAll_eq]

theorem id_copied (f : EntryId → EntryId) (owner : Option EntryId) (x : Tree) :
    (x.copied f owner).id = f x.id := by
  cases x with
  | node id e es bs => simp [copied, Tree.id]

theorem entry_copied (f : EntryId → EntryId) (owner : Option EntryId) (x : Tree) :
    (x.copied f owner).entry = x.entry.copied f owner := by
  cases x with
  | node id e es bs => simp [copied, Tree.entry]

mutual

theorem ids_copied (f : EntryId → EntryId) (owner : Option EntryId) :
    ∀ x : Tree, (x.copied f owner).ids = x.ids.map f
  | node id e es bs => by
    simp only [copied, ids, List.map_cons, List.map_append]
    rw [idsAll_copiedAll f (some (f id)) es, idsAll_copiedAll f (some (f id)) bs]

theorem idsAll_copiedAll (f : EntryId → EntryId) (owner : Option EntryId) :
    ∀ xs : List Tree, idsAll (copiedAll f owner xs) = (idsAll xs).map f
  | [] => by simp [copiedAll, idsAll]
  | x :: xs => by
    simp only [copiedAll, idsAll, List.map_append]
    rw [ids_copied f owner x, idsAll_copiedAll f owner xs]

end

mutual

theorem height_copied (f : EntryId → EntryId) (owner : Option EntryId) :
    ∀ x : Tree, (x.copied f owner).height = x.height
  | node id e es bs => by
    simp only [copied, height]
    rw [heightAll_copiedAll f (some (f id)) es, heightAll_copiedAll f (some (f id)) bs]

theorem heightAll_copiedAll (f : EntryId → EntryId) (owner : Option EntryId) :
    ∀ xs : List Tree, heightAll (copiedAll f owner xs) = heightAll xs
  | [] => by simp [copiedAll]
  | x :: xs => by
    simp only [copiedAll, heightAll]
    rw [height_copied f owner x, heightAll_copiedAll f owner xs]

end

end Tree

/-! ## The listing of an image -/

namespace Entry

variable (e : Entry) (f : EntryId → EntryId) (owner : Option EntryId)

theorem description_copied : (e.copied f owner).description = e.description := by
  unfold copied
  split <;> rfl

theorem isScope_copied : (e.copied f owner).isScope = e.isScope := by
  unfold copied
  cases h : e.scope? with
  | none => rfl
  | some b => simp [isScope, Table.scope?_eq_some h]

theorem isFunction_copied : (e.copied f owner).isFunction = e.isFunction := by
  unfold copied
  cases h : e.scope? with
  | none => rfl
  | some b => simp [isFunction, Table.scope?_eq_some h]

theorem serialized_copied (s : Store) (h : e.isScope = false) :
    (e.copied f owner).serialized s = e.serialized s := by
  have hplain : e.scope? = none := by
    cases hs : e.storage with
    | scope b => simp [isScope, hs] at h
    | linked _ | number _ | text _ | function _ => simp [scope?, hs]
  rw [copied_of_plain hplain]
  rfl

end Entry

namespace Tree

mutual

theorem outline_copied (s : Store) (f : EntryId → EntryId) (owner : Option EntryId) :
    ∀ x : Tree, (x.copied f owner).outline s = x.outline s
  | node id e es bs => by
    simp only [copied, outline]
    rw [e.isFunction_copied, e.isScope_copied, e.name_copied, e.description_copied,
      outlineAll_copiedAll s f (some (f id)) es]
    split
    · rfl
    · split
      · rfl
      · rename_i hscope
        rw [e.serialized_copied f owner s (by simpa using hscope)]

theorem outlineAll_copiedAll (s : Store) (f : EntryId → EntryId) (owner : Option EntryId) :
    ∀ xs : List Tree, outlineAll s (copiedAll f owner xs) = outlineAll s xs
  | [] => by simp [copiedAll]
  | x :: xs => by
    simp only [copiedAll, outlineAll]
    rw [outline_copied s f owner x, outlineAll_copiedAll s f owner xs]

end

end Tree

end Settings
