import Settings.Entry

/-!
# The table of entries

All entries live in the slots of one table and are addressed by slot number. A slot whose entry was
freed goes on a list and is used again, the last one freed first, before the table grows. Slot zero
holds the root scope, which is never freed.

Using the handle of a freed entry is a fault: `Table.entry` is the one place where it arises.

What a table holds is told by `Table.get?` alone. The second section says what each primitive,
`set`, `update`, `alloc` and `vacate`, does to it.

An `Edit` is a step that looks at a table and changes it. It ends with a value, an error of its
family or a fault, and an error leaves the table as it is when the error strikes: what the edit
changed before that stays changed. That every edit checks before it changes is therefore a matter
of its order, and nothing that its type sees to.
-/

set_option autoImplicit false

namespace Settings

/-- The outcome of something that may be refused, or may meet a fault. -/
abbrev Attempt (ε α : Type) : Type := Except (Failure ε) α

namespace Attempt

variable {ε δ α : Type}

/-- The same outcome with its error seen as one of another family. -/
def mapError (g : ε → δ) : Attempt ε α → Attempt δ α
  | .ok a => .ok a
  | .error e => .error (e.mapError g)

/-- Sets a fault apart from an error. -/
def settle : Attempt ε α → Except Fault (Except ε α)
  | .ok a => .ok (.ok a)
  | .error (.error e) => .ok (.error e)
  | .error (.fault x) => .error x

/-- An outcome that knows no error of its own. -/
def ofFault : Except Fault α → Attempt ε α
  | .ok a => .ok a
  | .error x => .error (.fault x)

/-- An outcome that knows no fault. -/
def ofError : Except ε α → Attempt ε α
  | .ok a => .ok a
  | .error e => .error (.error e)

end Attempt

structure Table where
  slots : Array (Option Entry)
  /-- The empty slots, the last one freed in front. -/
  free : List EntryId

namespace Table

def root : EntryId := ⟨0⟩

def withRoot (name description : String) : Table where
  slots := #[some (.new name description (.scope (.empty "")))]
  free := []

/-- The name that a root scope has unless it is given another. -/
def defaultRootName : String := "root"

def new : Table := withRoot defaultRootName ""

/-- How many entries there are, temporaries included. -/
def size (t : Table) : Nat := t.slots.size - t.free.length

/-- The entry of a handle, unless it was freed. -/
def get? (t : Table) (id : EntryId) : Option Entry := (t.slots[id.index]?).join

def contains (t : Table) (id : EntryId) : Bool := (t.get? id).isSome

/-- The entry of a handle that its holder promises to be live. -/
def entry (t : Table) (id : EntryId) : Except Fault Entry :=
  match t.get? id with
  | some e => .ok e
  | none => .error (.staleHandle id)

def set (t : Table) (id : EntryId) (e : Entry) : Table :=
  { t with slots := t.slots.setIfInBounds id.index (some e) }

/-- Changes the entry in a slot; an empty slot stays as it is. -/
def update (t : Table) (id : EntryId) (f : Entry → Entry) : Table :=
  match t.get? id with
  | some e => t.set id (f e)
  | none => t

/-- Puts an entry into a slot: the last one freed, or a new one where none is free. -/
def alloc (t : Table) (e : Entry) : EntryId × Table :=
  match t.free with
  | id :: rest => (id, { (t.set id e) with free := rest })
  | [] => (⟨t.slots.size⟩, { t with slots := t.slots.push (some e) })

/-- Empties the slot of a live entry and frees it. -/
def vacate (t : Table) (id : EntryId) : Table :=
  ⟨t.slots.setIfInBounds id.index none, id :: t.free⟩

/-! ## What is found after a primitive -/

theorem index_lt_of_get? {t : Table} {id : EntryId} {e : Entry} (h : t.get? id = some e) :
    id.index < t.slots.size := by
  unfold get? at h
  rcases Nat.lt_or_ge id.index t.slots.size with hlt | hge
  · exact hlt
  · rw [Array.getElem?_eq_none hge] at h
    exact absurd h (by simp)

theorem get?_set (t : Table) (id other : EntryId) (e : Entry) (h : id.index < t.slots.size) :
    (t.set id e).get? other = if other = id then some e else t.get? other := by
  unfold get? set
  by_cases ho : other = id
  · subst ho
    simp [h]
  · have hi : id.index ≠ other.index := fun hi => ho (EntryId.eq_of_index hi.symm)
    rw [if_neg ho]
    simp [hi]

theorem set_get? {t : Table} {id : EntryId} {e : Entry} (h : t.get? id = some e) :
    t.set id e = t := by
  have hlt : id.index < t.slots.size := index_lt_of_get? h
  have hs : t.slots[id.index] = some e := by simpa [get?, hlt] using h
  show Table.mk (t.slots.setIfInBounds id.index (some e)) t.free = t
  rw [Array.setIfInBounds, dif_pos hlt, ← hs, Array.set_getElem_self]

theorem get?_update (t : Table) (id other : EntryId) (f : Entry → Entry) :
    (t.update id f).get? other = if other = id then (t.get? id).map f else t.get? other := by
  unfold update
  cases h : t.get? id with
  | none =>
    by_cases ho : other = id
    · rw [if_pos ho, ho, h]
      rfl
    · rw [if_neg ho]
  | some e => exact get?_set t id other (f e) (index_lt_of_get? h)

theorem get?_vacate (t : Table) (id other : EntryId) :
    (t.vacate id).get? other = if other = id then none else t.get? other := by
  unfold vacate get?
  by_cases ho : other = id
  · subst ho
    rw [if_pos rfl, Array.getElem?_setIfInBounds, if_pos rfl]
    split <;> rfl
  · have hi : id.index ≠ other.index := fun hi => ho (EntryId.eq_of_index hi.symm)
    rw [if_neg ho]
    simp [hi]

/-- A new entry is found under its handle, and nothing else changes. The free list is to name slots
of the table, as it does in every table that edits lead to. -/
theorem get?_alloc (t : Table) (e : Entry) (other : EntryId)
    (h : ∀ id ∈ t.free, id.index < t.slots.size) :
    (t.alloc e).2.get? other = if other = (t.alloc e).1 then some e else t.get? other := by
  unfold alloc
  cases hf : t.free with
  | nil =>
    by_cases ho : other = ⟨t.slots.size⟩
    · subst ho
      simp [get?]
    · have hi : other.index ≠ t.slots.size := fun hi => ho (EntryId.eq_of_index hi)
      rw [if_neg ho]
      simp [get?, Array.getElem?_push, hi]
  | cons id rest =>
    have hlt : id.index < t.slots.size := h id (by rw [hf]; exact List.mem_cons_self)
    exact get?_set t id other e hlt

end Table

/-! ## Edits -/

/-- A step that works on a table. -/
abbrev Edit (ε α : Type) : Type := ExceptT (Failure ε) (StateM Table) α

namespace Edit

variable {ε δ α β : Type}

def run (m : Edit ε α) (t : Table) : Attempt ε α × Table := StateT.run (ExceptT.run m) t

/-- An edit given by what it does to a table. -/
def ofFunction (f : Table → Attempt ε α × Table) : Edit ε α := ExceptT.mk f

/-- An edit that only looks. -/
def look (f : Table → Attempt ε α) : Edit ε α := ofFunction fun t => (f t, t)

/-- An edit that only changes. -/
def change (f : Table → Table) : Edit ε Unit := ofFunction fun t => (.ok (), f t)

/-- Goes on unless the condition holds. -/
def refuseIf (c : Prop) [Decidable c] (e : ε) : Edit ε Unit :=
  if c then throw (.error e) else pure ()

/-- The same edit with an error as part of its value; a fault is still a fault. -/
def settle (m : Edit ε α) : Edit δ (Except ε α) :=
  ofFunction fun t => (.ofFault (m.run t).1.settle, (m.run t).2)

def alloc (e : Entry) : Edit ε EntryId := ofFunction fun t => (.ok (t.alloc e).1, (t.alloc e).2)

end Edit

end Settings
