import Settings.Proofs.Table.Edits

/-!
# What writing does

A write touches the value of one entry, or one host variable, and never the place of an entry in the
tree: `Entry.frame` is the same before and after. A write that is refused touches nothing. Both are
shown for the entry alone first; a table then only has to find the entry.
-/

set_option autoImplicit false

namespace Settings

/-! ## An entry and the host variables -/

namespace Entry

variable {e : Entry} {s : Store}

theorem frame_edit (e : Entry) (change : HeaderEdit) : (e.edit change).frame = e.frame := by
  cases change <;> rfl

theorem frame_recordDefault (e : Entry) (s : Store) : (e.recordDefault s).frame = e.frame := by
  unfold recordDefault
  split <;> rfl

theorem frame_writeNumber (x : Double) (e : Entry) (s : Store) :
    (e.writeNumber x s).2.1.frame = e.frame := by
  unfold writeNumber
  cases hs : e.storage <;> simp [frame, scope?, hs]

theorem frame_writeText (text : String) (e : Entry) (s : Store) :
    (e.writeText text s).2.1.frame = e.frame := by
  unfold writeText
  cases hs : e.storage with
  | number x =>
    cases parseNumber text <;> simp [frame, scope?, hs]
  | linked target => rfl
  | text _ => simp [frame, scope?, hs]
  | function f => rfl
  | scope b => rfl

theorem frame_assign (value : Scalar) (e : Entry) (s : Store) :
    (e.assign value s).2.1.frame = e.frame := by
  unfold assign
  split
  · rfl
  · split
    · exact frame_writeNumber _ e s
    · rfl
  · exact frame_writeText _ e s

theorem frame_copyFrom (source e : Entry) (s : Store) :
    (source.copyFrom e s).2.1.frame = e.frame := by
  unfold copyFrom
  split
  · exact frame_assign _ e s
  · rfl

/-! ### Refusals -/

theorem writeNumber_refused {x : Double} {error : EntryError}
    (h : (e.writeNumber x s).1 = .error error) : (e.writeNumber x s).2 = (e, s) := by
  unfold writeNumber at h ⊢
  cases hs : e.storage <;> simp_all

theorem writeText_refused {text : String} {error : EntryError}
    (h : (e.writeText text s).1 = .error error) : (e.writeText text s).2 = (e, s) := by
  unfold writeText at h ⊢
  cases hs : e.storage with
  | linked target =>
    -- the text is converted before anything is written
    simp only [hs] at h ⊢
    unfold Target.setText at h ⊢
    cases hv : target.type.ofText text with
    | ok v => simp [hv] at h
    | error _ => rfl
  | number x =>
    cases hp : parseNumber text <;> simp_all
  | text _ => simp [hs] at h
  | function f => rfl
  | scope b => rfl

theorem accepted_refused {σ : Type} {outcome : Except EntryError Unit × σ}
    (h : (accepted outcome).1 = false) : ∃ x, outcome.1 = .error x := by
  obtain ⟨r, s⟩ := outcome
  cases r with
  | error x => exact ⟨x, rfl⟩
  | ok _ => exact absurd h (by simp [accepted, Except.toBool])

theorem assign_refused {value : Scalar} (h : (e.assign value s).1 = false) :
    (e.assign value s).2 = (e, s) := by
  unfold assign at h ⊢
  split at h
  · rfl
  · split at h
    · obtain ⟨x, hx⟩ := accepted_refused h
      exact writeNumber_refused hx
    · rfl
  · obtain ⟨x, hx⟩ := accepted_refused h
    exact writeText_refused hx

theorem copyFrom_refused {source : Entry} (h : (source.copyFrom e s).1 = false) :
    (source.copyFrom e s).2 = (e, s) := by
  unfold copyFrom at h ⊢
  split at h
  · exact assign_refused h
  · rfl

end Entry

/-! ## A table and the host variables -/

namespace Table

variable {t t' : Table} {s s' : Store} {ε α : Type}

theorem set_eq_update {id : EntryId} {e : Entry} (live : t.get? id = some e) (e' : Entry) :
    t.set id e' = t.update id fun _ => e' := by
  unfold update
  rw [live]

/-- An entry may be replaced by one with the same place in the tree. -/
theorem Sound.set (h : t.Sound) {id : EntryId} {e e' : Entry} (live : t.get? id = some e)
    (hframe : e'.frame = e.frame) : (t.set id e').Sound := by
  rw [set_eq_update live]
  apply h.of_frames (h.slots.update id _)
  intro x
  rw [get?_update]
  by_cases hx : x = id
  · rw [if_pos hx, hx, live]
    simp [hframe]
  · rw [if_neg hx]

theorem Sound.onEntry (h : t.Sound) (id : EntryId) {f : Entry → Store → Except ε α × Entry × Store}
    (hframe : ∀ e s, (f e s).2.1.frame = e.frame) : (t.onEntry s id f).2.1.Sound := by
  unfold Table.onEntry
  cases live : t.get? id with
  | none => exact h
  | some e => exact h.set live (hframe e s)

/-- What an entry refuses, the table refuses, with nothing changed. -/
theorem onEntry_refused {id : EntryId} {f : Entry → Store → Except ε α × Entry × Store}
    (hf : ∀ e s x, (f e s).1 = .error x → (f e s).2 = (e, s)) {x : Failure ε}
    (hx : (t.onEntry s id f).1 = .error x) : (t.onEntry s id f).2 = (t, s) := by
  unfold onEntry at hx ⊢
  cases live : t.get? id with
  | none => rfl
  | some e =>
    simp only [live] at hx ⊢
    cases hr : (f e s).1 with
    | ok a => simp [hr, Attempt.ofError] at hx
    | error y =>
      have hsame := hf e s y hr
      rw [Prod.ext_iff] at hsame
      rw [hsame.1, hsame.2, set_get? live]

theorem Sound.tryOn (h : t.Sound) {id : EntryId} {f : Entry → Store → Bool × Entry × Store}
    (hframe : ∀ e s, (f e s).2.1.frame = e.frame) {done : Bool}
    (hr : t.tryOn s id f = .ok (done, t', s')) : t'.Sound := by
  unfold Table.tryOn at hr
  cases he : t.entry id with
  | error x => simp [he, bind, Except.bind] at hr
  | ok e =>
    obtain ⟨_, rfl, _⟩ : _ ∧ t.set id (f e s).2.1 = t' ∧ _ := by
      simpa [he, bind, Except.bind, pure, Except.pure] using hr
    exact h.set (entry_eq_ok.mp he) (hframe e s)

theorem tryOn_refused {id : EntryId} {f : Entry → Store → Bool × Entry × Store}
    (hf : ∀ e s, (f e s).1 = false → (f e s).2 = (e, s))
    (hr : t.tryOn s id f = .ok (false, t', s')) : t' = t ∧ s' = s := by
  unfold tryOn at hr
  cases he : t.entry id with
  | error x => simp [he, bind, Except.bind] at hr
  | ok e =>
    obtain ⟨hfalse, rfl, rfl⟩ :
        (f e s).1 = false ∧ t.set id (f e s).2.1 = t' ∧ (f e s).2.2 = s' := by
      simpa [he, bind, Except.bind, pure, Except.pure] using hr
    have hsame := hf e s hfalse
    rw [Prod.ext_iff] at hsame
    rw [hsame.1, hsame.2]
    exact ⟨set_get? (entry_eq_ok.mp he), rfl⟩

/-- A copy is the assignment of what the source holds, if it holds anything. -/
theorem copy_cases {target source : EntryId} {done : Bool}
    (hr : t.copy s target source = .ok (done, t', s')) :
    (done = false ∧ t' = t ∧ s' = s) ∨ ∃ value, t.assign s target value = .ok (done, t', s') := by
  unfold copy at hr
  cases hv : t.snapshot? s source with
  | error x => simp [hv, bind, Except.bind] at hr
  | ok value =>
    cases value with
    | none =>
      obtain ⟨rfl, rfl, rfl⟩ : false = done ∧ t = t' ∧ s = s' := by
        simpa [hv, bind, Except.bind, pure, Except.pure] using hr
      exact Or.inl ⟨rfl, rfl, rfl⟩
    | some value => exact Or.inr ⟨value, by simpa [hv, bind, Except.bind] using hr⟩

theorem copyLive_eq_ok {target source : EntryId} {done : Bool}
    (hr : t.copyLive s target source = .ok (done, t', s')) :
    ∃ e, t.get? source = some e ∧ t.tryOn s target (Entry.copyFrom e) = .ok (done, t', s') := by
  unfold copyLive at hr
  cases he : t.entry source with
  | error x => simp [he, bind, Except.bind] at hr
  | ok e =>
    rw [he] at hr
    exact ⟨e, entry_eq_ok.mp he, hr⟩

/-! ## Reading -/

theorem readText_of_live {id : EntryId} {e : Entry} (live : t.get? id = some e) (s : Store) :
    t.readText s id = Attempt.ofError (e.readText s) := by
  simp [readText, liveEntry_eq_ok.mpr live, bind, Except.bind]

theorem readText_eq_ok {id : EntryId} {e : Entry} (live : t.get? id = some e) {text : String} :
    t.readText s id = .ok text ↔ e.readText s = .ok text := by
  rw [readText_of_live live]
  cases e.readText s <;> simp [Attempt.ofError]

theorem readNumber_eq_ok {id : EntryId} {e : Entry} (live : t.get? id = some e) {x : Double} :
    t.readNumber s id = .ok x ↔ e.readNumber s = .ok x := by
  simp only [readNumber, liveEntry_eq_ok.mpr live, bind, Except.bind]
  cases e.readNumber s <;> simp [Attempt.ofError]

/-- An argument is converted by the two readings of its entry. -/
theorem convert_of_live {id : EntryId} {e : Entry} (live : t.get? id = some e) (s : Store)
    (type : HostType) : t.convert s (.value type) id =
      Attempt.ofError (type.ofArgument (e.readText s) (e.readNumber s)) := by
  simp only [convert, liveEntry_eq_ok.mpr live, bind, Except.bind]
  rfl

/-! ## Headers and defaults -/

theorem edit_atomic (t : Table) (id : EntryId) (change : HeaderEdit) :
    (edit id change : Edit ε Unit).Atomic t fun _ t' =>
      ∃ e, t.get? id = some e ∧ t' = t.set id (e.edit change) := by
  unfold edit
  exact .look_bind fun e he =>
    .done (Edit.run_change _ t) ⟨e, liveEntry_eq_ok.mp he, rfl⟩

theorem Sound.edited (h : t.Sound) (id : EntryId) (change : HeaderEdit) :
    ((edit id change : Edit ε Unit).run t).2.Sound := by
  apply (edit_atomic t id change).keeps h
  intro _ t' hr
  obtain ⟨e, live, rfl⟩ := hr
  exact h.set live (e.frame_edit change)

/-- What every step of a row of edits keeps, the row keeps. -/
theorem forM_keeps {I : Table → Prop} {g : α → Edit ε Unit} {as : List α} (ht : I t)
    (hg : ∀ a ∈ as, ∀ t, I t → I ((g a).run t).2) : I ((as.forM g).run t).2 := by
  induction as generalizing t with
  | nil => exact ht
  | cons a as ih =>
    obtain ⟨ha, has⟩ := List.forall_mem_cons.mp hg
    rw [Edit.forM_cons]
    have hfirst := ha t ht
    rcases hrun : (g a).run t with ⟨outcome, u⟩
    rw [hrun] at hfirst
    cases outcome with
    | ok _ =>
      rw [Edit.bind_ok _ hrun]
      exact ih hfirst has
    | error x =>
      rw [Edit.bind_error _ hrun]
      exact hfirst

theorem Sound.updatedWithin (h : t.Sound) (s : Store) (depth : Nat) (id : EntryId) :
    ((updateWithin s depth id : Edit ε Unit).run t).2.Sound := by
  induction depth generalizing t id with
  | zero => exact h
  | succ depth ih =>
    unfold updateWithin
    cases he : (t.liveEntry id : Attempt ε Entry) with
    | error x =>
      rw [Edit.look_bind_error _ t he]
      exact h
    | ok e =>
      rw [Edit.look_bind_ok _ t he]
      cases hb : e.scope? with
      | some b => exact forM_keeps h fun c _ u hu => ih hu c
      | none => exact h.set (liveEntry_eq_ok.mp he) (e.frame_recordDefault s)

theorem Sound.updated (h : t.Sound) (s : Store) (id : EntryId) :
    ((updateDefault s id : Edit ε Unit).run t).2.Sound := by
  have hrun : (updateDefault s id : Edit ε Unit).run t =
      (updateWithin s (t.slots.size + 1) id).run t := Edit.look_bind_ok _ t rfl
  rw [hrun]
  exact h.updatedWithin s _ id

end Table
end Settings
