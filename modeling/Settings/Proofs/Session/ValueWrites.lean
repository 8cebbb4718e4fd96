import Settings.Proofs.Session.ScriptCalls
import Settings.Proofs.Table.Shapes

/-!
# Runs of value writes

A host writes values by handle, and its variables directly; a script assigns by path. Each such
`ValueWrite` goes through the writing of one entry or one variable, so however many there are and
however they end, all that is different afterwards are values (`Session.revalued_afterWrites`).
-/

set_option autoImplicit false

namespace Settings

/-- A write of a value, by the host or by a script. -/
inductive ValueWrite where
  | number (id : EntryId) (value : Double)
  | text (id : EntryId) (text : String)
  | scalar (id : EntryId) (value : Scalar)
  | copy (target source : EntryId)
  /-- A copy between two entries that the host has in hand. -/
  | copyLive (target source : EntryId)
  /-- An assignment of a script. -/
  | assignment (scope : EntryId) (text : String)
  /-- A write to a host variable. -/
  | host (type : HostType) (id : VariableId) (value : type.Carrier)

/-- The session after a write, whether it was done or not. -/
def ValueWrite.run : ValueWrite → Session → Session
  | .number id x, s => (Operation.ask (.writeNumber id x)).run s
  | .text id line, s => (Operation.ask (.writeText id line)).run s
  | .scalar id value, s => (Operation.ask (.assign id value)).run s
  | .copy target source, s => (Operation.ask (.copy target source)).run s
  | .copyLive target source, s => (Operation.copyLive target source).run s
  | .assignment scope line, s => ((Session.assign scope line).run s).2
  | .host type id value, s => (Operation.change fun st => st.write type id value).run s

namespace Session

variable {ε : Type} {s s' : Session} {id scope : EntryId} {e : Entry}

def afterWrites (s : Session) (writes : List ValueWrite) : Session :=
  writes.foldl (fun s w => w.run s) s

/-- Only values are different. -/
def Revalued (s s' : Session) : Prop := s.table.Revalued s.store s'.table s'.store

end Session

/-! ## Writes to a live entry -/

theorem Request.answer_onEntry {t : Table} {id : EntryId} {e : Entry} (live : t.get? id = some e)
    (s : Store) {ε α : Type} (f : Entry → Store → Except ε α × Entry × Store) :
    answer.replied (t.onEntry s id f) = .ok ((f e s).1, t.set id (f e s).2.1, (f e s).2.2) := by
  unfold Table.onEntry
  rw [live]
  simp only [answer.replied]
  cases (f e s).1 <;> rfl

theorem Table.tryOn_of_live {t : Table} {id : EntryId} {e : Entry} (live : t.get? id = some e)
    (s : Store) (f : Entry → Store → Bool × Entry × Store) :
    t.tryOn s id f = .ok ((f e s).1, t.set id (f e s).2.1, (f e s).2.2) := by
  unfold tryOn
  rw [entry_eq_ok.mpr live]
  rfl

namespace Session

variable {ε : Type} {s s' : Session} {id scope : EntryId} {e : Entry}

theorem run_ask_answered {r : Request} {reply : r.Reply} {t : Table} {st : Store}
    (h : r.answer s.table s.store = .ok (reply, t, st)) :
    (ask r : Action ε r.Reply).run s = (.ok reply, { s with table := t, store := st }) := by
  rw [run_ask, h]

theorem run_ask_updateDefault {t : Table}
    (h : (Table.updateDefault s.store id : Edit Empty Unit).run s.table = (.ok (), t)) :
    (ask (.updateDefault id) : Action ε Unit).run s = (.ok (), { s with table := t }) := by
  have hanswer : (Request.updateDefault id).answer s.table s.store = .ok ((), t, s.store) := by
    show Request.answer.done s.store ((Table.updateDefault s.store id).run s.table) = _
    rw [h]
    rfl
  exact run_ask_answered hanswer

theorem run_updateDefault {t : Table}
    (h : (Table.updateDefault s.store id : Edit Empty Unit).run s.table = (.ok (), t)) :
    (Operation.ask (.updateDefault id)).run s = { s with table := t } :=
  congrArg Prod.snd (run_ask_updateDefault (ε := Empty) h)

/-! ## Assignments of scripts -/

/-- The session once an entry has taken a text. -/
def withText (s : Session) (id : EntryId) (e : Entry) (text : String) : Session :=
  { s with
    table := s.table.set id (e.writeText text s.store).2.1
    store := (e.writeText text s.store).2.2 }

theorem run_writeText (live : s.table.get? id = some e) (text : String) :
    (ask (.writeText id text) : Action ε (Except EntryError Unit)).run s =
      (.ok (e.writeText text s.store).1, s.withText id e text) :=
  run_ask_answered (r := .writeText id text) (Request.answer_onEntry live s.store _)

theorem run_lookupPath_error {path : String} {x : Fault}
    (h : s.table.lookupPath? scope path = .error x) :
    (ask (.lookupPath scope path) : Action ε (Option EntryId)).run s = (.error (.fault x), s) := by
  rw [run_ask]
  simp [Request.answer, h, Except.map]

theorem run_liveEntry_error (h : s.table.get? id = none) :
    (Action.reading (fun s => s.table.liveEntry id) : Action ε Entry).run s =
      (.error (.fault (.staleHandle id)), s) := by
  show ((s.table.liveEntry id : Attempt ε Entry), s) = _
  rw [Table.liveEntry_eq_error h]

/-- An assignment to an entry that is found is the writing of the text behind the first `=`. -/
theorem run_assign_found {assignment left right : String}
    (hsplit : splitFirst? '=' assignment = some (left, right))
    (hlookup : s.table.lookupPath? scope (trim left) = .ok (some id))
    (live : s.table.get? id = some e) (hscalar : e.isScalar = true) :
    (assign scope assignment).run s =
      ((Attempt.ofError (e.writeText (trim right) s.store).1).mapError .entry,
        s.withText id e (trim right)) := by
  unfold assign
  simp only [hsplit]
  refine (Action.bind_ok _ (run_lookupPath hlookup)).trans ?_
  refine (Action.bind_ok _ (run_liveEntry live)).trans ?_
  simp only [hscalar]
  exact (Action.bind_ok _ (run_writeText live (trim right))).trans rfl

/-- An assignment comes to the writing of a text to a live entry, or leaves the session as it is. -/
theorem assign_session (scope : EntryId) (assignment : String) (s : Session) :
    ((assign scope assignment).run s).2 = s ∨
      ∃ id e text, s.table.get? id = some e ∧
        ((assign scope assignment).run s).2 = s.withText id e text := by
  cases hsplit : splitFirst? '=' assignment with
  | none =>
    unfold assign
    simp only [hsplit]
    exact Or.inl rfl
  | some parts =>
    obtain ⟨left, right⟩ := parts
    by_cases hwrites : ∃ id e, s.table.lookupPath? scope (trim left) = .ok (some id) ∧
        s.table.get? id = some e ∧ e.isScalar = true
    · obtain ⟨id, e, hlookup, live, hscalar⟩ := hwrites
      exact Or.inr ⟨id, e, trim right, live,
        congrArg Prod.snd (run_assign_found hsplit hlookup live hscalar)⟩
    · refine Or.inl ?_
      unfold assign
      simp only [hsplit]
      cases hlookup : s.table.lookupPath? scope (trim left) with
      | error x => rw [Action.bind_error _ (run_lookupPath_error hlookup)]
      | ok found =>
        rw [Action.bind_ok _ (run_lookupPath hlookup)]
        cases found with
        | none => rfl
        | some id =>
          cases live : s.table.get? id with
          | none => exact congrArg Prod.snd (Action.bind_error _ (run_liveEntry_error live))
          | some e =>
            have hscalar : e.isScalar = false := by
              simpa [hlookup, live] using hwrites
            simp only
            rw [Action.bind_ok _ (run_liveEntry live), hscalar]
            rfl

/-! ## One write -/

theorem revalued_withText (h : s.table.Sound) (hk : s.table.SettersKeepTypes)
    (live : s.table.get? id = some e) (text : String) : s.Revalued (s.withText id e text) :=
  Table.revalued_set h hk live (Entry.revalued_writeText text e s.store)

/-- A link that is registered with a setter that keeps types leaves it so for all. -/
theorem settersKeepTypes_register (h : s.table.SlotsOk) (hk : s.table.SettersKeepTypes)
    {content : Content} (hc : ∀ a default, content = .linked (.accessor a) default → a.KeepsTypes)
    (scope : EntryId) (name description : String) :
    ((Operation.ask (.register scope name description content)).run s).table.SettersKeepTypes := by
  rcases ask_cases (.register scope name description content) s with
    hsame | ⟨reply, t, st, ha, hrun⟩
  · rw [hsame]
    exact hk
  · rw [hrun]
    have hkept := hk.register h hc s.store scope name description
    rwa [Request.replied_eq_ok ha] at hkept

/-- Answers that come of a write to one entry, or of none. -/
theorem writes_ask {r : Request} {P : EntryId → Prop}
    (hr : ∀ reply t st, r.answer s.table s.store = .ok (reply, t, st) →
      s.table.Writes s.store P t st) :
    s.table.Writes s.store P ((Operation.ask r).run s).table ((Operation.ask r).run s).store := by
  rcases ask_cases r s with hsame | ⟨reply, t, st, ha, hrun⟩
  · rw [hsame]
    exact .same
  · rw [hrun]
    exact hr reply t st ha

end Session

theorem Request.writes_replied {t t' : Table} {s s' : Store} {ε α : Type} {id : EntryId}
    {P : EntryId → Prop} (hid : P id) {f : Entry → Store → Except ε α × Entry × Store}
    (hf : ∀ (e : Entry) (s : Store), e.Revalued s (f e s).2.1 (f e s).2.2) {reply : Except ε α}
    (ha : answer.replied (t.onEntry s id f) = .ok (reply, t', s')) : t.Writes s P t' s' := by
  have hwrote := Table.writes_onEntry (t := t) (s := s) hid hf
  rwa [replied_eq_ok ha] at hwrote

namespace Session

variable {s : Session}

/-- A write of a value goes to an entry, or it is the host's to a variable. -/
theorem writes_run (w : ValueWrite) (s : Session) :
    s.table.Writes s.store (fun _ => True) (w.run s).table (w.run s).store ∨
      ∃ type v x, w.run s = { s with store := s.store.write type v x } := by
  cases w with
  | number id x =>
    exact Or.inl (writes_ask fun _ _ _ ha =>
      Request.writes_replied trivial (Entry.revalued_writeNumber x) ha)
  | text id text =>
    exact Or.inl (writes_ask fun _ _ _ ha =>
      Request.writes_replied trivial (Entry.revalued_writeText text) ha)
  | scalar id value =>
    exact Or.inl (writes_ask fun _ _ _ ha =>
      Table.writes_tryOn trivial (Entry.revalued_assign value) ha)
  | copy target source => exact Or.inl (writes_ask fun _ _ _ ha => Table.writes_copy trivial ha)
  | copyLive target source =>
    refine Or.inl ?_
    show s.table.Writes s.store _ ((Operation.copyLive target source).run s).table
      ((Operation.copyLive target source).run s).store
    rcases copyLive_cases target source s with hsame | ⟨done, t, st, hcopy, hrun⟩
    · rw [hsame]
      exact .same
    · rw [hrun]
      exact Table.writes_copyLive trivial hcopy
  | assignment scope text =>
    refine Or.inl ?_
    show s.table.Writes s.store _ ((assign scope text).run s).2.table
      ((assign scope text).run s).2.store
    rcases assign_session scope text s with hsame | ⟨id, e, value, live, hwrote⟩
    · rw [hsame]
      exact .same
    · rw [hwrote]
      exact .entry trivial live (Entry.revalued_writeText value e s.store)
  | host type id value => exact Or.inr ⟨type, id, value, rfl⟩

theorem revalued_run (h : s.table.Sound) (hk : s.table.SettersKeepTypes) (w : ValueWrite) :
    s.Revalued (w.run s) := by
  rcases writes_run w s with hwrites | ⟨type, v, x, hrun⟩
  · exact hwrites.revalued h hk
  · rw [hrun]
    exact ⟨h, fun _ => rfl, s.store.sameTypes_write type v x⟩

/-- After any run of value writes only values are different. -/
theorem revalued_afterWrites (h : s.table.Sound) (hk : s.table.SettersKeepTypes)
    (writes : List ValueWrite) : s.Revalued (s.afterWrites writes) := by
  induction writes generalizing s with
  | nil => exact .refl h s.store
  | cons w writes ih =>
    have first := revalued_run h hk w
    exact first.trans (ih first.sound (first.settersKeepTypes hk))

/-! ## Headers and places -/

variable {s' s'' : Session}

/-- No entry has another header or another place, and no storage is of another form. -/
structure SameShapes (s s' : Session) : Prop where
  sound : s'.table.Sound
  shape : ∀ id, (s'.table.get? id).map Entry.shape = (s.table.get? id).map Entry.shape

theorem SameShapes.refl (h : s.table.Sound) : s.SameShapes s := ⟨h, fun _ => rfl⟩

theorem SameShapes.trans (h : s.SameShapes s') (h' : s'.SameShapes s'') : s.SameShapes s'' :=
  ⟨h'.sound, fun id => (h'.shape id).trans (h.shape id)⟩

theorem SameShapes.live (h : s.SameShapes s') {id : EntryId} {e : Entry}
    (live : s.table.get? id = some e) :
    ∃ e', s'.table.get? id = some e' ∧ e'.shape = e.shape := by
  have hshape := h.shape id
  rw [live] at hshape
  exact Option.map_eq_some_iff.mp hshape

theorem sameShapes_run (h : s.table.Sound) (w : ValueWrite) : s.SameShapes (w.run s) := by
  rcases writes_run w s with hwrites | ⟨type, v, x, hrun⟩
  · generalize w.run s = after at hwrites
    obtain ⟨table, store, channel, inUse, objectCount⟩ := after
    cases hwrites with
    | same => exact ⟨h, fun _ => rfl⟩
    | entry hid live he =>
      exact ⟨h.set live (Entry.frame_eq_of_shape he.shape), Table.shape_set live he.shape⟩
  · rw [hrun]
    exact ⟨h, fun _ => rfl⟩

theorem sameShapes_afterWrites (h : s.table.Sound) (writes : List ValueWrite) :
    s.SameShapes (s.afterWrites writes) := by
  induction writes generalizing s with
  | nil => exact .refl h
  | cons w writes ih =>
    have first := sameShapes_run h w
    exact first.trans (ih first.sound)

end Session

end Settings
