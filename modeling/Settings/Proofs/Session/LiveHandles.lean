import Settings.Proofs.Session.CallTrees
import Settings.Proofs.Session.ValueWrites
import Settings.Proofs.Table.Faultless

/-!
# Live handles

Whoever uses only handles of live entries never meets a freed one, wherever the table follows
handles of its own: `Table.Serves` says so of requests and of everything else that is asked of a
table.

A call runs a body, and what the body uses is up to its author. `Body.Careful` is the promise that
it uses live handles, on the way that it takes from a given session: in what it asks, registers and
calls, and in the result that it gives. It may free entries, but those that it was given are to be
live in the end, since the caller goes on with them. Such a call ends without a fault of the table
(`careful_invokeWithin`), and so does a script that makes it.
-/

set_option autoImplicit false

namespace Settings

/-! ## Requests -/

/-- The handles that are promised to be live. That one is live may be asked of every handle. -/
def Request.handles : Request → List EntryId
  | .size | .contains _ | .makeTemp _ => []
  | .find id _ | .lookup id _ _ | .lookupPath id _ | .readNumber id | .readText id | .snapshot id
  | .convert _ id | .writeNumber id _ | .writeText id _ | .assign id _ | .edit id _
  | .updateDefault id | .release id | .releaseIfTemporary id | .clone id | .rename id _
  | .remove id | .register id _ _ _ => [id]
  | .copy target source => [target, source]
  | .attach scope id => [scope, id]

namespace Request

variable {ε α β : Type} {t t' : Table} {s s' : Store}

theorem exists_map {x : Except Fault α} (h : ∃ a, x = .ok a) (f : α → β) :
    ∃ b, x.map f = .ok b := by
  obtain ⟨a, rfl⟩ := h
  exact ⟨f a, rfl⟩

theorem exists_done {r : Attempt Empty α × Table} (h : r.1.Faultless) :
    ∃ a, answer.done s r = .ok a := by
  obtain ⟨outcome, t⟩ := r
  cases outcome with
  | ok a => exact ⟨_, rfl⟩
  | error x =>
    cases x with
    | error e => exact e.elim
    | fault y => exact absurd rfl (h y)

theorem exists_edited {r : Attempt TreeError α × Table} (h : r.1.Faultless) :
    ∃ a, answer.edited s r = .ok a := exists_map h.exists_settle _

theorem exists_replied {r : Attempt ε α × Table × Store} (h : r.1.Faultless) :
    ∃ a, answer.replied r = .ok a := exists_map h.exists_settle _

end Request

namespace Table

variable {ε α : Type} {t : Table} {id : EntryId} {e : Entry}

theorem onEntry_faultless (live : t.get? id = some e) (s : Store)
    (f : Entry → Store → Except ε α × Entry × Store) : (t.onEntry s id f).1.Faultless := by
  unfold onEntry
  rw [live]
  exact .ofError _

theorem exists_tryOn (live : t.get? id = some e) (s : Store)
    (f : Entry → Store → Bool × Entry × Store) : ∃ a, t.tryOn s id f = .ok a := by
  unfold tryOn
  rw [entry_eq_ok.mpr live]
  exact ⟨_, rfl⟩

theorem exists_copy (h : ∃ e, t.get? id = some e) {source : EntryId} (live : t.get? source = some e)
    (s : Store) : ∃ a, t.copy s id source = .ok a := by
  obtain ⟨target, ltarget⟩ := h
  unfold copy snapshot?
  rw [entry_eq_ok.mpr live]
  simp only [bind, Except.bind, pure, Except.pure]
  cases e.snapshot s with
  | none => exact ⟨_, rfl⟩
  | some value => exact exists_tryOn ltarget s (Entry.assign value)

theorem register_faultless (h : t.SlotsOk) (live : t.get? id = some e) (s : Store)
    (name description : String) (content : Content) :
    (t.register s id name description content).1.Faultless := by
  have hinsert := insert_faultless h live (entryOf name description content) false
  unfold register
  rcases hrun : (insert id (entryOf name description content) false).run t with ⟨outcome, t'⟩
  cases outcome with
  | ok id => exact .ok id
  | error x => exact hinsert.failure (congrArg Prod.fst hrun)

end Table

theorem Request.answer_of_live {t : Table} (h : t.Sound) (s : Store) (r : Request)
    (hr : ∀ id ∈ r.handles, t.contains id = true) : ∃ a, r.answer t s = .ok a := by
  have live : ∀ id ∈ r.handles, ∃ e, t.get? id = some e := fun id hid =>
    Table.contains_iff.mp (hr id hid)
  cases r with
  | size | contains | makeTemp => exact ⟨_, rfl⟩
  | copy target source =>
    obtain ⟨e, lsource⟩ := live source (by simp [handles])
    exact Table.exists_copy (live target (by simp [handles])) lsource s
  | attach scope id =>
    obtain ⟨p, lscope⟩ := live scope (by simp [handles])
    obtain ⟨e, lid⟩ := live id (by simp [handles])
    exact exists_edited (Table.attach_faultless h lid lscope)
  | find id name =>
    obtain ⟨e, lid⟩ := live id (by simp [handles])
    exact exists_map ⟨_, Table.find?_eq_ok lid name⟩ _
  | lookup id name enclosing =>
    obtain ⟨e, lid⟩ := live id (by simp [handles])
    refine exists_map ?_ _
    cases enclosing with
    | true =>
      obtain ⟨found, hfound, _⟩ := h.exists_lookup? lid name
      exact ⟨found, hfound⟩
    | false =>
      unfold Table.lookup?
      split
      · exact ⟨_, rfl⟩
      · exact ⟨_, Table.find?_eq_ok lid name⟩
  | lookupPath id path =>
    obtain ⟨e, lid⟩ := live id (by simp [handles])
    obtain ⟨found, hfound, _⟩ := h.exists_lookupPath? lid path
    exact exists_map ⟨found, hfound⟩ _
  | readNumber id =>
    obtain ⟨e, lid⟩ := live id (by simp [handles])
    refine exists_map (Attempt.Faultless.exists_settle ?_) _
    unfold Table.readNumber
    rw [Table.liveEntry_eq_ok.mpr lid]
    exact .ofError (e.readNumber s)
  | readText id =>
    obtain ⟨e, lid⟩ := live id (by simp [handles])
    refine exists_map (Attempt.Faultless.exists_settle ?_) _
    rw [Table.readText_of_live lid]
    exact .ofError (e.readText s)
  | snapshot id =>
    obtain ⟨e, lid⟩ := live id (by simp [handles])
    refine exists_map ⟨e.snapshot s, ?_⟩ _
    unfold Table.snapshot?
    rw [Table.entry_eq_ok.mpr lid]
    rfl
  | convert p id =>
    obtain ⟨e, lid⟩ := live id (by simp [handles])
    refine exists_map (Attempt.Faultless.exists_settle ?_) _
    rcases Table.convert_cases lid s p with ⟨v, hv⟩ | ⟨x, hx⟩
    · rw [hv]
      exact .ok v
    · rw [hx]
      exact .error x
  | writeNumber id x =>
    obtain ⟨e, lid⟩ := live id (by simp [handles])
    exact exists_replied (Table.onEntry_faultless lid s (Entry.writeNumber x))
  | writeText id text =>
    obtain ⟨e, lid⟩ := live id (by simp [handles])
    exact exists_replied (Table.onEntry_faultless lid s (Entry.writeText text))
  | assign id value =>
    obtain ⟨e, lid⟩ := live id (by simp [handles])
    exact Table.exists_tryOn lid s (Entry.assign value)
  | edit id change =>
    obtain ⟨e, lid⟩ := live id (by simp [handles])
    exact exists_done (by rw [Table.run_edit lid]; exact .ok ())
  | updateDefault id =>
    obtain ⟨e, lid⟩ := live id (by simp [handles])
    exact exists_done (Table.updateDefault_faultless h lid s)
  | release id =>
    obtain ⟨e, lid⟩ := live id (by simp [handles])
    exact exists_edited (Table.release_faultless h lid)
  | releaseIfTemporary id =>
    obtain ⟨e, lid⟩ := live id (by simp [handles])
    exact exists_done (Table.releaseIfTemporary_faultless h lid)
  | clone id =>
    obtain ⟨e, lid⟩ := live id (by simp [handles])
    exact exists_done (Table.clone_faultless h lid)
  | rename id name =>
    obtain ⟨e, lid⟩ := live id (by simp [handles])
    exact exists_edited (Table.rename_faultless h lid name)
  | remove id =>
    obtain ⟨e, lid⟩ := live id (by simp [handles])
    exact exists_edited (Table.remove_faultless h lid)
  | register id name description content =>
    obtain ⟨e, lid⟩ := live id (by simp [handles])
    exact exists_replied (Table.register_faultless h.slots lid s name description content)

/-! ## Everything that is asked of a table -/

/-- Whatever is asked of live entries is answered: with a value, or with an error of its family. -/
structure Table.Serves (t : Table) (s : Store) : Prop where
  request : ∀ r : Request, (∀ id ∈ r.handles, t.contains id = true) → ∃ a, r.answer t s = .ok a
  define : ∀ scope name f description builtin, t.contains scope = true →
    (Table.define scope name f description builtin).Faultless t
  copyLive : ∀ target source, t.contains target = true → t.contains source = true →
    ∃ a, t.copyLive s target source = .ok a
  pathOf : ∀ id, t.contains id = true → ∃ path, t.pathOf id = .ok path
  children : ∀ id, t.contains id = true → ∃ es bs, t.entries id = .ok es ∧ t.builtins id = .ok bs
  structureType : ∀ id, t.contains id = true → ∃ name, t.structureType? id = .ok name
  arity : ∀ id, t.contains id = true → ∃ arity, t.arity? id = .ok arity
  serialized : ∀ id, t.contains id = true → (t.serialized s id).Faultless
  validate : ∀ id, t.contains id = true → ∃ ids, t.validate s id = .ok ids
  listing : ∀ id, t.contains id = true → ∀ indent column,
    ∃ row row', t.listing s id indent column = .ok row ∧
      t.listingOfContents s id indent column = .ok row'
  configText : ∀ id, t.contains id = true → ∃ text, t.configText s id = .ok text
  /-- An entry that is checked to be a scope has the children of one. -/
  scope : ∀ id e, t.get? id = some e → e.isScope = true → ∃ b, e.scope? = some b

theorem Table.Sound.serves {t : Table} (h : t.Sound) (s : Store) : t.Serves s := by
  have tree : ∀ id, t.contains id = true → ∃ x, t.tree id = .ok x := by
    intro id hid
    obtain ⟨e, live⟩ := contains_iff.mp hid
    exact h.exists_tree live
  have entry : ∀ id, t.contains id = true → ∃ e, t.entry id = .ok e := by
    intro id hid
    obtain ⟨e, live⟩ := contains_iff.mp hid
    exact ⟨e, entry_eq_ok.mpr live⟩
  constructor
  case request => exact fun r hr => r.answer_of_live h s hr
  case define =>
    intro scope name f description builtin hscope
    obtain ⟨p, live⟩ := contains_iff.mp hscope
    exact insert_faultless h.slots live _ builtin
  case copyLive =>
    intro target source htarget hsource
    obtain ⟨e, live⟩ := contains_iff.mp htarget
    obtain ⟨e', he'⟩ := entry source hsource
    unfold Table.copyLive
    rw [he']
    exact exists_tryOn live s e'.copyFrom
  case pathOf =>
    intro id hid
    obtain ⟨e, live⟩ := contains_iff.mp hid
    obtain ⟨links, hchain, _⟩ := h.exists_chain live
    exact Request.exists_map ⟨links, hchain⟩ _
  case children =>
    intro id hid
    obtain ⟨es, hes⟩ := Request.exists_map (entry id hid)
      fun e => (e.scope?.map ScopeBody.entries).getD []
    obtain ⟨bs, hbs⟩ := Request.exists_map (entry id hid)
      fun e => (e.scope?.map ScopeBody.builtins).getD []
    exact ⟨es, bs, hes, hbs⟩
  case structureType => exact fun id hid => Request.exists_map (entry id hid) _
  case arity => exact fun id hid => Request.exists_map (entry id hid) _
  case serialized =>
    intro id hid
    obtain ⟨e, live⟩ := contains_iff.mp hid
    unfold Table.serialized
    rw [liveEntry_eq_ok.mpr live]
    exact .ofError (e.serialized s)
  case validate => exact fun id hid => Request.exists_map (tree id hid) _
  case listing =>
    intro id hid indent column
    obtain ⟨row, hrow⟩ := Request.exists_map (tree id hid)
      fun x => Listing.piecesAll indent column (x.outline s)
    obtain ⟨row', hrow'⟩ := Request.exists_map (tree id hid)
      fun x => Listing.piecesAll indent column (Tree.outlineAll s x.entries)
    exact ⟨row, row', hrow, hrow'⟩
  case configText =>
    intro id hid
    exact Request.exists_map (Request.exists_map (tree id hid) _) _
  case scope =>
    intro id e _ hscope
    rw [isScope_eq_scope?] at hscope
    exact Option.isSome_iff_exists.mp hscope

/-! ## Calls -/

/-- A handle used after its entry was freed, or a circle. The other faults are of calls. -/
def Fault.ofTable : Fault → Bool
  | .staleHandle _ | .cyclicTree => true
  | .wrongReceiver _ | .callDepth => false

/-- The body uses live handles only, as it runs from a session on, and those that it was given are
live when it ends. What the calls in it are to promise is said by `calls`. -/
inductive Body.Careful (call : EntryId → List EntryId → Session → Session.CallOutcome)
    (calls : EntryId → List EntryId → Session → Prop) (given : List EntryId) :
    Body → Session → Prop
  | done {outcome : Except CallError EntryId} {s : Session}
      (result : ∀ id, outcome = .ok id → s.table.contains id = true)
      (kept : ∀ id ∈ given, s.table.contains id = true) : Careful call calls given (.done outcome) s
  | ask {r : Request} {next : r.Reply → Body} {s : Session}
      (live : ∀ id ∈ r.handles, s.table.contains id = true)
      (rest : ∀ reply t st, r.answer s.table s.store = .ok (reply, t, st) →
        Careful call calls given (next reply) { s with table := t, store := st }) :
      Careful call calls given (.ask r next) s
  | invoke {f : EntryId} {args : List EntryId} {next : Except CallError EntryId → Body}
      {s : Session} (function : s.table.contains f = true)
      (live : ∀ id ∈ args, s.table.contains id = true) (made : calls f args s)
      (rest : ∀ outcome after, call f args s = (.ofError outcome, after) →
        Careful call calls given (next outcome) after) :
      Careful call calls given (.invoke f args next) s
  | define {scope : EntryId} {name : String} {f : Function} {description : String} {builtin : Bool}
      {next : Except TreeError EntryId → Body} {s : Session} (live : s.table.contains scope = true)
      (rest : ∀ outcome t,
        (Table.define scope name f description builtin).run s.table = (.ofError outcome, t) →
          Careful call calls given (next outcome) { s with table := t }) :
      Careful call calls given (.define scope name f description builtin next) s
  | inspect {next : Store → Body} {s : Session}
      (rest : Careful call calls given (next s.store) s) :
      Careful call calls given (.inspect next) s
  | update {change : Store → Store} {next : Body} {s : Session}
      (rest : Careful call calls given next { s with store := change s.store }) :
      Careful call calls given (.update change next) s

namespace Session

/-- If the call runs a body, that body uses live handles only, and so do the calls in it. -/
def CarefulWithin : (depth : Nat) → EntryId → List EntryId → Session → Prop
  | 0, _, _, _ => True
  | depth + 1, id, args, s =>
      ∀ g, (s.table.get? id).bind Entry.function? = some g → g.enters s = true →
        (g.call args).Careful (invokeWithin depth) (CarefulWithin depth) args
          (s.holding g.receiver)

/-- How a call ends that uses live handles only: not with a fault of the table, and unless another
fault ends everything, with the handles that it was given, and its result, live. -/
structure EndsLive (given : List EntryId) (o : CallOutcome) : Prop where
  sound : o.2.table.Sound
  fault : ∀ x, o.1 = .error (.fault x) → x.ofTable = false
  kept : o.1.Faultless → ∀ id ∈ given, o.2.table.contains id = true
  result : ∀ id, o.1 = .ok id → o.2.table.contains id = true

variable {call : EntryId → List EntryId → Session → CallOutcome}
  {calls : EntryId → List EntryId → Session → Prop} {given args : List EntryId} {s : Session}

theorem endsLive_fault (h : s.table.Sound) {x : Fault} (hx : x.ofTable = false) :
    EndsLive given (.error (.fault x), s) where
  sound := h
  fault := by
    intro y hy
    obtain rfl : x = y := by simpa using hy
    exact hx
  kept := fun hno => absurd rfl (hno x)
  result := by simp

/-- An error, with the entries as they are. -/
theorem endsLive_error (h : s.table.Sound) (hgiven : ∀ id ∈ given, s.table.contains id = true)
    (e : CallError) : EndsLive given (.error (.error e), s) where
  sound := h
  fault := by simp
  kept := fun _ => hgiven
  result := by simp

/-- Only the tables matter, and whether the channel was told does not. -/
theorem EndsLive.congr {o o' : CallOutcome} (h : EndsLive given o) (houtcome : o'.1 = o.1)
    (htable : o'.2.table = o.2.table) : EndsLive given o' where
  sound := htable ▸ h.sound
  fault := fun x hx => h.fault x (houtcome ▸ hx)
  kept := by
    rw [houtcome, htable]
    exact h.kept
  result := by
    rw [houtcome, htable]
    exact h.result

/-- Careful calls end well, which is what the bodies that make them rely on. -/
def CallsEndLive (call : EntryId → List EntryId → Session → CallOutcome)
    (calls : EntryId → List EntryId → Session → Prop) : Prop :=
  ∀ id args s, s.table.Sound → s.table.contains id = true →
    (∀ a ∈ args, s.table.contains a = true) → calls id args s → EndsLive args (call id args s)

theorem careful_runBody (hcall : CallsEndLive call calls) {body : Body}
    (hc : body.Careful call calls given s) (h : s.table.Sound) :
    EndsLive given (runBody call body s) := by
  induction hc with
  | @done outcome s result kept =>
    cases outcome with
    | ok id => exact ⟨h, by simp [runBody, Attempt.ofError], fun _ => kept, by
        simpa [runBody, Attempt.ofError] using result⟩
    | error e => exact endsLive_error h kept e
  | @ask r next s live rest ih =>
    obtain ⟨⟨reply, t, st⟩, hr⟩ := r.answer_of_live h s.store live
    unfold runBody
    rw [hr]
    exact ih reply t st hr (Request.sound_answer h hr)
  | @invoke f args next s function live made rest ih =>
    have ends := hcall f args s h function live made
    unfold runBody
    rcases hr : call f args s with ⟨outcome, after⟩
    rw [hr] at ends
    cases outcome with
    | ok id => exact ih (.ok id) after hr ends.sound
    | error x =>
      cases x with
      | error e => exact ih (.error e) after hr ends.sound
      | fault y => exact endsLive_fault ends.sound (ends.fault y rfl)
  | @define scope name f description builtin next s live rest ih =>
    have hfaultless := (h.serves s.store).define scope name f description builtin live
    have hsound := h.define scope name f description builtin
    unfold runBody
    unfold Edit.Faultless at hfaultless
    rcases hr : (Table.define scope name f description builtin).run s.table with ⟨outcome, t⟩
    rw [hr] at hfaultless hsound
    cases outcome with
    | ok id => exact ih (.ok id) t hr hsound
    | error x =>
      cases x with
      | error e => exact ih (.error e) t hr hsound
      | fault y => exact absurd rfl (hfaultless y)
  | inspect _ ih =>
    unfold runBody
    exact ih h
  | update _ ih =>
    unfold runBody
    exact ih h

theorem endsLive_reported {o : CallOutcome} (h : EndsLive given o) :
    EndsLive given (reported o) := by
  refine h.congr ?_ (Table.Kept.table_reported o)
  unfold reported
  split <;> rfl

theorem endsLive_apply (hcall : CallsEndLive call calls) (h : s.table.Sound)
    (hargs : ∀ a ∈ args, s.table.contains a = true) {g : Function}
    (hc : g.enters s = true → (g.call args).Careful call calls args (s.holding g.receiver)) :
    EndsLive args (apply call g args s) := by
  cases he : g.enters s with
  | true =>
    rw [apply_of_enters he]
    have ends := careful_runBody hcall (hc he) (by rwa [table_holding])
    exact ends.congr rfl (table_releasing _ _)
  | false =>
    obtain ⟨r, hr, hused | ⟨_, hfault⟩⟩ := apply_of_not_enters he call args
    · rw [apply_of_inUse hr hused]
      exact endsLive_error h hargs _
    · rw [hfault]
      exact endsLive_fault h rfl

/-- A call that uses live handles only does not end with a fault of the table. -/
theorem careful_invokeWithin (depth : Nat) :
    CallsEndLive (invokeWithin depth) (CarefulWithin depth) := by
  induction depth with
  | zero => exact fun id args s h _ _ _ => endsLive_fault h rfl
  | succ depth ih =>
    intro id args s h hid hargs hc
    obtain ⟨e, live⟩ := Table.contains_iff.mp hid
    cases hfun : e.function? with
    | some g =>
      rw [invokeWithin_succ live hfun]
      exact endsLive_reported (endsLive_apply ih h hargs (hc g (by simp [live, hfun])))
    | none =>
      unfold invokeWithin
      rw [Table.entry_eq_ok.mpr live]
      simp only [hfun]
      exact endsLive_reported (endsLive_error h hargs _)

end Session

end Settings
