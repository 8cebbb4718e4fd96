import Settings.Binding.Catalogue
import Settings.Proofs.Session.LiteralCalls
import Settings.Proofs.Session.ValueWrites
import Settings.Proofs.Table.Regions

/-!
# Deeds on an instance

Scripts and hosts work with an instance by calling its members and by writing its settings. A `Deed`
is one such call or write, whatever entry it is about; `Session.Addressed` says which deeds are
addressed to an instance. Each of them comes to one step on one entry under the scope of the
instance, and the step is local to the fields of its object (`Addressed.acts`). The temporaries that
a call makes on the way are gone when it ends, and of the free list, which it may leave in another
order, nothing is ever shown.

The entry, the step and the host variables it works on decide all that a deed does, so this is
stated for two sessions at once that agree on them, `Session.AlikeAt`.
-/

set_option autoImplicit false

namespace Settings

/-- A call by path, or a write of a value. -/
inductive Deed where
  | call (scope : EntryId) (path : String) (literals : List String)
  | write (w : ValueWrite)

/-- What whoever does a deed is told. -/
inductive Answer where
  | shown (outcome : Attempt ScriptError String)
  | assigned (outcome : Attempt ScriptError Unit)
  | written (outcome : Attempt Empty (Except EntryError Unit))
  | done (outcome : Attempt Empty Bool)
  | nothing

namespace Deed

/-- The text or error of a call, and whether a write was done. A host that writes to a variable of
its own is not told anything. -/
def answer : Deed → Session → Answer
  | .call scope path literals, s => .shown ((Session.callPath scope path literals).run s).1
  | .write (.number id x), s => .written ((Session.ask (.writeNumber id x)).run s).1
  | .write (.text id text), s => .written ((Session.ask (.writeText id text)).run s).1
  | .write (.scalar id value), s => .done ((Session.ask (.assign id value)).run s).1
  | .write (.copy target source), s => .done ((Session.ask (.copy target source)).run s).1
  | .write (.copyLive target source), s =>
      .done (.ofFault ((s.table.copyLive s.store target source).map Prod.fst))
  | .write (.assignment scope text), s => .assigned ((Session.assign scope text).run s).1
  | .write (.host ..), _ => .nothing

def run : Deed → Session → Session
  | .call scope path literals, s => ((Session.callPath scope path literals).run s).2
  | .write w, s => w.run s

end Deed

namespace Session

/-! ## Which deeds are addressed to an instance -/

/-- The deed is addressed to the instance: it is a call, with numbers and quoted texts, of a
function that is local to the fields of the object, or a write to entries under the scope or to the
fields. The paths may start anywhere. -/
inductive Addressed (s : Session) (i : Instance) : Deed → Prop
  | call {scope id : EntryId} {path : String} {literals : List String} {values : List Scalar}
      {e : Entry} {g : Function} {name : String} {ps : List Param}
      {f : Args ps → StateM Store (Except CallError Scalar)}
      (known : s.table.contains scope = true)
      (valued : List.Forall₂ (fun text v => literalValue? text = some v) literals values)
      (found : s.table.lookupPath? scope path = .ok (some id)) (live : s.table.get? id = some e)
      (function : e.function? = some g) (hosts : g.Hosts name ps (answering f))
      (works : LocalFunction (· ∈ i.object.fields) f) : Addressed s i (.call scope path literals)
  | number {id : EntryId} (under : s.table.Under i.scope id) (x : Double) :
      Addressed s i (.write (.number id x))
  | text {id : EntryId} (under : s.table.Under i.scope id) (text : String) :
      Addressed s i (.write (.text id text))
  | scalar {id : EntryId} (under : s.table.Under i.scope id) (value : Scalar) :
      Addressed s i (.write (.scalar id value))
  | copy {target source : EntryId} (under : s.table.Under i.scope target)
      (reads : s.table.Under i.scope source) : Addressed s i (.write (.copy target source))
  | copyLive {target source : EntryId} (under : s.table.Under i.scope target)
      (reads : s.table.Under i.scope source) : Addressed s i (.write (.copyLive target source))
  | assignment {scope id : EntryId} {text left right : String}
      (known : s.table.contains scope = true) (split : splitFirst? '=' text = some (left, right))
      (found : s.table.lookupPath? scope (trim left) = .ok (some id))
      (under : s.table.Under i.scope id) : Addressed s i (.write (.assignment scope text))
  | host (type : HostType) {v : VariableId} (x : type.Carrier) (own : v ∈ i.object.fields) :
      Addressed s i (.write (.host type v x))

/-- The scope of the instance is in the table, and what is linked under it are the fields of its
object. -/
structure Placed (s : Session) (i : Instance) : Prop where
  sound : s.table.Sound
  scope : ∃ e b, s.table.get? i.scope = some e ∧ e.scope? = some b
  links : ∀ id e, s.table.Under i.scope id → s.table.get? id = some e →
    e.LinkedWithin (· ∈ i.object.fields)

/-- The instances have no entry and no host variable in common. -/
structure Apart (s : Session) (i j : Instance) : Prop where
  scopes : ∀ id, s.table.Under i.scope id → ¬ s.table.Under j.scope id
  fields : ∀ v ∈ i.object.fields, v ∉ j.object.fields

theorem Apart.symm {s : Session} {i j : Instance} (h : s.Apart i j) : s.Apart j i :=
  ⟨fun id hj hi => h.scopes id hi hj, fun v hj hi => h.fields v hi hj⟩

/-! ## Sessions that are alike at an instance -/

/-- Only values have changed since, and the same calls are running. -/
structure Later (s₀ s : Session) : Prop extends s₀.SameShapes s where
  inUse : s.inUse = s₀.inUse

/-- Only values have changed since in either session, and those of the instance are the same. -/
structure AlikeAt (s₀ : Session) (i : Instance) (s s' : Session) : Prop where
  later : s₀.Later s
  later' : s₀.Later s'
  entries : ∀ id, s₀.table.Under i.scope id → s'.table.get? id = s.table.get? id
  fields : Store.SameOn (· ∈ i.object.fields) s.store s'.store

/-- One entry has become another one, the host variables are these, and nothing else is different,
as far as can be seen. -/
structure Puts (s : Session) (id : EntryId) (e : Entry) (st : Store) (s' : Session) : Prop where
  sound : s'.table.Sound
  entries : ∀ y, s'.table.get? y = if y = id then some e else s.table.get? y
  store : s'.store = st
  inUse : s'.inUse = s.inUse

variable {s₀ s s' : Session} {i : Instance} {id scope : EntryId} {e e' : Entry} {d : Deed}

theorem Later.refl (h : s.table.Sound) : s.Later s := ⟨.refl h, rfl⟩

theorem AlikeAt.refl (h : s₀.Later s) : s₀.AlikeAt i s s := ⟨h, h, fun _ _ => rfl, .refl _ _⟩

theorem Later.sameFramesOn (h : s₀.Later s) (P : EntryId → Prop) :
    s₀.table.SameFramesOn P s.table := by
  intro id _
  have hshape := h.shape id
  cases h₀ : s₀.table.get? id with
  | none =>
    rw [h₀] at hshape
    rw [Option.map_eq_none_iff.mp hshape]
  | some e =>
    obtain ⟨e', live', heq⟩ := h.live h₀
    rw [live', Option.map_some, Option.map_some, Entry.frame_eq_of_shape heq]

/-- Paths lead where they led before. -/
theorem Later.lookupPath? (h₀ : s₀.table.Sound) (h : s₀.Later s)
    (known : s₀.table.contains scope = true) (path : String) :
    s.table.lookupPath? scope path = s₀.table.lookupPath? scope path :=
  (Table.Region.all h₀).lookupPath? h₀ h.sound (h.sameFramesOn _) known path

theorem Later.puts (h : s₀.Later s) (live : s.table.get? id = some e) (he : e'.shape = e.shape)
    {st : Store} (hs : s.Puts id e' st s') : s₀.Later s' where
  sound := hs.sound
  shape := by
    intro y
    rw [← h.shape y, hs.entries y]
    by_cases hy : y = id
    · rw [if_pos hy, hy, live, Option.map_some, Option.map_some, he]
    · rw [if_neg hy]
  inUse := hs.inUse.trans h.inUse

theorem Placed.live (hi : s₀.Placed i) (hu : s₀.table.Under i.scope id) :
    ∃ e, s₀.table.get? id = some e := by
  cases hu with
  | self =>
    obtain ⟨e, _, live, _⟩ := hi.scope
    exact ⟨e, live⟩
  | owned live _ _ => exact ⟨_, live⟩

/-- The entries of an instance, as they are later. -/
theorem Placed.later (hi : s₀.Placed i) (h : s₀.Later s) (hu : s₀.table.Under i.scope id) :
    ∃ e, s.table.get? id = some e ∧ e.LinkedWithin (· ∈ i.object.fields) := by
  obtain ⟨e₀, live₀⟩ := hi.live hu
  obtain ⟨e, live, hshape⟩ := h.live live₀
  exact ⟨e, live, fun target hlink =>
    hi.links id e₀ hu live₀ target (Entry.linked_of_shape hshape hlink)⟩

/-! ## What a deed does -/

theorem puts_set (h : s.table.Sound) (live : s.table.get? id = some e) (he : e'.shape = e.shape)
    (st : Store) : s.Puts id e' st { s with table := s.table.set id e', store := st } where
  sound := h.set live (Entry.frame_eq_of_shape he)
  entries := fun y => Table.get?_set s.table id y e' (Table.index_lt_of_get? live)
  store := rfl
  inUse := rfl

/-- The entry is what it was, like all others. -/
theorem puts_of_entries (s' : Session) (live : s.table.get? id = some e) (h : s'.table.Sound)
    (same : ∀ y, s'.table.get? y = s.table.get? y) (inUse : s'.inUse = s.inUse) :
    s.Puts id e s'.store s' where
  sound := h
  entries := by
    intro y
    rw [same y]
    by_cases hy : y = id
    · rw [if_pos hy, hy, live]
    · rw [if_neg hy]
  store := rfl
  inUse := inUse

/-- The deed has the answer, and comes to the entry and the host variables. -/
def Does (d : Deed) (s : Session) (id : EntryId) (r : Answer × Entry × Store) : Prop :=
  d.answer s = r.1 ∧ s.Puts id r.2.1 r.2.2 (d.run s)

theorem does_of_run {ε α : Type} {m : Action ε α} {outcome : Attempt ε α} {st : Store}
    (told : Attempt ε α → Answer) (answer : d.answer s = told (m.run s).1)
    (run : d.run s = (m.run s).2) (hm : m.run s = (outcome, s')) (puts : s.Puts id e st s') :
    Does d s id (told outcome, e, st) := by
  rw [hm] at answer run
  exact ⟨answer, run ▸ puts⟩

section Writes

variable (h : s.table.Sound) (live : s.table.get? id = some e)

include h live

theorem does_number (x : Double) : Does (.write (.number id x)) s id
    (.written (.ok (e.writeNumber x s.store).1), (e.writeNumber x s.store).2) := by
  have hrun := run_ask_answered (ε := Empty) (r := .writeNumber id x)
    (Request.answer_onEntry live s.store (Entry.writeNumber x))
  exact does_of_run .written rfl rfl hrun
    (puts_set h live (Entry.revalued_writeNumber x e s.store).shape _)

theorem does_text (text : String) : Does (.write (.text id text)) s id
    (.written (.ok (e.writeText text s.store).1), (e.writeText text s.store).2) :=
  does_of_run .written rfl rfl (run_writeText live text)
    (puts_set h live (Entry.revalued_writeText text e s.store).shape _)

theorem does_scalar (value : Scalar) : Does (.write (.scalar id value)) s id
    (.done (.ok (e.assign value s.store).1), (e.assign value s.store).2) := by
  have hrun := run_ask_answered (ε := Empty) (r := .assign id value)
    (Table.tryOn_of_live live s.store (Entry.assign value))
  exact does_of_run .done rfl rfl hrun
    (puts_set h live (Entry.revalued_assign value e s.store).shape _)

theorem does_copy {source : EntryId} {es : Entry} (lives : s.table.get? source = some es) :
    Does (.write (.copy id source)) s id
      (.done (.ok (es.copyFrom e s.store).1), (es.copyFrom e s.store).2) := by
  have hanswer : ∃ t, (Request.copy id source).answer s.table s.store =
      .ok ((es.copyFrom e s.store).1, t, (es.copyFrom e s.store).2.2) ∧
      s.Puts id (es.copyFrom e s.store).2.1 (es.copyFrom e s.store).2.2
        { s with table := t, store := (es.copyFrom e s.store).2.2 } := by
    have hsnapshot : s.table.snapshot? s.store source = .ok (es.snapshot s.store) := by
      unfold Table.snapshot?
      rw [Table.entry_eq_ok.mpr lives]
      rfl
    show ∃ t, s.table.copy s.store id source = _ ∧ _
    unfold Table.copy Entry.copyFrom
    rw [hsnapshot]
    cases es.snapshot s.store with
    | none => exact ⟨s.table, rfl, puts_of_entries s live h (fun _ => rfl) rfl⟩
    | some value =>
      exact ⟨_, Table.tryOn_of_live live s.store (Entry.assign value),
        puts_set h live (Entry.revalued_assign value e s.store).shape _⟩
  obtain ⟨t, hanswer, hputs⟩ := hanswer
  exact does_of_run .done rfl rfl (run_ask_answered (ε := Empty) hanswer) hputs

theorem does_copyLive {source : EntryId} {es : Entry} (lives : s.table.get? source = some es) :
    Does (.write (.copyLive id source)) s id
      (.done (.ok (es.copyFrom e s.store).1), (es.copyFrom e s.store).2) := by
  have hcopy : s.table.copyLive s.store id source = .ok ((es.copyFrom e s.store).1,
      s.table.set id (es.copyFrom e s.store).2.1, (es.copyFrom e s.store).2.2) := by
    unfold Table.copyLive
    rw [Table.entry_eq_ok.mpr lives]
    exact Table.tryOn_of_live live s.store (Entry.copyFrom es)
  constructor
  · show Answer.done (.ofFault ((s.table.copyLive s.store id source).map Prod.fst)) = _
    rw [hcopy]
    rfl
  · show s.Puts id _ _ ((Operation.copyLive id source).run s)
    simp only [Operation.run, hcopy]
    exact puts_set h live (Entry.revalued_copyFrom es e s.store).shape _

theorem does_host (type : HostType) (v : VariableId) (x : type.Carrier) :
    Does (.write (.host type v x)) s id (.nothing, e, s.store.write type v x) :=
  ⟨rfl, puts_of_entries { s with store := s.store.write type v x } live h (fun _ => rfl) rfl⟩

variable {text left right : String} (split : splitFirst? '=' text = some (left, right))
  (found : s.table.lookupPath? scope (trim left) = .ok (some id))

include split found

theorem does_assignment (scalar : e.isScalar = true) :
    Does (.write (.assignment scope text)) s id
      (.assigned ((Attempt.ofError (e.writeText (trim right) s.store).1).mapError .entry),
        (e.writeText (trim right) s.store).2) :=
  does_of_run .assigned rfl rfl (run_assign_found split found live scalar)
    (puts_set h live (Entry.revalued_writeText (trim right) e s.store).shape _)

theorem does_assignment_refused (scalar : e.isScalar = false) :
    Does (.write (.assignment scope text)) s id
      (.assigned (.error (.error (.notAssignable (trim left)))), e, s.store) := by
  have hrun : (assign scope text).run s = (.error (.error (.notAssignable (trim left))), s) := by
    unfold assign
    simp only [split]
    refine (Action.bind_ok _ (run_lookupPath found)).trans ?_
    refine (Action.bind_ok _ (run_liveEntry live)).trans ?_
    simp only [scalar]
    rfl
  exact does_of_run .assigned rfl rfl hrun (puts_of_entries s live h (fun _ => rfl) rfl)

end Writes

section Calls

variable {fid : EntryId} {ef : Entry} {path : String} {literals : List String}
  {values : List Scalar} {g : Function} {name : String} {ps : List Param}
  {f : Args ps → StateM Store (Except CallError Scalar)}

/-- The call of a function that was there before changes no entry, however it ends. -/
theorem Later.does_call (h : s₀.Later s) (h₀ : s₀.table.Sound) (live : s.table.get? id = some e)
    (known : s₀.table.contains scope = true)
    (valued : List.Forall₂ (fun text v => literalValue? text = some v) literals values)
    (found : s₀.table.lookupPath? scope path = .ok (some fid))
    (livef : s₀.table.get? fid = some ef) (function : ef.function? = some g)
    {r : Except CallError Scalar} {st : Store}
    (hcall : ∀ ids t ef', t.Sound → t.Temps ids values → t.get? fid = some ef' →
      ef'.function? = some g →
      Yields { s with table := t } ((invoke fid ids).run { s with table := t }) r st) :
    Does (.call scope path literals) s id (.shown (.ofError (shownResult r)), e, st) := by
  obtain ⟨ef', livef', hshape⟩ := h.live livef
  have function' : ef'.function? = some g :=
    (Table.function?_of_storage (Entry.storage_eq_of_shape hshape)).trans function
  obtain ⟨t, c, hrun, held⟩ := run_callPath_values h.sound
    ((h.lookupPath? h₀ known path).trans found) livef' (isFunction_of_function? function') valued
    fun ids t held temps => hcall ids t ef' held.sound temps (held.live livef') function'
  exact does_of_run .shown rfl rfl hrun
    (puts_of_entries { s with table := t, store := st, channel := c } live held.sound
      (fun y => held.same y List.not_mem_nil) rfl)

theorem Later.ready (h : s₀.Later s) (ready : g.Ready s₀) : g.Ready s :=
  fun r hr => h.inUse ▸ ready r hr

theorem yields_of_ready {ids : List EntryId} (h : s.table.Sound)
    (livef : s.table.get? fid = some ef) (function : ef.function? = some g)
    (hosts : g.Hosts name ps (answering f)) (blind : ∀ vs, f vs = f (Args.blank ps vs))
    (ready : g.Ready s) (temps : s.table.Temps ids values) :
    Yields s ((invoke fid ids).run s) (onValues name f values s.store).1
      (onValues name f values s.store).2 := by
  have called : HostCall s name ps (answering f) ids ((invoke fid ids).run s) :=
    hostCall_invokeWithin h livef function hosts ready temps.live 9999
  exact called.yields temps blind

end Calls

/-! ## The step that a deed comes to -/

/-- In a session in which only values have changed, and in all that are like it at the instance, the
deed comes to one step on an entry under the scope, local to the fields of the object. -/
def Acts (s₀ : Session) (i : Instance) (d : Deed) (s : Session) : Prop :=
  ∃ id e g, s₀.table.Under i.scope id ∧ s.table.get? id = some e ∧
    e.LocalStep (· ∈ i.object.fields) g ∧ ∀ s', s₀.AlikeAt i s s' → Does d s' id (g s'.store)

theorem acts_of_does {g : Store → Answer × Entry × Store} (under : s₀.table.Under i.scope id)
    (live : s.table.get? id = some e) (step : e.LocalStep (· ∈ i.object.fields) g)
    (does : ∀ s', s₀.AlikeAt i s s' → s'.table.get? id = some e → Does d s' id (g s'.store)) :
    s₀.Acts i d s :=
  ⟨id, e, g, under, live, step, fun s' alike => does s' alike ((alike.entries id under).trans live)⟩

/-- An assignment comes to a write of the text, or to nothing where the path leads to no value. -/
theorem acts_assignment (hi : s₀.Placed i) (h : s₀.Later s) {text left right : String}
    (known : s₀.table.contains scope = true) (split : splitFirst? '=' text = some (left, right))
    (found : s₀.table.lookupPath? scope (trim left) = .ok (some id))
    (under : s₀.table.Under i.scope id) : s₀.Acts i (.write (.assignment scope text)) s := by
  obtain ⟨e, live, linked⟩ := hi.later h under
  have found' {s' : Session} (alike : s₀.AlikeAt i s s') :
      s'.table.lookupPath? scope (trim left) = .ok (some id) :=
    (alike.later'.lookupPath? hi.sound known _).trans found
  cases scalar : e.isScalar with
  | true =>
    refine acts_of_does under live ((Entry.localStep_writeText linked (trim right)).map fun r =>
      Answer.assigned ((Attempt.ofError r).mapError .entry)) fun s' alike live' => ?_
    exact does_assignment alike.later'.sound live' split (found' alike) scalar
  | false =>
    refine acts_of_does under live (.ownValue
      (Answer.assigned (.error (.error (.notAssignable (trim left))))) e rfl) fun s' alike live' => ?_
    exact does_assignment_refused alike.later'.sound live' split (found' alike) scalar

/-- A call changes no entry: it comes to a step on the scope. What it does to the fields the host
function alone decides, unless the call is refused because its receiver is in use. -/
theorem acts_call (hi : s₀.Placed i) (h : s₀.Later s) {fid : EntryId} {path : String}
    {literals : List String} {values : List Scalar} {ef : Entry} {g : Function} {name : String}
    {ps : List Param} {f : Args ps → StateM Store (Except CallError Scalar)}
    (known : s₀.table.contains scope = true)
    (valued : List.Forall₂ (fun text v => literalValue? text = some v) literals values)
    (found : s₀.table.lookupPath? scope path = .ok (some fid))
    (livef : s₀.table.get? fid = some ef) (function : ef.function? = some g)
    (hosts : g.Hosts name ps (answering f)) (works : LocalFunction (· ∈ i.object.fields) f) :
    s₀.Acts i (.call scope path literals) s := by
  obtain ⟨e, live, _⟩ := hi.later h .self
  by_cases ready : g.Ready s₀
  · refine acts_of_does .self live ((localStep_onValues works name values e).map fun r =>
      Answer.shown (.ofError (shownResult r))) fun s' alike live' => ?_
    refine alike.later'.does_call hi.sound live' known valued found livef function ?_
    intro ids t ef' ht temps livef' function'
    exact yields_of_ready (s := { s' with table := t }) ht livef' function' hosts works.blind
      (alike.later'.ready ready) temps
  · obtain ⟨r, hr, inUse⟩ : ∃ r, g.receiver = some r ∧ r.object.id ∈ s₀.inUse := by
      simpa [Function.Ready] using ready
    refine acts_of_does .self live (.ownValue
      (Answer.shown (.ofError (shownResult (.error (.reentrant r.member))))) e rfl)
      fun s' alike live' => ?_
    refine alike.later'.does_call hi.sound live' known valued found livef function ?_
    intro ids t ef' _ _ livef' function'
    rw [← alike.later'.inUse] at inUse
    exact .error
      (invokeWithin_of_inUse (s := { s' with table := t }) livef' function' hr inUse 9999 ids)

/-- Whatever has been written since, a deed that is addressed to an instance comes to such a
step. -/
theorem Addressed.acts (hi : s₀.Placed i) (hd : s₀.Addressed i d) (h : s₀.Later s) :
    s₀.Acts i d s := by
  cases hd with
  | call known valued found livef function hosts works =>
    exact acts_call hi h known valued found livef function hosts works
  | assignment known split found under => exact acts_assignment hi h known split found under
  | number under x =>
    obtain ⟨e, live, linked⟩ := hi.later h under
    refine acts_of_does under live
      ((Entry.localStep_writeNumber linked x).map fun r => Answer.written (.ok r)) ?_
    exact fun s' alike live' => does_number alike.later'.sound live' x
  | text under text =>
    obtain ⟨e, live, linked⟩ := hi.later h under
    refine acts_of_does under live
      ((Entry.localStep_writeText linked text).map fun r => Answer.written (.ok r)) ?_
    exact fun s' alike live' => does_text alike.later'.sound live' text
  | scalar under value =>
    obtain ⟨e, live, linked⟩ := hi.later h under
    refine acts_of_does under live
      ((Entry.localStep_assign linked value).map fun r => Answer.done (.ok r)) ?_
    exact fun s' alike live' => does_scalar alike.later'.sound live' value
  | @copy _ source under reads =>
    obtain ⟨e, live, linked⟩ := hi.later h under
    obtain ⟨es, lives, linkeds⟩ := hi.later h reads
    refine acts_of_does under live
      ((Entry.localStep_copyFrom linkeds linked).map fun r => Answer.done (.ok r)) ?_
    exact fun s' alike live' =>
      does_copy alike.later'.sound live' ((alike.entries source reads).trans lives)
  | @copyLive _ source under reads =>
    obtain ⟨e, live, linked⟩ := hi.later h under
    obtain ⟨es, lives, linkeds⟩ := hi.later h reads
    refine acts_of_does under live
      ((Entry.localStep_copyFrom linkeds linked).map fun r => Answer.done (.ok r)) ?_
    exact fun s' alike live' =>
      does_copyLive alike.later'.sound live' ((alike.entries source reads).trans lives)
  | @host type v x own =>
    obtain ⟨e, live, _⟩ := hi.later h .self
    refine acts_of_does .self live (.through Answer.nothing (Target.local_var type own) x) ?_
    exact fun s' alike live' => does_host alike.later'.sound live' type v x

end Session
end Settings
