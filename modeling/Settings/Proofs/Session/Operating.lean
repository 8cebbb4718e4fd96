import Settings.Demo
import Settings.Proofs.Session.Instances

/-!
# Steps made of operations

What a host does in many steps, such as making an instance of a type or building the tree of the
demonstration, is done by operations one after the other, however it ends (`Action.Operates`). So
what is known of every session that a host can come to is known of the session that such a step
leaves behind. Steps that are put together from steps made of operations are made of operations
themselves.
-/

set_option autoImplicit false

namespace Settings

theorem Session.after_append (s : Session) (ops ops' : List Operation) :
    s.after (ops ++ ops') = (s.after ops).after ops' := List.foldl_append

namespace Action

variable {ε δ α β : Type} {m : Action ε α}

/-- The session that the step leaves behind is one that some operations lead to. -/
def Operates (m : Action ε α) : Prop := ∀ s, ∃ ops, (m.run s).2 = s.after ops

/-! ## Putting steps together -/

theorem Operates.of_operation (op : Operation) (h : ∀ s, (m.run s).2 = op.run s) : m.Operates :=
  fun s => ⟨[op], h s⟩

theorem Operates.of_look (h : ∀ s, (m.run s).2 = s) : m.Operates := fun s => ⟨[], h s⟩

theorem Operates.pure (a : α) : (Pure.pure a : Action ε α).Operates := .of_look fun _ => rfl

theorem Operates.fail (e : ε) : (Action.fail e : Action ε α).Operates := .of_look fun _ => rfl

theorem Operates.orFail (r : Except ε α) : (Action.orFail r).Operates := .of_look fun _ => rfl

theorem Operates.bind {f : α → Action ε β} (h : m.Operates) (hf : ∀ a, (f a).Operates) :
    (m >>= f).Operates := by
  intro s
  obtain ⟨ops, hops⟩ := h s
  rcases hr : m.run s with ⟨outcome, s'⟩
  rw [hr] at hops
  obtain rfl : s' = s.after ops := hops
  cases outcome with
  | ok a =>
    obtain ⟨ops', hops'⟩ := hf a (s.after ops)
    exact ⟨ops ++ ops', by rw [bind_ok f hr, hops', Session.after_append]⟩
  | error x => exact ⟨ops, by rw [bind_error f hr]⟩

theorem Operates.discard (h : m.Operates) : (Functor.discard m : Action ε Unit).Operates :=
  h.bind fun _ => .pure ()

theorem Operates.mapError (g : ε → δ) (h : m.Operates) : (m.mapError g).Operates := fun s => h s

theorem Operates.settle (h : m.Operates) : (m.settle : Action δ (Except ε α)).Operates :=
  fun s => h s

end Action

namespace Session

open Settings.Action

variable {ε : Type}

/-! ## Steps of a session -/

theorem operates_ask (r : Request) : (ask r : Action ε r.Reply).Operates :=
  .of_operation (.ask r) fun s => by
    show _ = ((ask r : Action Empty r.Reply).run s).2
    rw [run_ask, run_ask]
    cases r.answer s.table s.store <;> rfl

theorem operates_define (scope : EntryId) (name : String) (f : Function) (description : String)
    (builtin : Bool) : (define scope name f description builtin).Operates :=
  .of_operation (.define scope name f description builtin) fun _ => rfl

theorem operates_register (scope : EntryId) (name description : String) (content : Content) :
    (register scope name description content).Operates :=
  (operates_ask _).bind fun reply => .orFail reply

theorem operates_newVariable (value : HostValue) :
    (newVariable value : Action ε VariableId).Operates :=
  .of_operation (.change fun st => (st.add value).2) fun _ => rfl

theorem operates_newObject (type : ObjectType) : (newObject type : Action ε Object).Operates :=
  .of_operation (.newObject type) fun _ => rfl

theorem operates_editAll (id : EntryId) :
    ∀ changes, (editAll id changes : Action ε Unit).Operates
  | [] => .pure ()
  | change :: changes => (operates_ask (.edit id change)).bind fun _ => operates_editAll id changes

/-! ## Instances -/

theorem operates_registerStep (scope : EntryId) (step : SetupStep) :
    (registerStep scope step).Operates := by
  have finish (id : EntryId) : (editAll id step.changes >>= fun _ => pure id :
      Action TreeError EntryId).Operates := (operates_editAll id _).bind fun _ => .pure id
  unfold registerStep
  split
  · exact (operates_register _ _ _ _).bind finish
  · exact (operates_define _ _ _ _ _).bind finish

theorem operates_setUp (scope : EntryId) (done : List EntryId) (steps : List SetupStep) :
    (setUp scope done steps).Operates := by
  induction steps generalizing done with
  | nil => exact .pure ()
  | cons step steps ih => exact (operates_registerStep _ step).bind fun id => ih _

theorem operates_defineMembers (scope : EntryId) (o : Object) (members : List (Member × String)) :
    (defineMembers scope o members).Operates := by
  induction members with
  | nil => exact .pure ()
  | cons m members ih => exact (operates_define _ _ _ _ _).discard.bind fun _ => ih

/-- Making an instance is done by operations, whether it succeeds or is taken back. -/
theorem operates_instantiate (c : Catalogue) (type : String) (parent : EntryId)
    (name description : String) : (instantiate c type parent name description).Operates := by
  unfold instantiate
  cases c.find? type with
  | none => exact .fail _
  | some info =>
    refine (operates_newObject info.type).bind fun object => ?_
    refine ((operates_register _ _ _ _).mapError _).bind fun scope => ?_
    have populate := (operates_setUp scope [] (info.type.setup object)).bind fun _ =>
      operates_defineMembers scope object info.members
    refine populate.settle.bind fun outcome => ?_
    cases outcome with
    | ok => exact .pure _
    | error e => exact (operates_ask (.remove scope)).discard.bind fun _ => .fail _

/-! ## The demonstration -/

theorem operates_defineAll (scope : EntryId)
    (functions : List (String × Function × String × Bool)) :
    (Demo.defineAll scope functions).Operates := by
  induction functions with
  | nil => exact .pure ()
  | cons f functions ih => exact (operates_define _ _ _ _ _).discard.bind fun _ => ih

theorem operates_build : Demo.build.Operates := by
  unfold Demo.build
  refine (Operates.orFail _).bind fun catalogue => ?_
  refine (operates_newVariable _).bind fun output => ?_
  refine ((operates_register _ _ _ _).mapError _).bind fun id => ?_
  refine (operates_ask _).bind fun _ => ?_
  refine (operates_newVariable _).bind fun seed => ?_
  refine ((operates_register _ _ _ _).mapError _).bind fun id => ?_
  refine (operates_ask _).bind fun _ => ?_
  refine ((operates_register _ _ _ _).mapError _).bind fun world => ?_
  refine (operates_instantiate _ _ _ _ _).bind fun population => ?_
  exact ((operates_defineAll _ _).mapError _).bind fun _ => .pure _

end Session

/-- The demonstration is one of the sessions that a host can come to. -/
theorem Demo.start_reachable : Demo.start.2.table.Reachable := by
  obtain ⟨ops, hops⟩ := Session.operates_build (.ofTable .new)
  exact ⟨Table.defaultRootName, "", ops, congrArg Session.table hops.symm⟩

end Settings
