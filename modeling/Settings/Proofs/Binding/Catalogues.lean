import Settings.Proofs.Session.Receivers
import Settings.Stock.Types

/-!
# Catalogues and the members of their types

A host fills its catalogue by one `Cataloguing` after the other, of which any may fail. Every type is
then found under its own name, its members have different names, and all of them are written for
objects of the type (`Catalogue.Consistent`). What is in a catalogue stays in it: a type is never
made for other objects than before, and only gains members (`Catalogue.Extends`).

The objects that a catalogue makes under a name are of the type that it has under that name. So a
member of the type runs on each of them, at whatever time the object was made and the member was
added. That no call meets an object of another type follows for hosts that bind members to such
objects only, as instances do.
-/

set_option autoImplicit false

namespace Settings

/-- One thing that a host does to its catalogue. -/
inductive Cataloguing where
  | register (name description : String) (type : ObjectType)
  | addMember (type name : String) (method : Method) (description : String)

namespace Cataloguing

def apply : Cataloguing → Catalogue → Except BindError Catalogue
  | register name description type, c => c.register name description type
  | addMember type name m description, c => c.addMember type name m description

/-- The catalogue afterwards, which is the one before if it failed. -/
def run (op : Cataloguing) (c : Catalogue) : Catalogue :=
  match op.apply c with
  | .ok c' => c'
  | .error _ => c

end Cataloguing

def TypeInfo.withMember (info : TypeInfo) (m : Member) (description : String) : TypeInfo :=
  { info with members := info.members ++ [(m, description)] }

namespace Catalogue

def after (c : Catalogue) (ops : List Cataloguing) : Catalogue := ops.foldl (fun c op => op.run c) c

structure Consistent (c : Catalogue) : Prop where
  stored : ∀ info ∈ c.types, c.find? info.name = some info
  names : ∀ info ∈ c.types, (info.members.map fun m => m.1.name).Nodup
  tags : ∀ info ∈ c.types, ∀ m ∈ info.members, m.1.tag = info.type.tag

/-- The types are still there, for the same objects, and have the members that they had. -/
def Extends (c c' : Catalogue) : Prop :=
  ∀ type info, c.find? type = some info → ∃ info', c'.find? type = some info' ∧
    info'.type = info.type ∧ info.members <+: info'.members

variable {c c' c'' : Catalogue} {type : String} {info : TypeInfo}

theorem mem_of_find? (h : c.find? type = some info) : info ∈ c.types :=
  List.mem_of_find?_eq_some h

theorem Extends.refl (c : Catalogue) : c.Extends c := fun _ info h => ⟨info, h, rfl, List.prefix_rfl⟩

theorem Extends.trans (h : c.Extends c') (h' : c'.Extends c'') : c.Extends c'' := by
  intro type info hc
  obtain ⟨info', hc', htype, hmembers⟩ := h type info hc
  obtain ⟨info'', hc'', htype', hmembers'⟩ := h' type info' hc'
  exact ⟨info'', hc'', htype'.trans htype, hmembers.trans hmembers'⟩

/-! ## What one step does -/

theorem register_eq_ok {name description : String} {type : ObjectType}
    (h : c.register name description type = .ok c') :
    c.find? name = none ∧ c' = ⟨c.types ++ [⟨name, description, type, []⟩]⟩ := by
  unfold register contains at h
  split at h
  · exact absurd h (by simp)
  · rename_i hfree
    exact ⟨Option.not_isSome_iff_eq_none.mp hfree, (Except.ok.inj h).symm⟩

/-- The types once one of them is another. -/
def replace (c : Catalogue) (type : String) (info : TypeInfo) : Catalogue :=
  ⟨c.types.map fun x => if x.name = type then info else x⟩

theorem addMember_eq_ok {name description : String} {m : Method}
    (h : c.addMember type name m description = .ok c') :
    ∃ info member, c.find? type = some info ∧ (∀ x ∈ info.members, x.1.name ≠ name) ∧
      Member.bind info.type.tag name m = .ok member ∧
      c' = c.replace type (info.withMember member description) := by
  unfold addMember at h
  cases hc : c.find? type with
  | none =>
    rw [hc] at h
    exact absurd h (by simp [throw, throwThe, MonadExceptOf.throw])
  | some info =>
    simp only [hc] at h
    split at h
    · exact absurd h (by simp [throw, throwThe, MonadExceptOf.throw, bind, Except.bind])
    · rename_i hnew
      cases hm : Member.bind info.type.tag name m with
      | error x =>
        rw [hm] at h
        exact absurd h (by simp [bind, Except.bind])
      | ok member =>
        rw [hm] at h
        refine ⟨info, member, rfl, ?_, hm, (Except.ok.inj h).symm⟩
        simpa using hnew

theorem find?_replace (hname : info.name = type) (other : String) :
    (c.replace type info).find? other =
      if other = type then (c.find? other).map fun _ => info else c.find? other := by
  have same : ∀ x : TypeInfo, (if x.name = type then info else x).name = x.name := by
    intro x
    split
    · rename_i hx
      rw [hname, hx]
    · rfl
  unfold find? replace
  rw [List.find?_map]
  simp only [Function.comp_def, same]
  cases hfound : c.types.find? fun x => x.name = other with
  | none => simp
  | some x =>
    have hx : x.name = other := by simpa using List.find?_some hfound
    simp only [Option.map_some, hx]
    split <;> rfl

theorem name_withMember (h : c.find? type = some info) (m : Member) (description : String) :
    (info.withMember m description).name = type := by
  rw [← find?_name h]
  rfl

theorem find?_append_one (x : TypeInfo) (other : String) :
    (⟨c.types ++ [x]⟩ : Catalogue).find? other =
      (c.find? other).or (if x.name = other then some x else none) := by
  unfold find?
  rw [List.find?_append, List.find?_singleton]
  simp

/-- A step adds a type, or a member to a type, or does nothing. -/
inductive Changed (c : Catalogue) : Cataloguing → Catalogue → Prop
  | same (op : Cataloguing) : Changed c op c
  | registered {name : String} (description : String) (type : ObjectType)
      (hfree : c.find? name = none) :
      Changed c (.register name description type) ⟨c.types ++ [⟨name, description, type, []⟩]⟩
  | gained {type name : String} {m : Method} (description : String) {info : TypeInfo}
      {member : Member} (hc : c.find? type = some info)
      (hnew : ∀ x ∈ info.members, x.1.name ≠ name)
      (hm : Member.bind info.type.tag name m = .ok member) :
      Changed c (.addMember type name m description)
        (c.replace type (info.withMember member description))

theorem changed_run (op : Cataloguing) (c : Catalogue) : c.Changed op (op.run c) := by
  unfold Cataloguing.run
  cases hop : op.apply c with
  | error x => exact .same op
  | ok c' =>
    cases op with
    | register name description type =>
      obtain ⟨hfree, rfl⟩ := register_eq_ok hop
      exact .registered description type hfree
    | addMember type name m description =>
      obtain ⟨info, member, hc, hnew, hm, rfl⟩ := addMember_eq_ok hop
      exact .gained description hc hnew hm

theorem mem_replace {x : TypeInfo} (hx : x ∈ (c.replace type info).types) :
    x = info ∨ x ∈ c.types := by
  obtain ⟨y, hy, rfl⟩ := List.mem_map.mp hx
  split
  · exact Or.inl rfl
  · exact Or.inr hy

theorem Consistent.run (h : c.Consistent) (op : Cataloguing) : (op.run c).Consistent := by
  have hchanged := changed_run op c
  generalize op.run c = c' at hchanged
  cases hchanged with
  | same => exact h
  | @registered name description type hfree =>
    constructor
    case stored =>
      intro x hx
      rw [find?_append_one]
      rcases List.mem_append.mp hx with hx | hx
      · rw [h.stored x hx]
        rfl
      · obtain rfl := List.mem_singleton.mp hx
        rw [hfree]
        exact if_pos rfl
    case names =>
      refine List.forall_mem_append.mpr ⟨h.names, List.forall_mem_singleton.mpr ?_⟩
      exact List.nodup_nil
    case tags =>
      refine List.forall_mem_append.mpr ⟨h.tags, List.forall_mem_singleton.mpr ?_⟩
      simp
  | @gained type name m description info member hc hnew hm =>
    have hmem := mem_of_find? hc
    have hname := name_withMember hc member description
    constructor
    case stored =>
      intro x hx
      rw [find?_replace hname]
      -- the type is the one that has gained the member, or another
      obtain ⟨y, hy, rfl⟩ := List.mem_map.mp hx
      split
      · rw [hname, hc]
        rfl
      · exact h.stored y hy
    case names =>
      intro x hx
      rcases mem_replace hx with rfl | hx
      · show ((info.members ++ [(member, description)]).map fun m => m.1.name).Nodup
        rw [List.map_append]
        refine List.nodup_append.mpr ⟨h.names info hmem, List.nodup_singleton _, ?_⟩
        intro other hother mine hmine
        obtain ⟨z, hz, rfl⟩ := List.mem_map.mp hother
        obtain rfl : mine = name := by
          rw [List.mem_singleton.mp hmine, Member.bind_eq_ok hm]
        exact hnew z hz
      · exact h.names x hx
    case tags =>
      intro x hx
      rcases mem_replace hx with rfl | hx
      · refine List.forall_mem_append.mpr ⟨h.tags info hmem, List.forall_mem_singleton.mpr ?_⟩
        rw [Member.bind_eq_ok hm]
        rfl
      · exact h.tags x hx

theorem extends_run (op : Cataloguing) (c : Catalogue) : c.Extends (op.run c) := by
  have hchanged := changed_run op c
  generalize op.run c = c' at hchanged
  cases hchanged with
  | same => exact .refl c
  | registered description type hfree =>
    intro other x hx
    refine ⟨x, ?_, rfl, List.prefix_rfl⟩
    rw [find?_append_one, hx]
    rfl
  | @gained type name m description info member hc hnew hm =>
    intro other x hx
    have hname := name_withMember hc member description
    rw [find?_replace hname]
    split
    · rename_i hother
      obtain rfl : info = x := Option.some.inj (hc.symm.trans (hother ▸ hx))
      exact ⟨info.withMember member description, by rw [hx]; rfl, rfl, List.prefix_append _ _⟩
    · exact ⟨x, hx, rfl, List.prefix_rfl⟩

/-! ## Any number of steps -/

theorem consistent_empty : empty.Consistent := ⟨by simp [empty], by simp [empty], by simp [empty]⟩

theorem Consistent.after (h : c.Consistent) (ops : List Cataloguing) :
    (c.after ops).Consistent := by
  induction ops generalizing c with
  | nil => exact h
  | cons op ops ih => exact ih (h.run op)

theorem extends_after (c : Catalogue) (ops : List Cataloguing) : c.Extends (c.after ops) := by
  induction ops generalizing c with
  | nil => exact .refl c
  | cons op ops ih => exact (extends_run op c).trans (ih (op.run c))

end Catalogue

/-! ## Objects of a type -/

namespace Session

variable {s s' : Session} {c : Catalogue} {type : String}

theorem tag_of_newObject {ε : Type} {type : ObjectType} {o : Object}
    (h : (newObject type : Action ε Object).run s = (.ok o, s')) : o.tag = type.tag := by
  have hrun : (newObject type : Action ε Object).run s =
      (.ok ⟨⟨s.objectCount⟩, type.tag, (s.store.addAll type.initial).1⟩,
        { s with store := (s.store.addAll type.initial).2,
                 objectCount := s.objectCount + 1 }) := rfl
  rw [hrun] at h
  obtain rfl := Except.ok.inj (congrArg Prod.fst h)
  rfl

theorem tag_of_make {o : Object} (h : (make c type).run s = (.ok o, s')) :
    ∃ info, c.find? type = some info ∧ o.tag = info.type.tag := by
  unfold make at h
  cases hc : c.find? type with
  | none =>
    rw [hc] at h
    simp only [Action.run_fail] at h
    cases h
  | some info =>
    rw [hc] at h
    exact ⟨info, rfl, tag_of_newObject h⟩

theorem tag_of_instantiate {parent : EntryId} {name description : String} {i : Instance}
    (h : (instantiate c type parent name description).run s = (.ok i, s')) :
    ∃ info, c.find? type = some info ∧ i.object.tag = info.type.tag := by
  obtain ⟨info, _, _, hc, hobject, _, _⟩ := instantiate_eq_ok h
  exact ⟨info, hc, tag_of_newObject hobject⟩

end Session

/-- The catalogue has made the object under the name of the type, with or without a place in a
table. -/
inductive Catalogue.Makes (c : Catalogue) (type : String) : Object → Prop
  | made {s s' : Session} {o : Object} (h : (Session.make c type).run s = (.ok o, s')) :
      Makes c type o
  | instantiated {s s' : Session} {parent : EntryId} {name description : String} {i : Instance}
      (h : (Session.instantiate c type parent name description).run s = (.ok i, s')) :
      Makes c type i.object

theorem Catalogue.Makes.tag {c : Catalogue} {type : String} {o : Object} (h : c.Makes type o) :
    ∃ info, c.find? type = some info ∧ o.tag = info.type.tag := by
  cases h with
  | made h => exact Session.tag_of_make h
  | instantiated h => exact Session.tag_of_instantiate h

/-! ## Hosts that bind members to objects of their types -/

/-- On objects of its type the method registers wired functions only. -/
def Method.Wired (m : Method) : Prop :=
  ∀ name o args, o.tag = m.receiver → (m.call name o args).Wired

theorem Method.wired_fixed (receiver : TypeTag) (params : List Param)
    (f : Object → Args params → StateM Store (Except CallError Returned)) :
    (Method.fixed receiver params f).Wired :=
  fun name o args _ => Body.wired_typed name (f o) args

def Cataloguing.Wired : Cataloguing → Prop
  | .register _ _ type => ∀ o, o.tag = type.tag → ∀ step ∈ type.setup o, ∀ f builtin,
      step.registration = .function f builtin → f.Wired
  | .addMember _ _ m _ => m.Wired

theorem Member.wired_of_bind {tag : TypeTag} {name : String} {method : Method} {m : Member}
    (h : Member.bind tag name method = .ok m) (hw : method.Wired) : m.Wired := by
  have hreceiver : method.receiver = tag := by
    by_contra hne
    unfold Member.bind at h
    rw [if_neg hne] at h
    cases h
  obtain rfl := Member.bind_eq_ok h
  exact fun o args ho => hw name o args (ho.trans hreceiver.symm)

namespace Catalogue

variable {c : Catalogue}

def Wired (c : Catalogue) : Prop := ∀ info ∈ c.types, info.Wired

theorem Wired.run (h : c.Wired) {op : Cataloguing} (hop : op.Wired) : (op.run c).Wired := by
  have hchanged := changed_run op c
  generalize op.run c = c' at hchanged
  cases hchanged with
  | same => exact h
  | registered description type hfree =>
    refine List.forall_mem_append.mpr ⟨h, List.forall_mem_singleton.mpr ?_⟩
    exact ⟨hop, by simp, by simp⟩
  | @gained type name m description info member hc hnew hm =>
    intro x hx
    rcases mem_replace hx with rfl | hx
    · have hinfo := h info (mem_of_find? hc)
      have htag : member.tag = info.type.tag := by rw [Member.bind_eq_ok hm]
      exact ⟨hinfo.setup,
        List.forall_mem_append.mpr ⟨hinfo.tags, List.forall_mem_singleton.mpr htag⟩,
        List.forall_mem_append.mpr ⟨hinfo.members,
          List.forall_mem_singleton.mpr (Member.wired_of_bind hm hop)⟩⟩
    · exact h x hx

theorem wired_after (ops : List Cataloguing) (hops : ∀ op ∈ ops, op.Wired) (h : c.Wired) :
    (c.after ops).Wired := by
  induction ops generalizing c with
  | nil => exact h
  | cons op ops ih =>
    obtain ⟨hop, hops⟩ := List.forall_mem_cons.mp hops
    exact ih hops (h.run hop)

theorem wired_empty : empty.Wired := by simp [Wired, empty]

end Catalogue

/-- The sessions of hosts that bind a member only to an object of the type that it is written for.
Their catalogues see to this for the members of instances. -/
inductive Session.Hosted : Session → Prop
  | fresh (name description : String) : Session.Hosted (Session.fresh name description)
  | operation {s : Session} {op : Operation} (h : s.Hosted) (hop : op.Wired) :
      Session.Hosted (op.run s)
  | instantiated {s : Session} (h : s.Hosted) {ops : List Cataloguing}
      (hops : ∀ op ∈ ops, op.Wired) (type : String) (parent : EntryId)
      (name description : String) : Session.Hosted
        ((Session.instantiate (Catalogue.empty.after ops) type parent name description).run s).2

theorem Session.Hosted.wired {s : Session} (h : s.Hosted) : s.Wired := by
  induction h with
  | fresh name description =>
    exact ⟨Table.sound_withRoot name description, Table.wired_withRoot name description⟩
  | operation _ hop ih => exact Operation.wired_run hop ih
  | instantiated _ hops type parent name description ih =>
    refine Session.keepsWired_instantiate ?_ parent name description _ ih
    exact fun info hc => Catalogue.wired_after _ hops Catalogue.wired_empty info
      (Catalogue.mem_of_find? hc)

/-! ## Calls of members -/

/-- However a catalogue is filled, its types are consistent and stay, and a step that fails changes
nothing. An object that it has made under a name is of the type that every member has been bound to
that is in the catalogue under this name, then or later. So a call of the member on the object runs
its body, unless the object is in use. And as long as the host too binds members to objects of their
types only, no call at all ends in the fault of a wrong receiver. -/
theorem members_meet_objects_of_their_type (ops more : List Cataloguing) :
    let c := Catalogue.empty.after ops
    let later := c.after more
    c.Consistent ∧ (∀ (op : Cataloguing) x, op.apply c = .error x → op.run c = c) ∧ c.Extends later ∧
      ∀ type o, c.Makes type o → ∃ info, later.find? type = some info ∧
        ∀ m ∈ info.members,
          (∀ body s, Session.withReceiver (some (m.1.receiverOn o)) body s =
            if o.id ∈ s.inUse then (.error (.error (.reentrant m.1.name)), s)
            else ((body { s with inUse := o.id :: s.inUse }).1,
              { (body { s with inUse := o.id :: s.inUse }).2 with
                inUse := (body { s with inUse := o.id :: s.inUse }).2.inUse.erase o.id })) ∧
          ((∀ op ∈ ops ++ more, op.Wired) → ∀ s : Session, s.Hosted → ∀ args name,
            ((Session.callMember m.1 o args).run s).1 ≠ .error (.fault (.wrongReceiver name)) ∧
            ∀ id, ((Session.invoke id args).run s).1 ≠ .error (.fault (.wrongReceiver name))) := by
  intro c later
  have hconsistent : c.Consistent := Catalogue.consistent_empty.after ops
  refine ⟨hconsistent, ?_, Catalogue.extends_after c more, ?_⟩
  · intro op x hop
    unfold Cataloguing.run
    rw [hop]
  intro type o hmakes
  obtain ⟨info, hc, htag⟩ := hmakes.tag
  obtain ⟨info', hc', htype, _⟩ := Catalogue.extends_after c more type info hc
  have hmem := Catalogue.mem_of_find? hc'
  refine ⟨info', hc', fun m hm => ?_⟩
  have hbound : o.tag = m.1.tag := by
    rw [htag, ← htype, (hconsistent.after more).tags info' hmem m hm]
  refine ⟨fun body s => Session.withReceiver_of_tag hbound body s, ?_⟩
  intro hops s hs args name
  have hlater : later.Wired := by
    obtain ⟨hops, hmore⟩ := List.forall_mem_append.mp hops
    exact Catalogue.wired_after more hmore
      (Catalogue.wired_after ops hops Catalogue.wired_empty)
  have calls : ∀ id args (s : Session), s.Wired →
      Session.Meets (Session.invokeWithin Session.callDepthLimit id args s) :=
    fun id args _ hs => Session.meets_invokeWithin _ id args hs
  have hmember := ((hlater info' hmem).members m hm).onObject hbound
  exact ⟨(Session.meets_apply calls hmember args hs.wired).receivers name,
    fun id => (calls id args s hs.wired).receivers name⟩

/-- An instance of a counter and its only member: the two other additions fail, one for its name and
one for its receiver. No call of the member on the counter ends in the fault, whatever it is given
to call. -/
theorem poke_meets_its_counter :
    let counter := Stock.counterType (IntType.clamp .i64 0)
    let ops : List Cataloguing := [.register "C" "" counter,
      .addMember "C" "poke" Stock.Counter.poke "", .addMember "C" "poke" Stock.Counter.get "",
      .addMember "C" "scale" Stock.Gadget.scale ""]
    let c := Catalogue.empty.after ops
    let s := ((Session.instantiate c "C" Table.root "it" "").run (Session.fresh "root" "")).2
    s.Hosted ∧ ∃ o info, c.Makes "C" o ∧ c.find? "C" = some info ∧
      info.members.map (fun m => m.1.name) = ["poke"] ∧
      ∀ m ∈ info.members, ∀ args name,
        ((Session.callMember m.1 o args).run s).1 ≠ .error (.fault (.wrongReceiver name)) := by
  intro counter ops c s
  have hpoke : Stock.Counter.poke.Wired := by
    intro name o args _
    cases args with
    | nil => exact .update _ (Body.wired_finish _)
    | cons f rest => exact .update _ (.invoke f rest fun _ => .done _)
  have hops : ∀ op ∈ ops, op.Wired := by
    simp only [ops, List.forall_mem_cons]
    refine ⟨fun o _ step hstep => absurd hstep (by simp [counter, Stock.counterType]), hpoke, ?_⟩
    exact ⟨Method.wired_fixed _ _ _, Method.wired_fixed _ _ _, by simp⟩
  have hs : s.Hosted := .instantiated (.fresh "root" "") hops "C" Table.root "it" ""
  obtain ⟨o, hmakes⟩ : ∃ o, c.Makes "C" o := by
    have hok : ((Session.instantiate c "C" Table.root "it" "").run
        (Session.fresh "root" "")).1.isOk = true := by decide +kernel
    rcases hrun : (Session.instantiate c "C" Table.root "it" "").run (Session.fresh "root" "")
      with ⟨outcome, s'⟩
    cases outcome with
    | ok i => exact ⟨i.object, .instantiated hrun⟩
    | error x => simp [hrun, Except.isOk, Except.toBool] at hok
  obtain ⟨_, _, _, calls⟩ := members_meet_objects_of_their_type ops []
  obtain ⟨info, hc, members⟩ := calls "C" o hmakes
  have hfound : ∃ info, c.find? "C" = some info ∧
      info.members.map (fun m => m.1.name) = ["poke"] := ⟨_, rfl, rfl⟩
  obtain ⟨info', hc', hnames⟩ := hfound
  obtain rfl : info' = info := Option.some.inj (hc'.symm.trans hc)
  refine ⟨hs, o, info', hmakes, hc, hnames, fun m hm args name => ?_⟩
  refine ((members m hm).2 ?_ s hs args name).1
  simpa using hops

/-- A member that calls what it is given can be given a member that a host has put on an object of
another type. -/
theorem poke_calls_scale_on_counter :
    let counter := Stock.counterType (IntType.clamp .i64 0)
    let c := Catalogue.empty.after [.register "C" "" counter,
      .addMember "C" "poke" Stock.Counter.poke ""]
    let poke : Member := ⟨"poke", Stock.counterTag, .variadic, Stock.Counter.poke.call "poke"⟩
    let scale : Member := ⟨"scale", Stock.gadgetTag, .fixed 1, Stock.Gadget.scale.call "scale"⟩
    let o : Object := ⟨⟨0⟩, Stock.counterTag, [⟨0⟩]⟩
    let other : Object := ⟨⟨1⟩, Stock.counterTag, [⟨1⟩]⟩
    let s := (Session.fresh "root" "").after [.newObject counter, .newObject counter,
      .define Table.root "bad" (scale.onObject other) "" false]
    c.find? "C" = some ⟨"C", "", counter, [(poke, "")]⟩ ∧ c.Makes "C" o ∧
      Member.bind Stock.gadgetTag "scale" Stock.Gadget.scale = .ok scale ∧
      ((Session.callMember poke o [⟨1⟩]).run s).1 = .error (.fault (.wrongReceiver "scale")) := by
  intro counter c poke scale o other s
  exact ⟨rfl, .made (s := Session.fresh "root" "") rfl, rfl, rfl⟩

end Settings
