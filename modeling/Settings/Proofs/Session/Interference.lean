import Settings.Proofs.Listing.Alike
import Settings.Proofs.Session.Placement
import Settings.Proofs.Session.Steps
import Settings.Stock.Types

/-!
# Instances do not interfere

A deed that is addressed to an instance has the same answer and the same effect there in two
sessions that are alike at the instance (`AlikeAt.mine`), and a deed addressed to an instance apart
from it changes nothing there (`AlikeAt.theirs`). So a run of deeds on several instances goes on, at
each of them, as if the deeds on the others had been left out (`alikeAt_after`), down to the text
that is saved of it.
-/

set_option autoImplicit false

namespace Settings

deriving instance DecidableEq for Instance

namespace Session

variable {s₀ s s' : Session} {i j : Instance} {d : Deed} {deeds : List (Instance × Deed)}

/-! ## One deed -/

/-- A deed on the instance has the same answer in both sessions, which then are alike again. -/
theorem AlikeAt.mine (hi : s₀.Placed i) (hd : s₀.Addressed i d) (h : s₀.AlikeAt i s s') :
    d.answer s' = d.answer s ∧ s₀.AlikeAt i (d.run s) (d.run s') := by
  obtain ⟨id, e, g, under, live, step, does⟩ := hd.acts hi h.later
  obtain ⟨answer, puts⟩ := does s (.refl h.later)
  obtain ⟨answer', puts'⟩ := does s' h
  have reply : (g s'.store).1 = (g s.store).1 := step.reply _ _ h.fields
  have entry : (g s'.store).2.1 = (g s.store).2.1 := step.entry _ _ h.fields
  refine ⟨by rw [answer, answer', reply], ?_⟩
  constructor
  case later => exact h.later.puts live (step.shape _) puts
  case later' => exact h.later'.puts ((h.entries id under).trans live) (step.shape _) puts'
  case entries =>
    intro y hy
    rw [puts.entries, puts'.entries, entry, h.entries y hy]
  case fields =>
    rw [puts.store, puts'.store]
    exact step.own _ _ h.fields

/-- A deed on an instance that is apart changes nothing here. -/
theorem AlikeAt.theirs (hj : s₀.Placed j) (apart : s₀.Apart i j) (hd : s₀.Addressed j d)
    (h : s₀.AlikeAt i s s') : s₀.AlikeAt i (d.run s) s' := by
  obtain ⟨id, e, g, under, live, step, does⟩ := hd.acts hj h.later
  obtain ⟨_, puts⟩ := does s (.refl h.later)
  constructor
  case later => exact h.later.puts live (step.shape _) puts
  case later' => exact h.later'
  case entries =>
    intro y hy
    have hne : y ≠ id := by
      rintro rfl
      exact apart.scopes y hy under
    rw [puts.entries, if_neg hne, h.entries y hy]
  case fields =>
    rw [puts.store]
    exact ((step.others s.store).mono apart.fields).symm.trans h.fields

/-! ## Runs -/

def afterDeeds (s : Session) (deeds : List (Instance × Deed)) : Session :=
  deeds.foldl (fun s x => x.2.run s) s

/-- What is told to those who do the deeds on the instance, as all are done one after the other. -/
def answersTo (i : Instance) : Session → List (Instance × Deed) → List Answer
  | _, [] => []
  | s, x :: deeds =>
      if x.1 = i then x.2.answer s :: answersTo i (x.2.run s) deeds
      else answersTo i (x.2.run s) deeds

/-- The deeds on the instance, the others left out. -/
def deedsOn (i : Instance) (deeds : List (Instance × Deed)) : List (Instance × Deed) :=
  deeds.filter fun x => x.1 = i

/-- At an instance, a run of deeds on instances apart from it goes on as the deeds on the instance
do alone. -/
theorem alikeAt_after (hi : s₀.Placed i) (h : s₀.AlikeAt i s s')
    (addressed : ∀ x ∈ deeds, s₀.Placed x.1 ∧ s₀.Addressed x.1 x.2)
    (apart : ∀ x ∈ deeds, x.1 ≠ i → s₀.Apart i x.1) :
    answersTo i s deeds = answersTo i s' (deedsOn i deeds) ∧
      s₀.AlikeAt i (s.afterDeeds deeds) (s'.afterDeeds (deedsOn i deeds)) := by
  induction deeds generalizing s s' with
  | nil => exact ⟨rfl, h⟩
  | cons x deeds ih =>
    obtain ⟨⟨placed, hd⟩, addressed⟩ := List.forall_mem_cons.mp addressed
    obtain ⟨hapart, apart⟩ := List.forall_mem_cons.mp apart
    by_cases hx : x.1 = i
    · obtain ⟨answer, alike⟩ := h.mine hi (hx ▸ hd)
      obtain ⟨answers, after⟩ := ih alike addressed apart
      have hon : deedsOn i (x :: deeds) = x :: deedsOn i deeds := by simp [deedsOn, hx]
      rw [hon]
      exact ⟨by rw [answersTo, answersTo, if_pos hx, if_pos hx, answer, answers], after⟩
    · have hon : deedsOn i (x :: deeds) = deedsOn i deeds := by simp [deedsOn, hx]
      rw [hon]
      obtain ⟨answers, after⟩ := ih (h.theirs placed (hapart hx) hd) addressed apart
      exact ⟨by rw [answersTo, if_neg hx, answers], after⟩

end Session

/-! ## What is saved -/

namespace Table

variable {t t' : Table} {s s' : Store} {top id : EntryId}

theorem SameFrames.under (h : t.SameFrames t') (hu : t.Under top id) : t'.Under top id := by
  induction hu with
  | self => exact .self
  | @owned id owner e live owned _ ih =>
    have hframe := h id
    rw [live] at hframe
    obtain ⟨e', live', heq⟩ := Option.map_eq_some_iff.mp hframe
    have howner : e'.owner = e.owner := congrArg (fun f => f.2.1) heq
    exact .owned live' (howner.trans owned) ih

/-- Entries under the given one are the same, and host variables are as far as they are linked. -/
structure SameUnder (t : Table) (s : Store) (top : EntryId) (t' : Table) (s' : Store)
    (V : VariableId → Prop) : Prop where
  sound : t.Sound
  sound' : t'.Sound
  entries : ∀ id, t.Under top id → t'.get? id = t.get? id
  linked : ∀ id e, t.Under top id → t.get? id = some e → e.LinkedWithin V
  store : Store.SameOn V s s'

variable {V : VariableId → Prop} {e : Entry} {b : ScopeBody}

/-- What is saved of a scope depends on nothing but what is under it. -/
theorem SameUnder.configText (h : t.SameUnder s top t' s' V) (live : t.get? top = some e)
    (body : e.scope? = some b) :
    ∃ text, t.configText s top = .ok text ∧ t'.configText s' top = .ok text := by
  refine h.sound.configText_alike h.sound' (P := t.Under top) ?_ .self live body
  intro id e hid live
  refine ⟨⟨e, (h.entries id hid).trans live, rfl, rfl, rfl, rfl, fun _ => ?_⟩, ?_⟩
  · exact (h.linked id e hid live).serialized s s' h.store
  · intro b hb c hc
    have hchild : c ∈ e.children := children_eq hb ▸ List.mem_append_left b.builtins hc
    obtain ⟨ec, lc, _, howner⟩ := h.sound.child live hchild
    exact .owned lc howner hid

/-- Recording the defaults writes the same under the given entry. -/
theorem SameUnder.updated (h : t.SameUnder s top t' s' V) (live : t.get? top = some e)
    (body : e.scope? = some b) :
    ∃ u u', (updateDefault s top : Edit Empty Unit).run t = (.ok (), u) ∧
      (updateDefault s' top : Edit Empty Unit).run t' = (.ok (), u') ∧
      u.SameUnder s top u' s' V ∧ u.get? top = some e := by
  obtain ⟨x, htree⟩ := h.sound.exists_tree live
  obtain ⟨x', htree'⟩ := h.sound'.exists_tree ((h.entries top .self).trans live)
  obtain ⟨⟨hx, _⟩, hid⟩ := tree_eq_ok_iff.mp htree
  obtain ⟨⟨hx', _⟩, hid'⟩ := tree_eq_ok_iff.mp htree'
  -- it is the same tree, so the same entries are written
  obtain rfl : x = x' := by
    refine (hx.congr fun y hy => h.entries y ?_).unique hx' (hid.trans hid'.symm)
    exact hid ▸ (hx.mem_ids h.sound).mp hy
  obtain ⟨u, hrun, found⟩ := run_updateDefault h.sound htree s
  obtain ⟨u', hrun', found'⟩ := run_updateDefault h.sound' htree' s'
  have under : ∀ id, u.Under top id → t.Under top id := by
    have frames : t.SameFrames u := by
      intro id
      rw [found]
      split
      · cases t.get? id with
        | none => rfl
        | some e => exact congrArg some (e.frame_recordDefault s)
      · rfl
    exact fun _ => frames.symm.under
  refine ⟨u, u', hrun, hrun', ⟨?_, ?_, ?_, ?_, h.store⟩, ?_⟩
  · have hsound := h.sound.updated (ε := Empty) s top
    rwa [hrun] at hsound
  · have hsound := h.sound'.updated (ε := Empty) s' top
    rwa [hrun'] at hsound
  · intro id hu
    rw [found, found', h.entries id (under id hu)]
    cases live : t.get? id with
    | none => rfl
    | some e =>
      have hrecord := (h.linked id e (under id hu) live).recordDefault s s' h.store
      rw [Option.map_some, Option.map_some, hrecord]
  · intro id e' hu live' target hlink
    rw [found] at live'
    split at live'
    · obtain ⟨e, live, rfl⟩ := Option.map_eq_some_iff.mp live'
      rw [storage_recordDefault] at hlink
      exact h.linked id e (under id hu) live target hlink
    · exact h.linked id e' (under id hu) live' target hlink
  · rw [found, live]
    split
    · exact congrArg some (recordDefault_of_scope? body s)
    · rfl

end Table

namespace Session

variable {s₀ s s' : Session} {i : Instance}

theorem Later.sameFrames (h : s₀.Later s) : s₀.table.SameFrames s.table :=
  fun id => h.sameFramesOn (fun _ => True) id trivial

theorem AlikeAt.sameUnder (hi : s₀.Placed i) (h : s₀.AlikeAt i s s') :
    s.table.SameUnder s.store i.scope s'.table s'.store (· ∈ i.object.fields) where
  sound := h.later.sound
  sound' := h.later'.sound
  entries := fun id hu => h.entries id (h.later.sameFrames.symm.under hu)
  linked := by
    intro id e hu live
    obtain ⟨e', live', linked⟩ := hi.later h.later (h.later.sameFrames.symm.under hu)
    obtain rfl := Option.mem_unique live live'
    exact linked
  store := h.fields

/-- The same is saved of the instance in both sessions, as it stands and once the defaults are
recorded. -/
theorem AlikeAt.configText (hi : s₀.Placed i) (h : s₀.AlikeAt i s s') :
    let record (s : Session) : Session := (Operation.ask (.updateDefault i.scope)).run s
    (∃ text, s.table.configText s.store i.scope = .ok text ∧
      s'.table.configText s'.store i.scope = .ok text) ∧
    ∃ text, (record s).table.configText (record s).store i.scope = .ok text ∧
      (record s').table.configText (record s').store i.scope = .ok text := by
  intro record
  obtain ⟨e₀, b, live₀, hb⟩ := hi.scope
  obtain ⟨e, live, hshape⟩ := h.later.live live₀
  have body : e.scope? = some b :=
    (Table.scope?_of_storage (Entry.storage_eq_of_shape hshape)).trans hb
  have same := h.sameUnder hi
  obtain ⟨u, u', hrun, hrun', updated, liveu⟩ := same.updated live body
  refine ⟨same.configText live body, ?_⟩
  rw [show record s = { s with table := u } from run_updateDefault hrun,
    show record s' = { s' with table := u' } from run_updateDefault hrun']
  exact updated.configText liveu body

/-! ## Instances that were made -/

/-- Two instances, of one type or of two, do not interfere, if the second is not made under the
scope of the first. In any run of calls of members that are local to their receivers, assignments
and writes of values, what is told of the deeds on either instance, the fields of its object in the
end, and what is then saved of it, as it stands and once the defaults are recorded, are as if the
deeds on the other one had been left out. -/
theorem instances_do_not_interfere {s₁ s₂ s₃ : Session} {a b : Instance} {c c' : Catalogue}
    {type type' : String} {parent parent' : EntryId}
    {name name' description description' : String} (h : s₀.table.Reachable)
    (made : (instantiate c type parent name description).run s₀ = (.ok a, s₁))
    (fields : ∀ info, c.find? type = some info → info.type.LinksFields)
    (kept : s₁.Keeps a s₂) (known : ∀ v ∈ a.object.fields, v.index < s₂.store.vars.size)
    (made' : (instantiate c' type' parent' name' description').run s₂ = (.ok b, s₃))
    (fields' : ∀ info, c'.find? type' = some info → info.type.LinksFields)
    (outside : ¬ s₂.table.Under a.scope parent') (deeds : List (Instance × Deed))
    (addressed : ∀ x ∈ deeds, (x.1 = a ∨ x.1 = b) ∧ s₃.Addressed x.1 x.2) :
    ∀ i, i = a ∨ i = b →
      let both := s₃.afterDeeds deeds
      let alone := s₃.afterDeeds (deedsOn i deeds)
      let recorded (s : Session) : Session := (Operation.ask (.updateDefault i.scope)).run s
      answersTo i s₃ deeds = answersTo i s₃ (deedsOn i deeds) ∧
      Store.SameOn (· ∈ i.object.fields) both.store alone.store ∧
      (∃ text, both.table.configText both.store i.scope = .ok text ∧
        alone.table.configText alone.store i.scope = .ok text) ∧
      ∃ text, (recorded both).table.configText (recorded both).store i.scope = .ok text ∧
        (recorded alone).table.configText (recorded alone).store i.scope = .ok text := by
  intro i hi both alone recorded
  have placed₂ : s₂.Placed a := (placed_of_instantiate h.sound made fields).keeps kept
  have placedA : s₃.Placed a := placed₂.keeps (keeps_of_instantiate placed₂ made' fields' outside)
  have placedB : s₃.Placed b := placed_of_instantiate kept.sound made' fields'
  have apart : s₃.Apart a b := apart_of_instantiate placed₂ known made' fields' outside
  have placed : ∀ j, j = a ∨ j = b → s₃.Placed j := by
    rintro j (rfl | rfl)
    · exact placedA
    · exact placedB
  have others : ∀ x ∈ deeds, x.1 ≠ i → s₃.Apart i x.1 := by
    intro x hx hne
    rcases hi with rfl | rfl
    · exact ((addressed x hx).1.resolve_left hne) ▸ apart
    · exact ((addressed x hx).1.resolve_right hne) ▸ apart.symm
  obtain ⟨answers, alike⟩ := alikeAt_after (placed i hi) (.refl (.refl placedB.sound))
    (fun x hx => ⟨placed x.1 (addressed x hx).1, (addressed x hx).2⟩) others
  obtain ⟨stands, saved⟩ := alike.configText (placed i hi)
  exact ⟨answers, alike.fields, stands, saved⟩

end Session

/-! ### Two dials -/

namespace Dials

def scale : Member := ⟨"f", Stock.gadgetTag, .fixed 1, Stock.Gadget.scale.call "f"⟩

/-- A gadget that has a size and nothing else. -/
def type : ObjectType where
  tag := Stock.gadgetTag
  initial := [⟨.int .u32, Stock.u32 0⟩]
  setup := fun o => o.fields.map fun v =>
    ⟨.top, "n", "", .content (.linked (.var (.int .u32) v) (Stock.u32 10)), []⟩

def catalogue : Catalogue := ⟨[⟨"D", "", type, [(scale, "")]⟩]⟩

def a : Instance := ⟨⟨⟨0⟩, Stock.gadgetTag, [⟨0⟩]⟩, ⟨1⟩⟩

def b : Instance := ⟨⟨⟨1⟩, Stock.gadgetTag, [⟨1⟩]⟩, ⟨4⟩⟩

def start : Session := Session.fresh "" ""

def first : Session := ((Session.instantiate catalogue "D" Table.root "a" "").run start).2

def both : Session := ((Session.instantiate catalogue "D" Table.root "b" "").run first).2

def deeds : List (Instance × Deed) :=
  [(a, .call Table.root "a.f" ["3"]), (b, .write (.assignment Table.root "b.n=7")),
    (b, .call b.scope "f" ["\"2\""]), (a, .write (.text ⟨2⟩ "x")), (a, .call a.scope "f" ["2"])]

theorem linksFields (info : TypeInfo) (h : catalogue.find? "D" = some info) :
    info.type.LinksFields := by
  intro o step hstep target default hr
  obtain rfl : (⟨"D", "", type, [(scale, "")]⟩ : TypeInfo) = info := Option.some.inj h
  obtain ⟨v, hv, rfl⟩ := List.mem_map.mp hstep
  cases hr
  exact Target.local_var _ hv

/-- A call of the member of a dial is addressed to the dial. -/
theorem addressed_call {i : Instance} {scope : EntryId} {path text : String} (id : EntryId)
    (v : Scalar) (tagged : i.object.tag = Stock.gadgetTag)
    (function : (both.table.get? id).bind Entry.function? = some (scale.onObject i.object))
    (known : both.table.contains scope = true) (valued : literalValue? text = some v)
    (found : both.table.lookupPath? scope path = .ok (some id)) :
    both.Addressed i (.call scope path [text]) := by
  obtain ⟨e, live, function⟩ := Option.bind_eq_some_iff.mp function
  let scaled (vs : Args [.value (.int .u32)]) (size : IntType.Value .u32) : IntType.Value .u32 :=
    IntType.wrap .u32 (size.toInt * IntType.Value.toInt (t := .u32) vs.1)
  have works := i.object.localFunction_update 0 (.int .u32)
    (fun vs size => (.ok (.number (scaled vs size).toNumber) : Except CallError Scalar)) scaled
    fun _ => ⟨rfl, rfl⟩
  have bound : Member.bind Stock.gadgetTag "f" Stock.Gadget.scale = .ok scale := rfl
  exact .call known (.cons valued .nil) found live function (.member bound tagged) works

end Dials

namespace Session

/-- Two dials under the root are scaled and set by turns, once to what is no number. -/
theorem dials_do_not_interfere :
    let after := Dials.both.afterDeeds Dials.deeds
    let recorded (i : Instance) (s : Session) : Session :=
      (Operation.ask (.updateDefault i.scope)).run s
    let saved (i : Instance) (s : Session) := s.table.configText s.store i.scope
    Dials.start.table.Reachable ∧
      (instantiate Dials.catalogue "D" Table.root "a" "").run Dials.start =
        (.ok Dials.a, Dials.first) ∧
      (instantiate Dials.catalogue "D" Table.root "b" "").run Dials.first =
        (.ok Dials.b, Dials.both) ∧
      saved Dials.a (recorded Dials.a after) = .ok "n = 60;\n" ∧
      ∀ i, i = Dials.a ∨ i = Dials.b →
        let alone := Dials.both.afterDeeds (deedsOn i Dials.deeds)
        answersTo i Dials.both Dials.deeds = answersTo i Dials.both (deedsOn i Dials.deeds) ∧
        ∃ text, saved i (recorded i after) = .ok text ∧ saved i (recorded i alone) = .ok text := by
  intro after recorded saved
  have h : Dials.start.table.Reachable := ⟨"", "", [], rfl⟩
  have made : (instantiate Dials.catalogue "D" Table.root "a" "").run Dials.start =
      (.ok Dials.a, Dials.first) := Prod.ext rfl rfl
  have made' : (instantiate Dials.catalogue "D" Table.root "b" "").run Dials.first =
      (.ok Dials.b, Dials.both) := Prod.ext rfl rfl
  have kept : Dials.first.Keeps Dials.a Dials.first :=
    ⟨(placed_of_instantiate h.sound made Dials.linksFields).sound, fun _ _ => rfl⟩
  have outside : ¬ Dials.first.table.Under Dials.a.scope Table.root := by
    obtain ⟨er, _, lr, _, hdet⟩ := kept.sound.root
    intro hu
    exact absurd (hu.eq_of_detached lr hdet) (by decide)
  have under (id : EntryId) {i : Instance}
      (owner : (Dials.both.table.get? id).bind Entry.owner = some i.scope) :
      Dials.both.table.Under i.scope id := by
    obtain ⟨e, live, owned⟩ := Option.bind_eq_some_iff.mp owner
    exact .owned live owned .self
  have addressed : ∀ x ∈ Dials.deeds,
      (x.1 = Dials.a ∨ x.1 = Dials.b) ∧ Dials.both.Addressed x.1 x.2 := by
    refine List.forall_mem_cons.mpr ⟨⟨.inl rfl, ?_⟩, List.forall_mem_cons.mpr ⟨⟨.inr rfl, ?_⟩,
      List.forall_mem_cons.mpr ⟨⟨.inr rfl, ?_⟩, List.forall_mem_cons.mpr ⟨⟨.inl rfl, ?_⟩,
        List.forall_mem_singleton.mpr ⟨.inl rfl, ?_⟩⟩⟩⟩⟩
    · exact Dials.addressed_call ⟨3⟩ (.number (Binary.ofInt 3)) rfl rfl rfl rfl rfl
    · exact .assignment rfl rfl rfl (under ⟨5⟩ rfl)
    · exact Dials.addressed_call ⟨6⟩ (.text "2") rfl rfl rfl rfl rfl
    · exact .text (under ⟨2⟩ rfl) "x"
    · exact Dials.addressed_call ⟨3⟩ (.number (Binary.ofInt 2)) rfl rfl rfl rfl rfl
  refine ⟨h, made, made', by decide +kernel, fun i hi => ?_⟩
  obtain ⟨answers, _, _, same⟩ := instances_do_not_interfere h made Dials.linksFields kept
    (by decide +kernel) made' Dials.linksFields outside Dials.deeds addressed i hi
  exact ⟨answers, same⟩

/-- Instances interfere otherwise: a member that tells the number of a handle tells which slots the
calls of another instance have left free, a scope is saved with the instances that were made under
it, and a copy carries a value over. -/
theorem nested_handled_and_copied_instances_interfere :
    let show5 : Member := ⟨"show5", Stock.counterTag, .fixed 5, Stock.Counter.show5.call "show5"⟩
    let c : Catalogue := ⟨[⟨"C", "", Stock.counterType (IntType.zero .i64), [(show5, "")]⟩,
      ⟨"G", "", Stock.gadgetType, []⟩]⟩
    let s := fresh "root" ""
    let place (type : String) (parent : EntryId) (name : String) (s : Session) :=
      (instantiate c type parent name "").run s
    let gadget (number : Nat) (scope : EntryId) : Instance :=
      ⟨⟨⟨number⟩, Stock.gadgetTag, [⟨2 * number⟩, ⟨2 * number + 1⟩]⟩, scope⟩
    let saved (s : Session) : Option String :=
      let recorded := (Operation.ask (.updateDefault ⟨1⟩)).run s
      (recorded.table.configText recorded.store ⟨1⟩).toOption
    (let counters := place "C" Table.root "b" (place "C" Table.root "a" s).2
      let a : Instance := ⟨⟨⟨0⟩, Stock.counterTag, [⟨0⟩]⟩, ⟨1⟩⟩
      let b : Instance := ⟨⟨⟨1⟩, Stock.counterTag, [⟨1⟩]⟩, ⟨3⟩⟩
      let args := ["1", "2", "\"true\"", "\"x\"", "5"]
      let shown (s : Session) := ((callPath a.scope "show5" args).run s).1
      (place "C" Table.root "a" s).1.toOption = some a ∧ counters.1.toOption = some b ∧
        shown counters.2 = .ok "0:1|2|true|x|9" ∧
        shown (counters.2.afterDeeds [(b, .call b.scope "show5" args)]) =
          .ok "0:1|2|true|x|5") ∧
    (let outer := place "G" Table.root "a" s
      let nested := place "G" ⟨1⟩ "b" outer.2
      let deeds := [(gadget 1 ⟨5⟩, .write (.assignment ⟨5⟩ "size=11"))]
      outer.1.toOption = some (gadget 0 ⟨1⟩) ∧ nested.1.toOption = some (gadget 1 ⟨5⟩) ∧
        saved (nested.2.afterDeeds deeds) ≠ saved nested.2) ∧
    (let gadgets := place "G" Table.root "b" (place "G" Table.root "a" s).2
      let set := (gadget 1 ⟨5⟩, .write (.text ⟨6⟩ "7"))
      let copy := (gadget 0 ⟨1⟩, .write (.copy ⟨2⟩ ⟨6⟩))
      gadgets.1.toOption = some (gadget 1 ⟨5⟩) ∧
        saved (gadgets.2.afterDeeds [set, copy]) ≠ saved (gadgets.2.afterDeeds [copy])) := by
  decide +kernel

end Session
end Settings
