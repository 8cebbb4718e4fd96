import Settings.Proofs.Host.Footprints
import Settings.Proofs.Listing.Alike
import Settings.Proofs.Session.Steps
import Settings.Proofs.Table.Regions

/-!
# Isolated trees

A step works at the handles that it is given, on the trees of those entries. What lies in a region
that none of the handles belongs to stays as it is (`Step.elsewhere`). A region whose entries have
not changed is still a region, and whatever came in since was put into a slot that was empty, so it
is not in the region either. Therefore a host that starts with the handles of one tree and goes on
with those and with the handles it is given never gets hold of an entry outside, however slots are
freed and used again: `Session.Confined` says that the operations are such, and
`elsewhere_after` is the induction.

Host variables are no part of a tree. What is read through links outside depends on the links inside
only if both use a variable, and a step writes to variables only through links that are inside or
that it brings in (`Step.linked_from`, `Operation.store_run`).
-/

set_option autoImplicit false

namespace Settings

namespace Table

variable {t t' : Table} {s s' : Store} {ids : List EntryId} {new : Option Entry}
  {P : EntryId → Prop}

/-! ## One step -/

/-- A step outside of a region leaves every entry of the region as it is. -/
theorem Step.elsewhere (h : t.Sound) (hp : t.Region P) (hs : t.Step ids new t')
    (hids : ∀ id ∈ ids, ¬ P id) {y : EntryId} (hy : P y) : t'.get? y = t.get? y := by
  have ne : ∀ id ∈ ids, y ≠ id := by
    rintro id hid rfl
    exact hids y hid hy
  -- the tree of an entry that is outside is outside, and so is the entry's owner
  have notUnder : ∀ id ∈ ids, ¬ t.Under id y := fun id hid hu =>
    hids id hid ((hp.under_iff hu).mp hy)
  have notOwner : ∀ id ∈ ids, ∀ e, t.get? id = some e → e.owner ≠ some y := fun id hid e live ho =>
    hids id hid ((hp.owner_iff id e y live ho).mpr hy)
  obtain ⟨ey, ly⟩ := hp.exists_entry hy
  cases hs with
  | same => rfl
  | rewritten hid live he => rw [get?_set t _ y _ (index_lt_of_get? live), if_neg (ne _ hid)]
  | @recorded id x _ hid htree s found =>
    have hx := (tree_eq_ok_iff.mp htree).1.1
    obtain rfl := (tree_eq_ok_iff.mp htree).2
    rw [found, if_neg]
    intro hm
    exact notUnder _ hid ((hx.mem_ids h).mp (x.registered_sublist_ids.subset hm))
  | temp value => rw [h.slots.get?_alloc_of_live _ ly, ly]
  | released hid hr =>
    obtain ⟨e, live, _, rfl⟩ := hr
    rw [get?_vacate, if_neg (ne _ hid)]
  | copied hid htree hc => rw [hc.keeps h y ey ly, ly]
  | attached hscope hid ha =>
    obtain ⟨e, p, b, _, _, _, _, _, _, _, _, rfl⟩ := ha
    rw [get?_setBody, if_neg (ne _ hscope), get?_update, if_neg (ne _ hid)]
  | renamed hid hr =>
    obtain ⟨e, live, _, ⟨_, rfl⟩ | ⟨_, u, hu, rfl⟩⟩ := hr
    · rfl
    rw [get?_update, if_neg (ne _ hid)]
    rcases hu with ⟨_, rfl⟩ | ⟨scope, p, b, ho, _, _, _, rfl⟩
    · rfl
    · rw [get?_setBody, if_neg]
      rintro rfl
      exact notOwner _ hid e live ho
  | removed hid hr =>
    obtain ⟨e, x, u, live, _, htree, hu, rfl⟩ := hr
    have hx := (tree_eq_ok_iff.mp htree).1.1
    obtain rfl := (tree_eq_ok_iff.mp htree).2
    rw [get?_foldl_vacate, if_neg fun hm => notUnder _ hid ((hx.mem_ids h).mp hm)]
    exact hu.get?_of_ne (notOwner _ hid e live)
  | @inserted scope id e builtin _ hscope hnew hi body function =>
    have hfresh : y ≠ id := by
      obtain ⟨_, _, _, _, _, _, rfl, rfl⟩ := hi
      exact h.slots.ne_alloc _ ly
    rw [hi.get? h.slots, if_neg hfresh, if_neg (ne _ hscope)]

/-- A link leads to where a link led before, of an entry in the same place or of one at or under a
handle of the step, or the step brought it in. -/
theorem Step.linked_from (h : t.Sound) (hs : t.Step ids new t') {y : EntryId} {e' : Entry}
    {target : Target} (live' : t'.get? y = some e') (hlink : e'.storage = .linked target) :
    (∃ x e, t.get? x = some e ∧ e.storage = .linked target ∧
      (x = y ∨ ∃ id ∈ ids, t.Under id x)) ∨ ∃ e, new = some e ∧ e.storage = .linked target := by
  cases hs.origin h live' with
  | @kept e _ live he =>
    rw [hlink] at he
    refine Or.inl ⟨y, e, live, ?_, Or.inl rfl⟩
    cases hstorage : e.storage <;> simp_all [Storage.shape]
  | scope live hb hb' builtins =>
    rw [scope?_eq_some hb'] at hlink
    exact absurd hlink (by simp)
  | temp fresh value => cases value <;> simp [Entry.temp, Entry.new] at hlink
  | @copy id z e f owner fresh hid hz live children =>
    refine Or.inl ⟨z, e, live, ?_, Or.inr ⟨id, hid, hz⟩⟩
    unfold Entry.copied at hlink
    split at hlink
    · simp at hlink
    · exact hlink
  | @new e scope fresh hnew body => exact Or.inr ⟨e, hnew, hlink⟩

end Table

/-! ## Operations on the table -/

namespace Operation

/-- The handles that an operation on the table itself is given. -/
def handles? : Operation → Option (List EntryId)
  | .ask r => some r.handles
  | .define scope _ _ _ _ => some [scope]
  | .copyLive target source => some [target, source]
  | .invoke .. | .callMember .. | .newObject _ | .change _ | .setChannel _ => none

/-- The entry that an operation brings in if it is done. -/
def registers : Operation → Option Entry
  | .ask r => r.registers
  | .define _ name f description _ => some (.new name description (.function f))
  | _ => none

variable {op : Operation} {ids : List EntryId} {s : Session}

theorem step_run (h : s.table.Sound) (hop : op.handles? = some ids) :
    s.table.Step ids op.registers (op.run s).table := by
  cases op with
  | ask r =>
    obtain rfl := Option.some.inj hop
    rcases Session.ask_cases r s with hsame | ⟨reply, t, st, ha, hrun⟩
    · rw [hsame]
      exact .same
    · rw [hrun]
      exact Request.step_answer h ha
  | define scope name f description builtin =>
    obtain rfl := Option.some.inj hop
    exact Table.step_define h scope name f description builtin
  | copyLive target source =>
    obtain rfl := Option.some.inj hop
    rcases Session.copyLive_cases target source s with hsame | ⟨done, t, st, hcopy, hrun⟩
    · rw [hsame]
      exact .same
    · rw [hrun]
      exact Table.step_copyLive hcopy
  | invoke | callMember | newObject | change | setChannel => exact absurd hop (by simp [handles?])

end Operation

/-- One write through a link that the table has at one of the handles, or that is brought in, at
the most. -/
inductive Store.WrittenAt (t : Table) (ids : List EntryId) (new : Option Entry) (s : Store) :
    Store → Prop
  | same : WrittenAt t ids new s s
  | linked {id : EntryId} {e : Entry} {target : Target} (hid : id ∈ ids) (live : t.get? id = some e)
      (hlink : e.storage = .linked target) (x : target.type.Carrier) :
      WrittenAt t ids new s (target.write x s)
  | brought {e : Entry} {target : Target} (hnew : new = some e)
      (hlink : e.storage = .linked target) (x : target.type.Carrier) :
      WrittenAt t ids new s (target.write x s)

theorem Table.Writes.writtenAt {t t' : Table} {s s' : Store} {ids : List EntryId}
    {new : Option Entry} (hw : t.Writes s (fun id => id ∈ ids) t' s') :
    s.WrittenAt t ids new s' := by
  cases hw with
  | same => exact .same
  | entry hid live he =>
    rcases he.store with rfl | ⟨target, x, hlink, rfl⟩
    · exact .same
    · exact .linked hid live hlink x

theorem Request.writtenAt_answer {t t' : Table} {s s' : Store} (h : t.Sound) {r : Request}
    {reply : r.Reply} (hr : r.answer t s = .ok (reply, t', s')) :
    s.WrittenAt t r.handles r.registers s' := by
  cases r with
  | size | contains =>
    obtain ⟨_, _, rfl⟩ := Prod.mk.injEq .. ▸ Except.ok.inj hr
    exact .same
  | find | lookup | lookupPath | readNumber | readText | snapshot | convert =>
    rw [(map_eq_ok hr).2.2]
    exact .same
  | writeNumber id x =>
    exact (writes_replied (List.mem_singleton_self id) (Entry.revalued_writeNumber x) hr).writtenAt
  | writeText id text =>
    exact (writes_replied (List.mem_singleton_self id) (Entry.revalued_writeText text) hr).writtenAt
  | assign id value =>
    exact (Table.writes_tryOn (List.mem_singleton_self id) (Entry.revalued_assign value)
      hr).writtenAt
  | copy target source => exact (Table.writes_copy List.mem_cons_self hr).writtenAt
  | edit | updateDefault | releaseIfTemporary | clone =>
    rw [(done_eq_ok hr).2]
    exact .same
  | makeTemp value =>
    obtain ⟨-, -, rfl⟩ := makeTemp_eq_ok hr
    exact .same
  | release | attach | rename | remove =>
    rw [(edited_eq_ok hr).2]
    exact .same
  | register scope name description content =>
    rcases register_eq_ok h.slots hr with ⟨_, _, rfl⟩ | ⟨id, _, rfl, _⟩
    · exact .same
    · cases content with
      | linked target default => exact .brought rfl rfl default
      | scope | number | text => exact .same

theorem Operation.writtenAt_run {op : Operation} {ids : List EntryId} {s : Session}
    (h : s.table.Sound) (hop : op.handles? = some ids) :
    s.store.WrittenAt s.table ids op.registers (op.run s).store := by
  cases op with
  | ask r =>
    obtain rfl := Option.some.inj hop
    rcases Session.ask_cases r s with hsame | ⟨reply, t, st, ha, hrun⟩
    · rw [hsame]
      exact .same
    · rw [hrun]
      exact Request.writtenAt_answer h ha
  | define scope name f description builtin => exact .same
  | copyLive target source =>
    obtain rfl := Option.some.inj hop
    rcases Session.copyLive_cases target source s with hsame | ⟨done, t, st, hcopy, hrun⟩
    · rw [hsame]
      exact .same
    · rw [hrun]
      exact (Table.writes_copyLive List.mem_cons_self hcopy).writtenAt
  | invoke | callMember | newObject | change | setChannel => exact absurd hop (by simp [handles?])

/-! ## Runs -/

namespace Session

/-- The operations work on the table itself, and each handle that they are given belongs to the set
or to an entry that has come in since. -/
inductive Confined : (EntryId → Prop) → Session → List Operation → Prop
  | nil {mine : EntryId → Prop} {s : Session} : Confined mine s []
  | cons {mine : EntryId → Prop} {s : Session} {op : Operation} {ops : List Operation}
      {ids : List EntryId} (hop : op.handles? = some ids) (hids : ∀ id ∈ ids, mine id)
      (rest : Confined (fun id => mine id ∨
        s.table.contains id = false ∧ (op.run s).table.contains id = true) (op.run s) ops) :
      Confined mine s (op :: ops)

variable {s : Session} {op : Operation} {ops : List Operation} {ids : List EntryId}
  {P mine : EntryId → Prop} {V : VariableId → Prop}

theorem elsewhere_run (h : s.table.Sound) (hp : s.table.Region P) (hop : op.handles? = some ids)
    (hids : ∀ id ∈ ids, ¬ P id) : (op.run s).table.Sound ∧ (op.run s).table.Region P ∧
      ∀ id, P id → (op.run s).table.get? id = s.table.get? id := by
  have hstep := Operation.step_run h hop
  have sound := Table.kept_sound.run op s h
  have same := fun id (hid : P id) => hstep.elsewhere h hp hids hid
  exact ⟨sound, hp.kept h sound same, same⟩

theorem Confined.mono {mine' : EntryId → Prop} (hsub : ∀ id, mine id → mine' id)
    (hops : Confined mine s ops) : Confined mine' s ops := by
  induction hops generalizing mine' with
  | nil => exact .nil
  | cons hop hids _ ih =>
    exact .cons hop (fun id hid => hsub id (hids id hid))
      (ih fun id hid => hid.imp_left (hsub id))

/-- What has come in since is not in a region that was left alone. -/
theorem Confined.apart (hp : s.table.Region P) (hmine : ∀ id, mine id → ¬ P id) (id : EntryId)
    (hid : mine id ∨ s.table.contains id = false ∧ (op.run s).table.contains id = true) :
    ¬ P id := by
  rcases hid with hid | ⟨hfresh, _⟩
  · exact hmine id hid
  · intro hin
    rw [hp.live id hin] at hfresh
    exact absurd hfresh (by simp)

theorem elsewhere_after (h : s.table.Sound) (hp : s.table.Region P)
    (hmine : ∀ id, mine id → ¬ P id) (hops : Confined mine s ops) :
    (s.after ops).table.Sound ∧ ∀ id, P id → (s.after ops).table.get? id = s.table.get? id := by
  induction hops with
  | nil => exact ⟨h, fun _ _ => rfl⟩
  | cons hop hids _ ih =>
    obtain ⟨sound, region, same⟩ := elsewhere_run h hp hop fun id hid => hmine id (hids id hid)
    obtain ⟨hend, hrest⟩ := ih sound region (Confined.apart hp hmine)
    exact ⟨hend, fun id hid => (hrest id hid).trans (same id hid)⟩

end Session

namespace Table

/-- The links of the entries of a set use host variables of a set only. -/
def LinksWithin (t : Table) (P : EntryId → Prop) (V : VariableId → Prop) : Prop :=
  ∀ id e target, P id → t.get? id = some e → e.storage = .linked target → target.Within V

end Table

namespace Session

variable {s : Session} {op : Operation} {ops : List Operation} {ids : List EntryId}
  {P mine : EntryId → Prop} {V : VariableId → Prop}

theorem linksWithin_run (h : s.table.Sound) (hp : s.table.Region P) (hop : op.handles? = some ids)
    (hids : ∀ id ∈ ids, ¬ P id) (links : s.table.LinksWithin (fun id => ¬ P id) V)
    (brought : ∀ e target, op.registers = some e → e.storage = .linked target →
      target.Within V) : (op.run s).table.LinksWithin (fun id => ¬ P id) V := by
  intro y e' target hy live' hlink
  rcases (Operation.step_run h hop).linked_from h live' hlink with
    ⟨x, e, live, hstorage, hplace⟩ | ⟨e, hnew, hstorage⟩
  · refine links x e target ?_ live hstorage
    rcases hplace with rfl | ⟨id, hid, hunder⟩
    · exact hy
    · exact fun hx => hids id hid ((hp.under_iff hunder).mp hx)
  · exact brought e target hnew hstorage

theorem sameOn_run (h : s.table.Sound) (hop : op.handles? = some ids) (hids : ∀ id ∈ ids, ¬ P id)
    (links : s.table.LinksWithin (fun id => ¬ P id) fun v => ¬ V v)
    (brought : ∀ e target, op.registers = some e → e.storage = .linked target →
      target.Within fun v => ¬ V v) : Store.SameOn V s.store (op.run s).store := by
  have hwritten := Operation.writtenAt_run h hop
  generalize (op.run s).store = st at hwritten ⊢
  cases hwritten with
  | same => exact .refl V s.store
  | linked hid live hlink x =>
    intro v hv
    exact (links _ _ _ (hids _ hid) live hlink).others x s.store v (not_not_intro hv)
  | brought hnew hlink x =>
    intro v hv
    exact (brought _ _ hnew hlink).others x s.store v (not_not_intro hv)

/-- Host variables that are linked in the region only stay as they are. -/
theorem sameOn_after (h : s.table.Sound) (hp : s.table.Region P)
    (hmine : ∀ id, mine id → ¬ P id) (hops : Confined mine s ops)
    (links : s.table.LinksWithin (fun id => ¬ P id) fun v => ¬ V v)
    (brought : ∀ op ∈ ops, ∀ e target, op.registers = some e → e.storage = .linked target →
      target.Within fun v => ¬ V v) : Store.SameOn V s.store (s.after ops).store := by
  induction hops with
  | @nil _ s => exact .refl V s.store
  | @cons _ s op ops ids hop hids _ ih =>
    obtain ⟨hfirst, hothers⟩ := List.forall_mem_cons.mp brought
    have outside : ∀ id ∈ ids, ¬ P id := fun id hid => hmine id (hids id hid)
    obtain ⟨sound, region, _⟩ := elsewhere_run h hp hop outside
    have hstore := sameOn_run h hop outside links hfirst
    exact hstore.trans (ih sound region (Confined.apart hp hmine)
      (linksWithin_run h hp hop outside links hfirst) hothers)

/-- What is outside of the tree of a detached entry stays as it is, as long as nobody who works in
the tree is given handles from elsewhere: every entry, its path and what is looked up from it. The
text of the root scope stays too, if no host variable is linked both in the tree and outside. -/
theorem trees_are_isolated (h : s.table.Reachable) {top : EntryId} {e : Entry}
    (live : s.table.get? top = some e) (detached : e.owner = none) (hroot : top ≠ Table.root)
    (hops : Confined (s.table.Under top) s ops) :
    (∀ id other, s.table.get? id = some other → ¬ s.table.Under top id →
      (s.after ops).table.get? id = some other ∧
      (s.after ops).table.pathOf id = s.table.pathOf id ∧
      (∀ name enclosing, (s.after ops).table.lookup? id name enclosing =
        s.table.lookup? id name enclosing) ∧
      ∀ path, (s.after ops).table.lookupPath? id path = s.table.lookupPath? id path) ∧
    ∀ V : VariableId → Prop,
      s.table.LinksWithin (fun id => ¬ s.table.Under top id) V →
      s.table.LinksWithin (s.table.Under top) (fun v => ¬ V v) →
      (∀ op ∈ ops, ∀ new target, op.registers = some new → new.storage = .linked target →
        target.Within fun v => ¬ V v) →
      ∃ text, s.table.configText s.store Table.root = .ok text ∧
        (s.after ops).table.configText (s.after ops).store Table.root = .ok text := by
  have sound := h.sound
  have region := Table.Region.outside sound live detached
  have apart : ∀ id, s.table.Under top id → ¬ s.table.Outside top id :=
    fun id hid hout => hout.2 hid
  obtain ⟨sound', same⟩ := elsewhere_after sound region apart hops
  have frames := Table.SameFramesOn.of_eq same
  constructor
  · intro id other lother hother
    have hid : s.table.Outside top id := ⟨Table.contains_iff.mpr ⟨other, lother⟩, hother⟩
    exact ⟨(same id hid).trans lother, region.pathOf sound sound' frames hid,
      region.lookup? sound sound' frames hid, region.lookupPath? sound sound' frames hid⟩
  · intro V outside inside brought
    have links : s.table.LinksWithin (fun id => ¬ s.table.Outside top id) fun v => ¬ V v := by
      intro id other target hid lother
      refine inside id other target ?_ lother
      by_contra hout
      exact hid ⟨Table.contains_iff.mpr ⟨other, lother⟩, hout⟩
    have stores := sameOn_after sound region apart hops links brought
    obtain ⟨er, b, lr, hb, hdet⟩ := sound.root
    have rootOut : s.table.Outside top Table.root :=
      ⟨Table.contains_iff.mpr ⟨er, lr⟩, fun hu => hroot (hu.eq_of_detached lr hdet)⟩
    have alike : s.table.ListedAlike s.store (s.after ops).table (s.after ops).store
        (s.table.Outside top) := by
      intro id other hid lother
      constructor
      · refine ⟨other, (same id hid).trans lother, rfl, rfl, rfl, rfl, fun _ => ?_⟩
        refine Entry.serialized_congr fun target hlink => ?_
        exact (outside id other target hid.2 lother hlink).read _ _ stores
      · intro body hbody c hc
        exact region.child sound hid lother
          (Table.children_eq hbody ▸ List.mem_append_left _ hc)
    exact sound.configText_alike sound' alike rootOut lr hb

/-- In the copy of a scope the value is removed and its slot used again by a temporary, which is
attached, and a link is registered to another host variable than the one linked in the root. -/
theorem copy_of_scope_is_isolated :
    let seed : HostType := .int .i64
    let s := (fresh "root" "").after
      [.change fun st => (st.addAll [⟨seed, seed.blank⟩, ⟨seed, seed.blank⟩]).2,
        .ask (.register Table.root "pop" "" (.scope "Population")),
        .ask (.register ⟨1⟩ "size" "" .number), .ask (.clone ⟨1⟩),
        .ask (.register Table.root "seed" "" (.linked (.var seed ⟨0⟩) seed.blank))]
    let ops : List Operation :=
      [.ask (.remove ⟨4⟩), .ask (.makeTemp (.text "x")), .ask (.rename ⟨4⟩ "label"),
        .ask (.attach ⟨3⟩ ⟨4⟩), .ask (.updateDefault ⟨3⟩),
        .ask (.register ⟨3⟩ "out" "" (.linked (.var seed ⟨1⟩) seed.blank)), .copyLive ⟨4⟩ ⟨6⟩]
    s.table.Reachable ∧ (∃ e, s.table.get? ⟨3⟩ = some e ∧ e.owner = none) ∧
      Confined (s.table.Under ⟨3⟩) s ops ∧
      (∃ size, s.table.get? ⟨2⟩ = some size ∧ (s.after ops).table.get? ⟨2⟩ = some size ∧
        (s.after ops).table.pathOf ⟨2⟩ = s.table.pathOf ⟨2⟩) ∧
      ∃ text, s.table.configText s.store Table.root = .ok text ∧
        (s.after ops).table.configText (s.after ops).store Table.root = .ok text := by
  intro seed s ops
  have h : s.table.Reachable := ⟨"root", "", _, rfl⟩
  have owner : ∀ i o, (s.table.get? ⟨i⟩).bind Entry.owner = some o →
      ∃ e, s.table.get? ⟨i⟩ = some e ∧ e.owner = some o := fun _ _ => Option.bind_eq_some_iff.mp
  obtain ⟨e₄, live₄, owner₄⟩ := owner 4 ⟨3⟩ (by decide +kernel)
  obtain ⟨e₂, live₂, owner₂⟩ := owner 2 ⟨1⟩ (by decide +kernel)
  obtain ⟨e₁, live₁, owner₁⟩ := owner 1 Table.root (by decide +kernel)
  obtain ⟨e₅, live₅, owner₅⟩ := owner 5 Table.root (by decide +kernel)
  have detached : ∃ e, s.table.get? ⟨3⟩ = some e ∧ e.owner = none := by
    obtain ⟨e, live⟩ := Table.contains_iff.mp (show s.table.contains ⟨3⟩ = true by decide +kernel)
    have hnone : (s.table.get? ⟨3⟩).bind Entry.owner = none := by decide +kernel
    rw [live] at hnone
    exact ⟨e, live, hnone⟩
  obtain ⟨e₃, live₃, owner₃⟩ := detached
  have under₄ : s.table.Under ⟨3⟩ ⟨4⟩ := .owned live₄ owner₄ .self
  -- what the root owns is not under the copy
  have notRoot : ¬ s.table.Under ⟨3⟩ Table.root := by
    obtain ⟨er, lr, hdet⟩ : ∃ er, s.table.get? Table.root = some er ∧ er.owner = none := by
      obtain ⟨er, _, lr, _, hdet⟩ := h.sound.root
      exact ⟨er, lr, hdet⟩
    intro hu
    exact absurd (hu.eq_of_detached lr hdet) (by decide)
  have notOwned : ∀ id e, id ≠ ⟨3⟩ → s.table.get? id = some e → e.owner = some Table.root →
      ¬ s.table.Under ⟨3⟩ id := by
    intro id e hne live ho hu
    exact (hu.above live ho).elim (fun heq => hne heq.symm) notRoot
  have not₁ := notOwned ⟨1⟩ e₁ (by decide) live₁ owner₁
  have not₅ := notOwned ⟨5⟩ e₅ (by decide) live₅ owner₅
  have not₂ : ¬ s.table.Under ⟨3⟩ ⟨2⟩ := fun hu =>
    (hu.above live₂ owner₂).elim (fun heq => absurd heq (by decide)) not₁
  have old : ∀ {s' ops}, Confined (s.table.Under ⟨3⟩) s' ops → ∀ {new : EntryId → Prop},
      Confined (fun id => s.table.Under ⟨3⟩ id ∨ new id) s' ops :=
    fun hops _ => hops.mono fun _ => Or.inl
  have hops : Confined (s.table.Under ⟨3⟩) s ops := by
    refine .cons rfl (by simpa [Request.handles] using under₄) (old ?_)
    refine .cons rfl (by simp [Request.handles]) (old ?_)
    refine .cons rfl (by simpa [Request.handles] using under₄) (old ?_)
    refine .cons rfl (by simpa [Request.handles] using ⟨.self, under₄⟩) (old ?_)
    refine .cons rfl (by simpa [Request.handles] using .self) (old ?_)
    refine .cons rfl (by simpa [Request.handles] using .self) (.cons rfl ?_ .nil)
    -- the link has come in by the step before
    refine List.forall_mem_cons.mpr ⟨Or.inl under₄, List.forall_mem_singleton.mpr (Or.inr ?_)⟩
    decide +kernel
  obtain ⟨stays, texts⟩ := trees_are_isolated h live₃ owner₃ (by decide) hops
  obtain ⟨same, path, _⟩ := stays ⟨2⟩ e₂ live₂ not₂
  -- the only link is that of the root, to the first variable
  have links : ∀ i < s.table.slots.size, ∀ e ∈ s.table.get? ⟨i⟩,
      e.storage.linksTo (if i = 5 then [⟨0⟩] else []) = true := by decide +kernel
  have within : ∀ id e target, s.table.get? id = some e → e.storage = .linked target →
      target.Within fun v => v ∈ if id.index = 5 then [⟨0⟩] else [] :=
    fun id e target live =>
      Storage.within_of_linksTo (links id.index (Table.index_lt_of_get? live) e live)
  refine ⟨h, ⟨e₃, live₃, owner₃⟩, hops, ⟨e₂, live₂, same, path⟩,
    texts (fun v => v ∈ [⟨0⟩]) ?_ ?_ ?_⟩
  · intro id e target _ live hlink
    refine (within id e target live hlink).mono fun v hv => ?_
    split at hv
    · exact hv
    · exact absurd hv (by simp)
  · intro id e target hu live hlink
    refine (within id e target live hlink).mono fun v hv => ?_
    rw [if_neg] at hv
    · exact absurd hv (by simp)
    · intro hi
      exact not₅ (EntryId.eq_of_index (b := ⟨5⟩) hi ▸ hu)
  · intro op hop new target hnew hlink
    have brought : ∀ op ∈ ops, ∀ new ∈ op.registers, new.storage.linksTo [⟨1⟩] = true := by
      decide +kernel
    refine (Storage.within_of_linksTo (brought op hop new hnew) hlink).mono ?_
    rintro v hv hv'
    rw [List.mem_singleton.mp hv] at hv'
    exact absurd hv' (by decide)

end Session

end Settings
