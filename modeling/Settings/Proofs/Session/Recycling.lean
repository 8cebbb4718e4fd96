import Mathlib.Order.Bounds.Basic
import Settings.Proofs.Session.KnownHandles
import Settings.Proofs.Session.Operating
import Settings.Proofs.Session.Validation

/-!
# Slots are used again

What comes in takes the slot that was emptied last, and there is a new slot only where none is
empty. So however a host has worked on a table, there are as many slots as there were entries at the
fullest moment, and the handles that are or were in use are those below that number
(`Session.Recycles`).

The free list is a stack. If nothing else comes in or goes, as many temporaries as were released
have the same handles again, the last one first, and what else is free stays so. It does not matter
what is done in between as long as the free list is left as it was (`Session.Among`).
-/

set_option autoImplicit false

namespace Settings

namespace Table

variable {t u : Table} {s : Store} {id : EntryId}

/-- The handles that can be read off the table. -/
inductive Exposes (t : Table) (s : Store) : EntryId → Prop
  | root : Exposes t s root
  | owner {id owner : EntryId} {e : Entry} (live : t.get? id = some e)
      (owned : e.owner = some owner) : Exposes t s owner
  | entry {scope id : EntryId} {ids : List EntryId} (listed : t.entries scope = .ok ids)
      (mem : id ∈ ids) : Exposes t s id
  | builtin {scope id : EntryId} {ids : List EntryId} (listed : t.builtins scope = .ok ids)
      (mem : id ∈ ids) : Exposes t s id
  | broken {scope id : EntryId} {ids : List EntryId} (listed : t.validate s scope = .ok ids)
      (mem : id ∈ ids) : Exposes t s id

/-- Those are in use. -/
theorem Sound.contains_of_exposes (h : t.Sound) (hid : t.Exposes s id) : t.contains id = true := by
  -- both lists of a scope are lists of its children
  have child {scope : EntryId} {ids : List EntryId} {list : ScopeBody → List EntryId}
      (hlist : ∀ b, list b ⊆ b.children)
      (listed : (t.entry scope).map (fun e => (e.scope?.map list).getD []) = .ok ids)
      (mem : id ∈ ids) : t.contains id = true := by
    cases he : t.entry scope with
    | error x =>
      rw [he] at listed
      exact absurd listed (by simp [Except.map])
    | ok p =>
      rw [he] at listed
      obtain rfl := Except.ok.inj listed
      cases hb : p.scope? with
      | none => simp [hb] at mem
      | some b =>
        have hchild : id ∈ b.children := hlist b (by simpa [hb] using mem)
        obtain ⟨e, live, _⟩ := (h.scope scope p b (entry_eq_ok.mp he) hb).child id hchild
        exact contains_iff.mpr ⟨e, live⟩
  cases hid with
  | root =>
    obtain ⟨e, b, live, _⟩ := h.root
    exact contains_iff.mpr ⟨e, live⟩
  | owner live owned =>
    obtain ⟨p, b, hp, _⟩ := h.owned _ _ _ live owned
    exact contains_iff.mpr ⟨p, hp⟩
  | entry listed mem => exact child (fun b => List.subset_append_left _ _) listed mem
  | builtin listed mem => exact child (fun b => List.subset_append_right _ _) listed mem
  | @broken scope id ids listed mem =>
    cases htree : t.tree scope with
    | error x =>
      rw [validate, htree] at listed
      exact absurd listed (by simp [Except.map])
    | ok x =>
      rw [validate, htree] at listed
      obtain rfl := Except.ok.inj listed
      obtain ⟨⟨id', e⟩, hmem, rfl⟩ := List.mem_map.mp mem
      obtain ⟨⟨hx, -⟩, rfl⟩ := tree_eq_ok_iff.mp htree
      obtain ⟨_, live, _⟩ := hx.mem_settingsAll.mp (List.mem_filter.mp hmem).1
      exact contains_iff.mpr ⟨e, live⟩

theorem SameSlots.nextSlots (h : t.SameSlots u) (n : Nat) : u.nextSlots n = t.nextSlots n := by
  unfold Table.nextSlots
  rw [h.1, h.2]

theorem SameSlots.takes (h : t.SameSlots u) : t.Takes 0 u := ⟨h.1, by simp [h.2]⟩

/-- As many handles as are on top of the free list are next. -/
theorem nextSlots_of_free {top rest : List EntryId} (h : t.free = top ++ rest) :
    t.nextSlots top.length = top := by
  simp [nextSlots, h]

end Table

namespace Session

/-! ## The fullest moment -/

variable {s s' s₁ s₂ : Session} {ops : List Operation} {ids js : List EntryId} {id : EntryId}

theorem hasSlot_iff_moment {name description : String} :
    ((fresh name description).after ops).table.HasSlot id ↔
      ∃ t ∈ (fresh name description).moments ops, t.contains id = true := by
  have sound := Table.sound_withRoot name description
  have leads := (fresh name description).leads_moments ops sound
  refine ⟨fun hid => ?_, hasSlot_of_moment sound⟩
  by_cases hroot : id = Table.root
  · -- the root has been there from the first
    exact ⟨_, leads.first_mem, hroot ▸ rfl⟩
  · have hindex : id.index ≠ 0 := fun hzero => hroot (EntryId.eq_of_index hzero)
    exact leads.seen hid (show 1 ≤ id.index by omega)

/-! ## The free list as a stack -/

/-- The temporary has been released. -/
inductive Releases (s : Session) (id : EntryId) : Session → Prop
  | release {t : Table} {st : Store}
      (answered : (Request.release id).answer s.table s.store = .ok (.ok (), t, st)) :
      Releases s id { s with table := t, store := st }
  | ifTemporary {t : Table} {st : Store}
      (answered : (Request.releaseIfTemporary id).answer s.table s.store = .ok (true, t, st)) :
      Releases s id { s with table := t, store := st }

/-- The temporary has been made. -/
inductive Makes (s : Session) (id : EntryId) : Session → Prop
  | makeTemp {value : Scalar} {t : Table} {st : Store}
      (answered : (Request.makeTemp value).answer s.table s.store = .ok (id, t, st)) :
      Makes s id { s with table := t, store := st }

/-- The steps with the handles are done one after the other, among other operations that leave the
free list and the number of slots as they were, as all requests do that move no entries
(`Request.sameSlots_answer`). -/
inductive Among (Step : Session → EntryId → Session → Prop) :
    Session → List EntryId → Session → Prop
  | none {s : Session} : Among Step s [] s
  | other {s s' : Session} {op : Operation} {ids : List EntryId}
      (same : s.table.SameSlots (op.run s).table) (rest : Among Step (op.run s) ids s') :
      Among Step s ids s'
  | step {s s₁ s' : Session} {id : EntryId} {ids : List EntryId} (first : Step s id s₁)
      (rest : Among Step s₁ ids s') : Among Step s (id :: ids) s'

theorem Releases.released (h : s.table.Sound) (hr : Releases s id s') :
    s.table.Released id s'.table := by
  cases hr with
  | release answered => exact (Table.release_atomic h id).of_ok (Request.edited_eq_ok answered).1
  | ifTemporary answered =>
    rcases (Request.releaseIfTemporary_eq_ok h answered).2 with ⟨hfalse, _⟩ | ⟨_, hreleased⟩
    · exact absurd hfalse (by simp)
    · exact hreleased

/-- What is released goes on top of what is free. -/
theorem Among.free_of_releases (hr : Among Releases s ids s') (h : s.table.Sound) :
    s'.table.free = ids.reverse ++ s.table.free ∧ s'.table.slots.size = s.table.slots.size := by
  induction hr with
  | none => exact ⟨rfl, rfl⟩
  | @other s s' op ids same rest ih =>
    obtain ⟨hfree, hsize⟩ := ih (Table.kept_sound.run op s h)
    exact ⟨by rw [hfree, same.1], hsize.trans same.2⟩
  | @step s s₁ s' id ids first rest ih =>
    have hreleased := first.released h
    obtain ⟨hfree, hsize⟩ := ih (h.released hreleased)
    obtain ⟨e, live, ht, hvacate⟩ := hreleased
    refine ⟨?_, hsize.trans (by simp [hvacate, Table.vacate])⟩
    simp [hfree, hvacate, Table.vacate]

/-- What is made has the handles that are next. -/
theorem Among.nextSlots_of_makes (hm : Among Makes s js s') :
    js = s.table.nextSlots js.length ∧ s.table.Takes js.length s'.table := by
  induction hm with
  | none => exact ⟨by simp [Table.nextSlots], Table.SameSlots.takes ⟨rfl, rfl⟩⟩
  | @other s s' op js same rest ih =>
    obtain ⟨hnext, htakes⟩ := ih
    exact ⟨hnext.trans (same.nextSlots _), Nat.zero_add js.length ▸ same.takes.trans htakes⟩
  | @step s s₁ s' id js first rest ih =>
    obtain ⟨hnext, htakes⟩ := ih
    cases first with
    | @makeTemp value t st answered =>
      obtain ⟨rfl, rfl, -⟩ := Request.makeTemp_eq_ok answered
      have one := Table.Takes.alloc s.table (.temp value)
      rw [List.length_cons, Nat.add_comm]
      refine ⟨?_, one.trans htakes⟩
      rw [one.nextSlots_add, ← hnext, Table.nextSlots_one]
      rfl

/-- As many as were released get the same handles, the last one first. -/
theorem makes_after_releases (h : s.table.Sound) (hr : Among Releases s ids s₁)
    (hm : Among Makes s₁ js s₂) (hlen : js.length = ids.length) :
    js = ids.reverse ∧ s.table.SameSlots s₂.table := by
  obtain ⟨hfree, hsize⟩ := hr.free_of_releases h
  obtain ⟨hnext, htakes⟩ := hm.nextSlots_of_makes
  have hlen' : js.length = ids.reverse.length := by rw [hlen, List.length_reverse]
  rw [hlen'] at hnext htakes
  refine ⟨hnext.trans (Table.nextSlots_of_free hfree), ?_, ?_⟩
  · rw [htakes.free, hfree, List.drop_left]
  · rw [htakes.size, hfree, hsize, List.length_append]
    omega

/-! ## Replies -/

theorem run_ask_of_answer {r : Request} {reply : r.Reply} {t : Table} {st : Store}
    (hr : r.answer s.table s.store = .ok (reply, t, st)) :
    (Operation.ask r).run s = { s with table := t, store := st } :=
  congrArg Prod.snd (run_ask_answered (ε := Empty) hr)

/-- What a request returns was in the request or has a slot, also when the run has gone on. -/
theorem hasSlot_of_returned (h : s.table.Sound) {r : Request}
    (hid : id ∈ (Operation.ask r).returns s) (rest : List Operation) :
    id ∈ r.uses ∨ (s.after (.ask r :: rest)).table.HasSlot id := by
  cases hr : r.answer s.table s.store with
  | error x => simp [Operation.returns, hr] at hid
  | ok answer =>
    obtain ⟨reply, t, st⟩ := answer
    have hgives : id ∈ r.gives reply := by simpa [Operation.returns, hr] using hid
    have later := (leads_moments (s := { s with table := t, store := st }) rest
      (Request.sound_answer h hr)).slots_le
    refine (Request.hasSlot_of_gives h hr hgives).imp_right fun hlive => ?_
    show (((Operation.ask r).run s).after rest).table.HasSlot id
    rw [run_ask_of_answer hr]
    exact (Table.hasSlot_of_contains hlive).mono later

/-! ## Both in a row -/

theorem among_releases (h : s.table.Sound) (nodup : ids.Nodup)
    (temporary : ∀ id ∈ ids, ∃ e, s.table.get? id = some e ∧ e.temporary = true) :
    Among Releases s ids (s.after (ids.map fun id => .ask (.release id))) := by
  induction ids generalizing s with
  | nil => exact .none
  | cons id ids ih =>
    obtain ⟨hid, nodup⟩ := List.nodup_cons.mp nodup
    obtain ⟨⟨e, live, ht⟩, temporary⟩ := List.forall_mem_cons.mp temporary
    have answered : (Request.release id).answer s.table s.store =
        .ok (.ok (), s.table.vacate id, s.store) := by
      show Request.answer.edited s.store ((Table.release id).run s.table) = _
      rw [Table.run_release h live, ht]
      rfl
    have hrun := run_ask_of_answer answered
    refine .step (.release answered) ?_
    show Among Releases _ ids (((Operation.ask (.release id)).run s).after _)
    rw [hrun]
    refine ih (h.released ⟨e, live, ht, rfl⟩) nodup fun other hother => ?_
    obtain ⟨e', live', ht'⟩ := temporary other hother
    have hne : other ≠ id := fun heq => hid (heq ▸ hother)
    exact ⟨e', by rw [Table.get?_vacate, if_neg hne, live'], ht'⟩

theorem among_makes (values : List Scalar) (s : Session) :
    ∃ js, js.length = values.length ∧
      Among Makes s js (s.after (values.map fun value => .ask (.makeTemp value))) := by
  induction values generalizing s with
  | nil => exact ⟨[], rfl, .none⟩
  | cons value values ih =>
    have answered : (Request.makeTemp value).answer s.table s.store =
      .ok ((s.table.alloc (.temp value)).1, (s.table.alloc (.temp value)).2, s.store) := rfl
    obtain ⟨js, hlen, hmakes⟩ := ih { s with table := (s.table.alloc (.temp value)).2 }
    exact ⟨_ :: js, congrArg (· + 1) hlen, .step (.makeTemp answered) hmakes⟩

/-! ## All runs -/

/-- What holds of the slots after the operations. -/
structure Recycles (start : Session) (ops : List Operation) : Prop where
  /-- No moment is left out: from each to the next at most one slot is taken or emptied. -/
  moments : start.table.Leads (start.moments ops) (start.after ops).table
  /-- There are as many slots as there were entries at the fullest moment. -/
  peak : IsGreatest {n | ∃ t ∈ start.moments ops, t.size = n} (start.after ops).table.slots.size
  /-- The handles below that are those that entries have had. -/
  handles : ∀ id : EntryId, id.index < (start.after ops).table.slots.size ↔
    ∃ t ∈ start.moments ops, t.contains id = true
  /-- If no handle was made up, all that were returned are among them. -/
  returned : start.KeepsToKnown ops →
    ∀ id ∈ start.returned ops, id.index < (start.after ops).table.slots.size
  /-- What a request returns is among them too, or was in the request. -/
  replies : ∀ before r rest, ops = before ++ .ask r :: rest →
    ∀ id ∈ (Operation.ask r).returns (start.after before),
      id ∈ r.uses ∨ id.index < (start.after ops).table.slots.size
  /-- So are those that can be read off the table. -/
  exposed : ∀ id, (start.after ops).table.Exposes (start.after ops).store id →
    id.index < (start.after ops).table.slots.size
  /-- As many temporaries as were released have the same handles again, whatever else is free. -/
  again : ∀ ids s js s', Among Releases (start.after ops) ids s → Among Makes s js s' →
    js.length = ids.length → js = ids.reverse ∧ (start.after ops).table.SameSlots s'.table
  /-- Temporaries can be released in any order, and others made. -/
  possible : ∀ (ids : List EntryId) (values : List Scalar), ids.Nodup →
    (∀ id ∈ ids, ∃ e, (start.after ops).table.get? id = some e ∧ e.temporary = true) →
    values.length = ids.length →
      let s := (start.after ops).after (ids.map fun id => .ask (.release id))
      let s' := s.after (values.map fun value => .ask (.makeTemp value))
      Among Releases (start.after ops) ids s ∧ Among Makes s ids.reverse s'

/-- Slots are used again before the table grows. -/
theorem slots_are_recycled (name description : String) (ops : List Operation) :
    (fresh name description).Recycles ops := by
  have sound₀ := Table.sound_withRoot name description
  have leads := (fresh name description).leads_moments ops sound₀
  have sound := Table.kept_sound.after ops (s := fresh name description) sound₀
  constructor
  case moments => exact leads
  case peak =>
    constructor
    · rcases leads.peak with hsize | hpeak
      · -- no slot has come in, and that of the root was in use from the first
        exact ⟨_, leads.first_mem, hsize.symm⟩
      · exact hpeak
    · rintro _ ⟨t, ht, rfl⟩
      exact (Nat.sub_le _ _).trans (leads.slots_le_last ht)
  case handles => exact fun id => hasSlot_iff_moment
  case returned =>
    exact fun hops => (closed_after (Table.closed_withRoot name description) hops).2
  case replies =>
    rintro before r rest rfl id hid
    rw [after_append]
    exact hasSlot_of_returned (Table.kept_sound.after before sound₀) hid rest
  case exposed => exact fun id hid => Table.hasSlot_of_contains (sound.contains_of_exposes hid)
  case again => exact fun ids s js s' => makes_after_releases sound
  case possible =>
    intro ids values nodup temporary hlen s s'
    have hreleases := among_releases sound nodup temporary
    obtain ⟨js, hjs, hmakes⟩ := among_makes values s
    obtain ⟨rfl, _⟩ := makes_after_releases sound hreleases hmakes (hjs.trans hlen)
    exact ⟨hreleases, hmakes⟩

/-- Two temporaries, a function, a registration that is refused, a copy that is released, and a call
of the function: five slots, and one of them is empty. The temporaries are released, and others get
their handles. -/
theorem released_pair_comes_back :
    let start := fresh "root" ""
    let ops : List Operation :=
      [.ask (.makeTemp (.text "a")), .ask (.makeTemp (.text "b")),
        .define Table.root "ident" (Stock.ident "ident") "" true,
        .ask (.register Table.root "ident" "" .number), .ask (.clone ⟨1⟩), .ask (.release ⟨4⟩),
        .invoke ⟨3⟩ [⟨1⟩]]
    let s := (start.after ops).after [.ask (.release ⟨2⟩), .ask (.release ⟨1⟩)]
    let s' := s.after [.ask (.makeTemp (.text "c")), .ask (.makeTemp (.text "d"))]
    start.returned ops = [⟨1⟩, ⟨2⟩, ⟨3⟩, ⟨4⟩, ⟨1⟩] ∧
      (∀ id ∈ start.returned ops, id.index < (start.after ops).table.slots.size) ∧
      (start.after ops).table.slots.size = 5 ∧ (start.after ops).table.size = 4 ∧
      (∃ t ∈ start.moments ops, t.size = 5) ∧ Among Releases (start.after ops) [⟨2⟩, ⟨1⟩] s ∧
      Among Makes s [⟨1⟩, ⟨2⟩] s' ∧ (start.after ops).table.SameSlots s'.table := by
  intro start ops s s'
  have recycles : start.Recycles ops := slots_are_recycled "root" "" ops
  have keeps : start.KeepsToKnown ops := by
    -- each handle is that of an entry that is live at the last moment so far
    have now {before : List Operation} {id : EntryId}
        (h : (start.after before).table.contains id = true) :
        ∃ t ∈ start.moments before, t.contains id = true :=
      ⟨_, (start.leads_moments before (Table.sound_withRoot "root" "")).last_mem, h⟩
    show start.KeepsToKnown ([] ++ [_] ++ [_] ++ [_] ++ [_] ++ [_] ++ [_] ++ [_])
    refine (((((((keepsToKnown_nil start).concat ?_).concat ?_).concat ?_).concat ?_).concat
      ?_).concat ?_).concat ?_
    · simp [Operation.KeepsTo, Request.uses, Request.handles]
    · simp [Operation.KeepsTo, Request.uses, Request.handles]
    · exact ⟨now (by decide +kernel), (Stock.passesOn_ident "ident").keepsTo _⟩
    · exact List.forall_mem_singleton.mpr (now (by decide +kernel))
    · exact List.forall_mem_singleton.mpr (now (by decide +kernel))
    · exact List.forall_mem_singleton.mpr (now (by decide +kernel))
    · exact ⟨now (by decide +kernel), List.forall_mem_singleton.mpr (now (by decide +kernel))⟩
  have temporary : ∀ id ∈ [(⟨2⟩ : EntryId), ⟨1⟩],
      ∃ e, (start.after ops).table.get? id = some e ∧ e.temporary = true := by
    have marked : ∀ id ∈ [(⟨2⟩ : EntryId), ⟨1⟩],
        ((start.after ops).table.get? id).map Entry.temporary = some true := by decide +kernel
    exact fun id hid => Option.map_eq_some_iff.mp (marked id hid)
  obtain ⟨releases, makes⟩ := recycles.possible [⟨2⟩, ⟨1⟩] [.text "c", .text "d"] (by decide)
    temporary rfl
  have size : (start.after ops).table.slots.size = 5 := by decide +kernel
  refine ⟨by decide +kernel, recycles.returned keeps, size, by decide +kernel, ?_, releases,
    makes, (recycles.again _ _ _ _ releases makes rfl).2⟩
  obtain ⟨t, ht, htsize⟩ := recycles.peak.1
  exact ⟨t, ht, htsize.trans size⟩

end Session
end Settings
