import Settings.Proofs.Listing.Live
import Settings.Proofs.Session.Renaming
import Settings.Proofs.Session.Validation

/-!
# What recording changes

Recording the defaults under an entry goes through registered children only, and of each entry that
it comes to it writes one field of the header. `Table.RecordsOnly` says what that leaves alone: all
of the entries that are not reached, be they elsewhere or on a list of builtins, whatever holds no
value, and of those that hold one everything but the recorded text. The slots and the free list are
those of before, and nothing at all is written to the host.

The text that is recorded is the one that is read, and recording does not change what is read. So
the listing shows live values afterwards, and a second recording finds nothing to change.
-/

set_option autoImplicit false

namespace Settings

variable {s : Store}

theorem Entry.recordDefault_recordDefault (e : Entry) (s : Store) :
    (e.recordDefault s).recordDefault s = e.recordDefault s := by
  cases hread : e.readText s with
  | error _ =>
    have hsame : e.recordDefault s = e := by
      unfold recordDefault
      rw [hread]
    rw [hsame, hsame]
  | ok text =>
    have hread' := (e.readText_recordDefault s s).trans hread
    rw [Table.recordDefault_of_readText hread', Table.recordDefault_of_readText hread]

namespace Tree

mutual

theorem registered_recorded (s : Store) : ∀ x : Tree, (x.recorded s).registered = x.registered
  | node id e es bs => by
    simp only [recorded, registered, registeredAll_recordedAll s es]

theorem registeredAll_recordedAll (s : Store) :
    ∀ xs : List Tree, registeredAll (recordedAll s xs) = registeredAll xs
  | [] => by simp [recordedAll]
  | x :: xs => by
    simp only [recordedAll, registeredAll, registered_recorded s x, registeredAll_recordedAll s xs]

end

end Tree

namespace Table

variable {t t' : Table} {id : EntryId} {x : Tree}

/-! ## Slots -/

/-- As many slots as before, and the same ones empty, in the same order. -/
def SameSlots (t t' : Table) : Prop := t'.free = t.free ∧ t'.slots.size = t.slots.size

theorem SameSlots.set {u : Table} (h : t.SameSlots u) (id : EntryId) (e : Entry) :
    t.SameSlots (u.set id e) :=
  ⟨h.1, (by simp [Table.set] : (u.set id e).slots.size = u.slots.size).trans h.2⟩

theorem sameSlots_updateWithin {ε : Type} (s : Store) (depth : Nat) (id : EntryId) {u : Table}
    (hu : t.SameSlots u) : t.SameSlots ((updateWithin s depth id : Edit ε Unit).run u).2 := by
  induction depth generalizing u id with
  | zero => exact hu
  | succ depth ih =>
    unfold updateWithin
    cases he : (u.liveEntry id : Attempt ε Entry) with
    | error x =>
      rw [Edit.look_bind_error _ u he]
      exact hu
    | ok e =>
      rw [Edit.look_bind_ok _ u he]
      cases hb : e.scope? with
      | some b => exact forM_keeps hu fun c _ v hv => ih c hv
      | none => exact hu.set id (e.recordDefault s)

theorem sameSlots_updateDefault
    (hrun : (updateDefault s id : Edit Empty Unit).run t = (.ok (), t')) : t.SameSlots t' := by
  have hwalk : (updateDefault s id : Edit Empty Unit).run t =
      (updateWithin s (t.slots.size + 1) id).run t := Edit.look_bind_ok _ t rfl
  have hsame : t.SameSlots ((updateWithin s (t.slots.size + 1) id : Edit Empty Unit).run t).2 :=
    sameSlots_updateWithin s _ id ⟨rfl, rfl⟩
  rwa [← hwalk, hrun] at hsame

/-! ## Entries -/

/-- Recording has changed the recorded texts of the values that are reached from the entry, itself
among them, and nothing else. -/
structure RecordsOnly (t : Table) (s : Store) (id : EntryId) (t' : Table) : Prop where
  /-- Of a value that is reached the text that is read is recorded, and is what is saved. -/
  reached : ∀ y e, y = id ∨ t.Registers id y → t.get? y = some e → e.isScalar = true →
    ∃ text, e.readText s = .ok text ∧ t'.get? y = some { e with defaultText := text } ∧
      t'.readText s y = .ok text ∧ t'.serialized s y = .ok text
  /-- Scopes and functions stay as they are, wherever they are. -/
  structural : ∀ y e, t.get? y = some e → e.isScalar = false → t'.get? y = some e
  unreached : ∀ y, y ≠ id → ¬ t.Registers id y → t'.get? y = t.get? y
  builtin : ∀ scope row, t.builtins scope = .ok row → ∀ y ∈ row, y ≠ id → t'.get? y = t.get? y
  outside : ∀ y, ¬ t.Under id y → t'.get? y = t.get? y
  slots : t.SameSlots t'

theorem Recorded.recordsOnly (h : t.Recorded s x t') (sound : t.Sound)
    (htree : t.tree x.id = .ok x) (slots : t.SameSlots t') : t.RecordsOnly s x.id t' := by
  have hx := (tree_eq_ok_iff.mp htree).1.1
  have unreached (y : EntryId) (hy : y ∉ x.registered) : t'.get? y = t.get? y := by
    rw [h.found, if_neg hy]
  constructor
  case reached =>
    intro y e hreach live hscalar
    obtain ⟨text, htext⟩ := exists_readText hscalar s
    have live' : t'.get? y = some (e.recordDefault s) := by
      rw [h.found, if_pos (hx.mem_registered.mpr hreach), live, Option.map_some]
    have hsaved := Entry.serialized_recordDefault htext
    refine ⟨text, htext, recordDefault_of_readText htext ▸ live', ?_, ?_⟩
    · rw [h.readText s y, readText_of_live live, htext]
      rfl
    · rw [serialized_of_live live', hsaved]
      rfl
  case structural =>
    intro y e live hplain
    rw [h.found, live, Option.map_some, recordDefault_of_not_isScalar hplain, ite_self]
  case unreached =>
    intro y hy hreach
    exact unreached y fun hmem => (hx.mem_registered.mp hmem).elim hy hreach
  case builtin =>
    intro scope row found y hmem hy
    have hreach : ¬ t.Registers x.id y := sound.not_registers_of_builtin found hmem
    exact unreached y fun hmem => (hx.mem_registered.mp hmem).elim hy hreach
  case outside =>
    intro y hunder
    exact unreached y fun hmem =>
      hunder ((hx.mem_ids sound).mp (x.registered_sublist_ids.subset hmem))
  case slots => exact slots

/-- What has just been recorded is recorded again. -/
theorem Recorded.run_again (h : t.Recorded s x t') :
    (updateDefault s x.id : Edit Empty Unit).run t' = (.ok (), t') := by
  obtain ⟨t'', hrun, h'⟩ := h.sound.recorded h.tree s
  obtain ⟨hfree, hsize⟩ := sameSlots_updateDefault hrun
  have hsame : t'' = t' := by
    refine ext_get? (fun y => ?_) hsize hfree
    rw [h'.found, Tree.registered_recorded, h.found]
    split
    · rw [Option.map_map]
      simp only [Function.comp_def, Entry.recordDefault_recordDefault]
    · rfl
  rw [hrun, hsame]

end Table

namespace Session

/-- Recording the defaults under a live entry is done, records the texts that are read and changes
nothing else, in the table or on the host. Right afterwards the listing shows live values, whatever
was recorded before, and recording once more changes nothing. -/
theorem recording_changes_defaults_only (s : Session) (h : s.table.Reachable) {id : EntryId}
    {e : Entry} (live : s.table.get? id = some e) :
    ∃ x t', s.table.tree id = .ok x ∧
      (ask (.updateDefault id) : Action Empty Unit).run s = (.ok (), { s with table := t' }) ∧
      s.table.RecordsOnly s.store id t' ∧
      (∀ indent column, t'.listingOfContents s.store id indent column =
        .ok (Listing.piecesAll indent column (Tree.liveOutlineAll s.store x.entries))) ∧
      (ask (.updateDefault id) : Action Empty Unit).run { s with table := t' } =
        (.ok (), { s with table := t' }) := by
  obtain ⟨x, htree⟩ := h.sound.exists_tree live
  obtain ⟨t', hrun, hrecorded⟩ := h.sound.recorded htree s.store
  obtain rfl := (Table.tree_eq_ok_iff.mp htree).2
  refine ⟨x, t', htree, ?_, ?_, hrecorded.listingOfContents, ?_⟩
  · exact run_ask_updateDefault hrun
  · exact hrecorded.recordsOnly h.sound htree (Table.sameSlots_updateDefault hrun)
  · exact run_ask_updateDefault hrecorded.run_again

/-- In a scope with a label, whose recorded text is out of date, and a builtin function beside it,
the label alone is written to. A note beside the scope keeps the text that was recorded for it. -/
theorem recording_of_scope_changes_label_only :
    let s := (fresh "root" "").after
      [.ask (.register Table.root "pop" "" (.scope "")), .ask (.register ⟨1⟩ "label" "" .text),
        .ask (.writeText ⟨2⟩ "new"), .ask (.edit ⟨2⟩ (.defaultText "old")),
        .define ⟨1⟩ "grow" (.variadic fun _ => .finish (.ok .unit)) "" true,
        .ask (.register Table.root "note" "" .text), .ask (.edit ⟨4⟩ (.defaultText "old"))]
    s.table.configText s.store ⟨1⟩ = .ok "label = old;\n" ∧ ∃ t',
      (ask (.updateDefault ⟨1⟩) : Action Empty Unit).run s = (.ok (), { s with table := t' }) ∧
      t'.serialized s.store ⟨2⟩ = .ok "new" ∧ t'.get? ⟨1⟩ = s.table.get? ⟨1⟩ ∧
      t'.get? ⟨3⟩ = s.table.get? ⟨3⟩ ∧ t'.get? ⟨4⟩ = s.table.get? ⟨4⟩ ∧
      t'.configText s.store ⟨1⟩ = .ok "label = new;\n" := by
  intro s
  have h : s.table.Reachable := ⟨"root", "", _, rfl⟩
  obtain ⟨pop, live⟩ : ∃ e, s.table.get? ⟨1⟩ = some e :=
    Option.isSome_iff_exists.mp (by decide +kernel)
  obtain ⟨label, llabel⟩ : ∃ e, s.table.get? ⟨2⟩ = some e :=
    Option.isSome_iff_exists.mp (by decide +kernel)
  obtain ⟨x, t', htree, hrun, only, hlisting, -⟩ := recording_changes_defaults_only s h live
  have kinds : (s.table.get? ⟨1⟩).map Entry.isScalar = some false ∧
      (s.table.get? ⟨2⟩).map Entry.isScalar = some true := by decide +kernel
  simp only [live, llabel, Option.map_some, Option.some.injEq] at kinds
  have entries : s.table.entries ⟨1⟩ = .ok [⟨2⟩] := by decide +kernel
  have builtins : s.table.builtins ⟨1⟩ = .ok [⟨3⟩] := by decide +kernel
  refine ⟨by decide +kernel, t', hrun, ?_, ?_, ?_, ?_, ?_⟩
  · have registered : s.table.Registers ⟨1⟩ ⟨2⟩ := .child entries (List.mem_singleton_self _)
    obtain ⟨text, htext, -, -, hsaved⟩ := only.reached ⟨2⟩ label (Or.inr registered) llabel kinds.2
    have hread : s.table.readText s.store ⟨2⟩ = .ok "new" := by decide +kernel
    rw [Table.readText_of_live llabel, htext] at hread
    exact hsaved.trans hread
  · exact (only.structural ⟨1⟩ pop live kinds.1).trans live.symm
  · exact only.builtin ⟨1⟩ _ builtins ⟨3⟩ (List.mem_singleton_self _) (by decide)
  · refine only.unreached ⟨4⟩ (by decide) ?_
    intro hreach
    obtain ⟨c, hc, rfl | hbelow⟩ := (Table.registers_iff entries).mp hreach
    · exact absurd hc (by decide)
    · obtain rfl : c = ⟨2⟩ := List.mem_singleton.mp hc
      have none : s.table.entries ⟨2⟩ = .ok [] := by decide +kernel
      simpa using (Table.registers_iff none).mp hbelow
  · have hshown : (s.table.tree ⟨1⟩).map (fun x => String.join (Listing.piecesAll ""
        Listing.defaultColumn (Tree.liveOutlineAll s.store x.entries))) =
          .ok "label = new;\n" := by decide +kernel
    rw [htree] at hshown
    unfold Table.configText
    rw [hlisting]
    exact hshown

end Session

end Settings
