import Settings.Proofs.Session.StaleHandles
import Settings.Proofs.Session.Ways
import Settings.Proofs.Table.Images

/-!
# Renaming

The name of an entry is kept twice, in the entry and in the index of its scope, and an edit that
gives it another one changes both. `RenamedTo` tells what is then found under each handle, and the
rest is read off it: the lists of scopes are the old ones, a path that goes through the entry has
the new name in one place and is the old one elsewhere, and other paths do not change. An entry
without an owner is in no index, and its name is in no path.

Renaming back gives the same table, since an index is told by what is found in it.
-/

set_option autoImplicit false

namespace Settings

/-- The body of a scope in which a child is found under another name than before. -/
structure ScopeBody.Relabels (b : ScopeBody) (id : EntryId) (old name : String) (b' : ScopeBody) :
    Prop where
  entries : b'.entries = b.entries
  builtins : b'.builtins = b.builtins
  structureType : b'.structureType = b.structureType
  found : b.find? old = some id
  free : old ≠ name → b.find? name = none
  index : ∀ other, b'.find? other =
    if other = name then some id else if other = old then none else b.find? other

/-- Under the two names the index finds what it found once the child has its old name again. -/
theorem ScopeBody.Relabels.back {b b' b'' : ScopeBody} {id : EntryId} {old name : String}
    (h : b.Relabels id old name b') (h' : b'.Relabels id name old b'') : b'' = b := by
  apply ScopeBody.ext_find? (h'.entries.trans h.entries) (h'.builtins.trans h.builtins) _
    (h'.structureType.trans h.structureType)
  intro other
  rw [h'.index, h.index]
  by_cases hold : other = old
  · rw [if_pos hold, hold, h.found]
  · rw [if_neg hold]
    by_cases hname : other = name
    · rw [if_pos hname, hname, h.free fun heq => hold (hname.trans heq.symm)]
    · rw [if_neg hname, if_neg hname, if_neg hold]

/-- Tables in which the same is found under all handles, with the same free list and as many slots,
are the same. -/
theorem Table.ext_get? {t t' : Table} (hget : ∀ id, t.get? id = t'.get? id)
    (hslots : t.slots.size = t'.slots.size) (hfree : t.free = t'.free) : t = t' := by
  have hsame : t.slots = t'.slots := by
    apply Array.ext hslots
    intro i hi hi'
    have hfound : t.get? ⟨i⟩ = t'.get? ⟨i⟩ := hget ⟨i⟩
    simpa [Table.get?, hi, hi'] using hfound
  cases t
  cases t'
  simp_all

namespace Table

open Edit

variable {t t' : Table} {id scope : EntryId} {e p : Entry} {b : ScopeBody} {name : String}

/-- The entry has the name, and its scope, if it has one, finds it by that name. -/
structure RenamedTo (t : Table) (id : EntryId) (e : Entry) (name : String) (t' : Table) : Prop where
  entry : t'.get? id = some { e with name := name }
  body : ∀ scope, e.owner = some scope → ∃ p b b', t.get? scope = some p ∧ p.scope? = some b ∧
    t'.get? scope = some { p with storage := .scope b' } ∧ b.Relabels id e.name name b'
  kept : ∀ y, y ≠ id → e.owner ≠ some y → t'.get? y = t.get? y
  free : t'.free = t.free
  slots : t'.slots.size = t.slots.size

/-- What becomes of paths and of what scopes find if the entry is in a scope: its name is in the
paths of all that lies under it, in the place after the names of the scope. -/
structure RenamedIn (t : Table) (scope id : EntryId) (e : Entry) (name : String) (t' : Table) :
    Prop where
  paths : ∃ above, t.namesOf scope = .ok above ∧ t'.namesOf scope = .ok above ∧
    ∀ d, t.Under id d → ∃ below,
      t.namesOf d = .ok (above ++ e.name :: below) ∧
      t'.namesOf d = .ok (above ++ name :: below) ∧
      t.pathOf d = .ok (pathOfNames (above ++ e.name :: below)) ∧
      t'.pathOf d = .ok (pathOfNames (above ++ name :: below))
  otherPaths : ∀ d, ¬ t.Under id d → t'.pathOf d = t.pathOf d
  finds : t'.find? scope name = .ok (some id)
  findsNothing : e.name ≠ name → t'.find? scope e.name = .ok none
  otherFinds : ∀ y other, (y = scope → other ≠ name ∧ other ≠ e.name) →
    t'.find? y other = t.find? y other

/-- Nothing but the name of the entry is different. -/
structure RenamedAlone (t t' : Table) : Prop where
  paths : ∀ d, t'.pathOf d = t.pathOf d
  finds : ∀ y other, t'.find? y other = t.find? y other
  bodies : ∀ y, (t'.get? y).map Entry.scope? = (t.get? y).map Entry.scope?

/-! ## The outcome -/

theorem Relabelled.free (hu : t.Relabelled id e name t') : t'.free = t.free := by
  rcases hu with ⟨_, rfl⟩ | ⟨scope, p, b, _, _, _, _, rfl⟩
  · rfl
  · exact free_update t scope _

theorem Relabelled.size_slots (hu : t.Relabelled id e name t') :
    t'.slots.size = t.slots.size := by
  rcases hu with ⟨_, rfl⟩ | ⟨scope, p, b, _, _, _, _, rfl⟩
  · rfl
  · exact size_slots_update t scope _

/-- An entry that has the name already. -/
theorem Sound.renamedTo_self (h : t.Sound) (live : t.get? id = some e) :
    t.RenamedTo id e e.name t where
  entry := live
  body := by
    intro scope howner
    obtain ⟨p, b, lp, hb, found⟩ := h.owner_finds live howner
    refine ⟨p, b, b, lp, hb, ?_, rfl, rfl, rfl, found, fun hne => absurd rfl hne, ?_⟩
    · rw [← scope?_eq_some hb]
      exact lp
    · intro other
      by_cases ho : other = e.name
      · rw [if_pos ho, ho, found]
      · rw [if_neg ho, if_neg ho]
  kept := fun _ _ _ => rfl
  free := rfl
  slots := rfl

theorem Relabelled.renamedTo (h : t.Sound) {u : Table} (hu : t.Relabelled id e name u)
    (live : t.get? id = some e) :
    t.RenamedTo id e name (u.update id fun e => { e with name := name }) := by
  obtain ⟨atId, atScope, elsewhere⟩ := hu.found h live rfl
  constructor
  case entry => exact atId
  case body =>
    intro scope howner
    obtain ⟨p, b, lp, hb, found⟩ := h.owner_finds live howner
    obtain ⟨hfree, lp'⟩ := atScope scope p b howner lp hb
    exact ⟨p, b, b.relabel id e.name name, lp, hb, lp', rfl, rfl, rfl, found, fun _ => hfree,
      find?_relabel b id e.name name⟩
  case kept => exact elsewhere
  case free => exact (free_update _ _ _).trans hu.free
  case slots => exact (size_slots_update _ _ _).trans hu.size_slots

theorem Renamed.renamedTo (h : t.Sound) (hr : t.Renamed id name t') (live : t.get? id = some e) :
    t.RenamedTo id e name t' := by
  obtain ⟨e', live', _, ⟨rfl, rfl⟩ | ⟨_, u, hu, rfl⟩⟩ := hr
  · obtain rfl := Option.mem_unique live live'
    exact h.renamedTo_self live
  · obtain rfl := Option.mem_unique live live'
    exact hu.renamedTo h live

/-- A name that no other child of the scope has is not refused. -/
theorem exists_run_rename (live : t.get? id = some e) (hname : name ≠ "")
    (hfree : ∀ scope, e.owner = some scope → e.name ≠ name →
      ∃ p b, t.get? scope = some p ∧ p.scope? = some b ∧ b.find? name = none) :
    ∃ t', (rename id name).run t = (.ok (), t') := by
  have hstart : (rename id name).run t = ((if e.name = name then return ()
      else do
        relabel e.owner id e.name name
        change (·.update id fun e => { e with name := name })) : Edit TreeError Unit).run t := by
    unfold rename
    refine (refuseIf_bind_neg t hname _ _).trans ?_
    exact look_bind_ok _ t (liveEntry_eq_ok.mpr live)
  rw [hstart]
  by_cases heq : e.name = name
  · rw [if_pos heq]
    exact ⟨t, rfl⟩
  · rw [if_neg heq]
    cases howner : e.owner with
    | none => exact ⟨_, (bind_ok _ (run_pure () t)).trans (run_change _ t)⟩
    | some scope =>
      obtain ⟨p, b, lp, hb, hfound⟩ := hfree scope howner heq
      have hrelabel : (relabel (some scope) id e.name name).run t =
          (.ok (), t.setBody scope (b.relabel id e.name name)) :=
        (look_bind_ok _ t (requireFree_eq_ok.mpr ⟨p, lp, hb, hfound⟩)).trans (run_change _ t)
      exact ⟨_, (bind_ok _ hrelabel).trans (run_change _ _)⟩

/-! ## What is found and what is not touched -/

theorem lists_of_scope? (live : t.get? id = some e) (hb : e.scope? = some b) :
    t.entries id = .ok b.entries ∧ t.builtins id = .ok b.builtins := by
  unfold entries builtins
  rw [entry_eq_ok.mpr live]
  simp [Except.map, hb]

namespace RenamedTo

theorem keeps (hr : t.RenamedTo id e name t') (live : t.get? id = some e)
    {y : EntryId} {ey : Entry} (ly : t.get? y = some ey) :
    ∃ ey', t'.get? y = some ey' ∧ ey'.owner = ey.owner ∧ (y ≠ id → ey'.name = ey.name) := by
  by_cases hy : y = id
  · subst hy
    obtain rfl := Option.mem_unique live ly
    exact ⟨_, hr.entry, rfl, fun hne => absurd rfl hne⟩
  · by_cases hs : e.owner = some y
    · obtain ⟨p, b, b', lp, _, lp', _⟩ := hr.body y hs
      obtain rfl := Option.mem_unique ly lp
      exact ⟨_, lp', rfl, fun _ => rfl⟩
    · exact ⟨ey, (hr.kept y hy hs).trans ly, rfl, fun _ => rfl⟩

theorem lists (hr : t.RenamedTo id e name t') (live : t.get? id = some e) (y : EntryId) :
    t'.entries y = t.entries y ∧ t'.builtins y = t.builtins y := by
  by_cases hs : e.owner = some y
  · obtain ⟨p, b, b', lp, hb, lp', hrelabels⟩ := hr.body y hs
    obtain ⟨hentries, hbuiltins⟩ := lists_of_scope? lp hb
    obtain ⟨hentries', hbuiltins'⟩ := lists_of_scope? lp' rfl
    rw [hentries, hentries', hbuiltins, hbuiltins', hrelabels.entries, hrelabels.builtins]
    exact ⟨rfl, rfl⟩
  · unfold entries builtins Table.entry
    by_cases hy : y = id
    · rw [hy, hr.entry, live]
      exact ⟨rfl, rfl⟩
    · rw [hr.kept y hy hs]
      exact ⟨rfl, rfl⟩

theorem keepsPlace (hr : t.RenamedTo id e name t') (live : t.get? id = some e) {y : EntryId}
    (hy : y ≠ id) : t.KeepsPlace t' y := by
  intro ey ly
  obtain ⟨ey', ly', howner, hname⟩ := hr.keeps live ly
  exact ⟨ey', ly', howner, hname hy⟩

/-- The table is as it was where the entry is neither the one with the name nor its scope. -/
theorem find?_eq (hr : t.RenamedTo id e name t') (live : t.get? id = some e) {y : EntryId}
    (hs : e.owner ≠ some y) (other : String) : t'.find? y other = t.find? y other := by
  unfold Table.find? Table.entry
  by_cases hy : y = id
  · rw [hy, hr.entry, live]
    rfl
  · rw [hr.kept y hy hs]

/-- The path of an entry that does not lie under the one with the name. -/
theorem otherPaths (h : t.Sound) (h' : t'.Sound) (hr : t.RenamedTo id e name t')
    (live : t.get? id = some e) {d : EntryId} (hd : ¬ t.Under id d) : t'.pathOf d = t.pathOf d := by
  cases ld : t.get? d with
  | none =>
    have hne : d ≠ id := fun heq => hd (heq ▸ .self)
    have hs : e.owner ≠ some d := fun howner => by
      obtain ⟨p, _, lp, _⟩ := h.owned id e d live howner
      rw [ld] at lp
      exact absurd lp (by simp)
    unfold Table.pathOf
    rw [chain_eq_error ld, chain_eq_error ((hr.kept d hne hs).trans ld)]
  | some ed =>
    refine h.pathOf_of_keepsPlace h' ld fun x ex hx lx => ?_
    obtain ⟨ex', lx', howner, hname⟩ := hr.keeps live lx
    exact ⟨ex', lx', howner, fun _ => hname fun heq => hd (heq ▸ hx)⟩

theorem renamedIn (h : t.Sound) (h' : t'.Sound) (hr : t.RenamedTo id e name t')
    (live : t.get? id = some e) (howner : e.owner = some scope) :
    t.RenamedIn scope id e name t' := by
  obtain ⟨p, b, b', lp, hb, lp', hrelabels⟩ := hr.body scope howner
  have hfind : ∀ other, t'.find? scope other = .ok (b'.find? other) :=
    fun other => find?_eq_ok lp' other
  obtain ⟨n, hn⟩ := h.level id e live
  have hunder : ¬ t.Under id scope := hn.not_under_owned live howner
  constructor
  case paths =>
    obtain ⟨top, etop, above, ltop, htop, hscope⟩ := h.exists_way lp
    have htopne : top ≠ id := fun heq => hunder (heq ▸ hscope.under)
    obtain ⟨etop', ltop', htop', _⟩ := hr.keeps live ltop
    have detached' : etop'.owner = none := htop'.trans htop
    -- neither the way to the scope nor the ways from the entry are touched
    have hscope' : t'.Way top scope above := hscope.carried h fun x _ hx _ =>
      hr.keepsPlace live fun heq => hunder (heq ▸ hx)
    have hid : t.Way top id (above ++ [e.name]) := .owned live howner hscope
    have hid' : t'.Way top id (above ++ [({ e with name := name } : Entry).name]) :=
      .owned hr.entry howner hscope'
    refine ⟨above, hscope.namesOf h ltop htop, hscope'.namesOf h' ltop' detached', ?_⟩
    intro d hd
    obtain ⟨below, hbelow⟩ := hd.exists_way
    have hbelow' : t'.Way id d below := hbelow.carried h fun x _ _ hx => hr.keepsPlace live hx
    have hway := hid.trans hbelow
    have hway' := hid'.trans hbelow'
    rw [List.append_assoc] at hway hway'
    exact ⟨below, hway.namesOf h ltop htop, hway'.namesOf h' ltop' detached',
      hway.pathOf h ltop htop, hway'.pathOf h' ltop' detached'⟩
  case otherPaths => exact fun d hd => hr.otherPaths h h' live hd
  case finds => rw [hfind, hrelabels.index, if_pos rfl]
  case findsNothing =>
    intro hne
    rw [hfind, hrelabels.index, if_neg hne, if_pos rfl]
  case otherFinds =>
    intro y other hother
    by_cases hy : y = scope
    · obtain ⟨hname, hold⟩ := hother hy
      rw [hy, hfind, find?_eq_ok lp, hb, hrelabels.index, if_neg hname, if_neg hold]
      rfl
    · exact hr.find?_eq live (fun ho => hy (Option.some.inj (ho.symm.trans howner))) other

theorem renamedAlone (h : t.Sound) (h' : t'.Sound) (hr : t.RenamedTo id e name t')
    (live : t.get? id = some e) (hdet : e.owner = none) : t.RenamedAlone t' := by
  have hs : ∀ y, e.owner ≠ some y := fun y ho => by
    rw [hdet] at ho
    exact absurd ho (by simp)
  constructor
  case paths =>
    intro d
    by_cases hd : t.Under id d
    · obtain ⟨ed, ld⟩ : ∃ ed, t.get? d = some ed := by
        cases hd with
        | self => exact ⟨e, live⟩
        | owned ld _ _ => exact ⟨_, ld⟩
      refine h.pathOf_of_keepsPlace h' ld fun x ex hx lx => ?_
      obtain ⟨ex', lx', howner, hname⟩ := hr.keeps live lx
      refine ⟨ex', lx', howner, fun hown => hname ?_⟩
      rintro rfl
      obtain rfl := Option.mem_unique live lx
      exact hown hdet
    · exact hr.otherPaths h h' live hd
  case finds => exact fun y other => hr.find?_eq live (hs y) other
  case bodies =>
    intro y
    by_cases hy : y = id
    · rw [hy, hr.entry, live]
      rfl
    · rw [hr.kept y hy (hs y)]

/-- Two renamings of which the second gives the old name back. -/
theorem back {t'' : Table} (hr : t.RenamedTo id e name t') (live : t.get? id = some e)
    (hr' : t'.RenamedTo id { e with name := name } e.name t'') : t'' = t := by
  apply ext_get? _ (hr'.slots.trans hr.slots) (hr'.free.trans hr.free)
  intro y
  by_cases hy : y = id
  · rw [hy, hr'.entry, live]
  · by_cases hs : e.owner = some y
    · obtain ⟨p, b, b', lp, hb, lp', hrelabels⟩ := hr.body y hs
      obtain ⟨p', c, b'', lp'', hc, ly, hrelabels'⟩ := hr'.body y hs
      obtain rfl := Option.mem_unique lp' lp''
      obtain rfl : b' = c := Option.some.inj hc
      rw [ly, lp, hrelabels.back hrelabels', ← scope?_eq_some hb]
    · rw [hr'.kept y hy hs, hr.kept y hy hs]

theorem run_back (h' : t'.Sound) (hr : t.RenamedTo id e name t')
    (live : t.get? id = some e) (hname : e.name ≠ "") :
    (rename id e.name).run t' = (.ok (), t) := by
  have hfree : ∀ scope, e.owner = some scope → name ≠ e.name →
      ∃ p b, t'.get? scope = some p ∧ p.scope? = some b ∧ b.find? e.name = none := by
    intro scope howner hne
    obtain ⟨p, b, b', _, _, lp', hrelabels⟩ := hr.body scope howner
    refine ⟨_, b', lp', rfl, ?_⟩
    rw [hrelabels.index, if_neg (Ne.symm hne), if_pos rfl]
  obtain ⟨t'', hrun⟩ := exists_run_rename hr.entry hname hfree
  have hrenamed := (rename_atomic t' id e.name).of_ok hrun
  rw [hrun, hr.back live (hrenamed.renamedTo h' hr.entry)]

end RenamedTo

/-! ## Requests -/

/-- Renaming an entry changes its name, in the paths that go through it and in the index of its
scope if it has one, and nothing else. The old name, unless it was empty, can be given back, which
leads to the same table. -/
theorem rename_changes_one_name (h : t.Reachable) (live : t.get? id = some e) {s s' : Store}
    (hr : (Request.rename id name).answer t s = .ok (.ok (), t', s')) :
    s' = s ∧ name ≠ "" ∧ t.RenamedTo id e name t' ∧
      (∀ y, t'.entries y = t.entries y ∧ t'.builtins y = t.builtins y) ∧
      (∀ scope, e.owner = some scope → t.RenamedIn scope id e name t') ∧
      (e.owner = none → t.RenamedAlone t') ∧
      (e.name ≠ "" → (Request.rename id e.name).answer t' s = .ok (.ok (), t, s)) := by
  have sound := h.sound
  obtain ⟨hrenamed, hs⟩ := Request.edited_done (rename_atomic t id name) hr
  have sound' := sound.renamed hrenamed
  have hto := hrenamed.renamedTo sound live
  obtain ⟨_, _, hname, _⟩ := hrenamed
  refine ⟨hs, hname, hto, hto.lists live, ?_, hto.renamedAlone sound sound' live, ?_⟩
  · exact fun scope howner => hto.renamedIn sound sound' live howner
  · intro hold
    exact congrArg (Request.answer.edited s) (hto.run_back sound' live hold)

/-- A scope with a value in it gets another name. -/
theorem renamed_scope_keeps_its_value :
    let t := ((Session.fresh "root" "").after
      [.ask (.register root "pop" "" (.scope "")), .ask (.register ⟨1⟩ "size" "" .number)]).table
    t.Reachable ∧ ∃ e t', t.get? ⟨1⟩ = some e ∧
      (Request.rename ⟨1⟩ "city").answer t .empty = .ok (.ok (), t', .empty) ∧
      t.RenamedTo ⟨1⟩ e "city" t' ∧ t.RenamedIn root ⟨1⟩ e "city" t' ∧
      (Request.rename ⟨1⟩ e.name).answer t' .empty = .ok (.ok (), t, .empty) := by
  intro t
  have h : t.Reachable := ⟨"root", "", _, rfl⟩
  have live : t.get? ⟨1⟩ = some
      { Entry.new "pop" "" (.scope ⟨[⟨2⟩], [], ⟨[("size", ⟨2⟩)], by simp⟩, ""⟩) with
        owner := some root } := rfl
  have hr : (Request.rename ⟨1⟩ "city").answer t .empty = .ok (.ok (), _, .empty) := rfl
  obtain ⟨_, _, hto, _, hin, _, hback⟩ := rename_changes_one_name h live hr
  exact ⟨h, _, _, live, hr, hto, hin root rfl, hback (by decide)⟩

end Table
end Settings
