import Settings.Proofs.Table.Sound

/-!
# Moves in the tree

The ways in which the tree of a sound table changes, each told by what is found under handles before
and after. A table that differs by a move from a sound one is sound.
-/

set_option autoImplicit false

namespace Settings
namespace Table

variable {t t' : Table}

theorem children_eq {e : Entry} {b : ScopeBody} (h : e.scope? = some b) :
    e.children = b.children := by
  simp [Entry.children, h]

/-! ## An entry comes in -/

/-- Entries that were live stay as they are. -/
def Extends (t t' : Table) : Prop := ∀ id e, t.get? id = some e → t'.get? id = some e

theorem Extends.refl (t : Table) : t.Extends t := fun _ _ h => h

theorem Extends.level (h : t.Extends t') {id : EntryId} {n : Nat} (hl : t.Level id n) :
    t'.Level id n :=
  hl.congr (P := fun _ => True) trivial fun x e _ live =>
    ⟨⟨e, h x e live, rfl⟩, fun _ _ => trivial⟩

theorem Extends.scopeOk (h : t.Extends t') {id : EntryId} {b : ScopeBody} (hb : t.ScopeOk id b) :
    t'.ScopeOk id b :=
  hb.congr fun c _ e live => ⟨e, h c e live, rfl, rfl⟩

theorem Extends.lists (h : t.Extends t') {scope id : EntryId} (hl : t.Lists scope id) :
    t'.Lists scope id := by
  obtain ⟨e, b, live, hb, hid⟩ := hl
  exact ⟨e, b, h _ _ live, hb, hid⟩

theorem ScopeOk.of_empty (t : Table) (id : EntryId) (structureType : String) :
    t.ScopeOk id (.empty structureType) where
  nodup := List.nodup_nil
  child := fun c hc => absurd hc (by simp [ScopeBody.empty, ScopeBody.children])
  find?_iff := fun name c => by
    simp [ScopeBody.empty, ScopeBody.children, ScopeBody.find?, NameIndex.find?_empty]

theorem Sound.of_leaf (h : t.Sound) {new : EntryId} {e : Entry} (hslots : t'.SlotsOk)
    (hnew : t.get? new = none) (hget : ∀ x, t'.get? x = if x = new then some e else t.get? x)
    (hdet : e.owner = none) (hbody : ∀ b, e.scope? = some b → ∃ s, b = .empty s)
    (htemp : e.temporary = true → e.scope? = none) : t'.Sound := by
  have hext : t.Extends t' := by
    intro x ex live
    have hne : x ≠ new := by
      rintro rfl
      rw [hnew] at live
      exact absurd live (by simp)
    rw [hget, if_neg hne, live]
  -- what is found after the move is the new entry or was found before
  have cases : ∀ x ex, t'.get? x = some ex → (x = new ∧ ex = e) ∨ t.get? x = some ex := by
    intro x ex live
    rw [hget] at live
    split at live
    · rename_i hx
      exact Or.inl ⟨hx, (Option.some.inj live).symm⟩
    · exact Or.inr live
  constructor
  case slots => exact hslots
  case root =>
    obtain ⟨er, b, live, hb, hd⟩ := h.root
    exact ⟨er, b, hext _ _ live, hb, hd⟩
  case scope =>
    intro x ex b live hb
    rcases cases x ex live with ⟨rfl, rfl⟩ | old
    · obtain ⟨s, rfl⟩ := hbody b hb
      exact .of_empty t' x s
    · exact hext.scopeOk (h.scope x ex b old hb)
  case owned =>
    intro x ex owner live howner
    rcases cases x ex live with ⟨rfl, rfl⟩ | old
    · rw [hdet] at howner
      exact absurd howner (by simp)
    · exact hext.lists (h.owned x ex owner old howner)
  case level =>
    intro x ex live
    rcases cases x ex live with ⟨rfl, rfl⟩ | old
    · exact ⟨0, .top live hdet⟩
    · obtain ⟨n, hn⟩ := h.level x ex old
      exact ⟨n, hext.level hn⟩
  case temporary =>
    intro x ex live ht
    rcases cases x ex live with ⟨rfl, rfl⟩ | old
    · exact ⟨hdet, htemp ht⟩
    · exact h.temporary x ex old ht

/-! ## An entry gets an owner -/

theorem mem_children_push {b : ScopeBody} {name : String} {id c : EntryId} {builtin : Bool} :
    c ∈ (b.push name id builtin).children ↔ c ∈ b.children ∨ c = id := by
  cases builtin <;> simp [ScopeBody.push, ScopeBody.children, or_comm, or_left_comm]

theorem nodup_children_push {b : ScopeBody} {name : String} {id : EntryId} {builtin : Bool}
    (hn : b.children.Nodup) (hid : id ∉ b.children) :
    (b.push name id builtin).children.Nodup := by
  have hperm : (b.push name id builtin).children.Perm (id :: b.children) := by
    cases builtin with
    | false => simp [ScopeBody.push, ScopeBody.children]
    | true =>
      have := List.perm_append_singleton id b.children
      simpa [ScopeBody.push, ScopeBody.children] using this
  exact hperm.nodup_iff.mpr (List.nodup_cons.mpr ⟨hid, hn⟩)

theorem find?_push (b : ScopeBody) (name other : String) (id : EntryId) (builtin : Bool) :
    (b.push name id builtin).find? other = if other = name then some id else b.find? other :=
  NameIndex.find?_insert b.index name other id

/-- The body that lists one entry more finds it under its name, where it found nothing. -/
theorem ScopeOk.push {scope id : EntryId} {b : ScopeBody} {e : Entry} (builtin : Bool)
    (h : t.ScopeOk scope b) (hid : id ∉ b.children) (hfree : b.find? e.name = none)
    (live : t.get? id = some e) (hname : e.name ≠ "") (howner : e.owner = some scope) :
    t.ScopeOk scope (b.push e.name id builtin) where
  nodup := nodup_children_push h.nodup hid
  child := by
    intro c hc
    rcases mem_children_push.mp hc with hc | rfl
    · exact h.child c hc
    · exact ⟨e, live, hname, howner⟩
  find?_iff := by
    intro name c
    rw [find?_push, mem_children_push]
    by_cases hn : name = e.name
    · rw [if_pos hn, Option.some.injEq]
      constructor
      · rintro rfl
        exact ⟨Or.inr rfl, e, live, hn.symm⟩
      · rintro ⟨hc | rfl, ec, lc, hec⟩
        · have := (h.find?_iff e.name c).mpr ⟨hc, ec, lc, hec.trans hn⟩
          rw [hfree] at this
          exact absurd this (by simp)
        · rfl
    · rw [if_neg hn, h.find?_iff]
      constructor
      · exact fun ⟨hc, hec⟩ => ⟨Or.inl hc, hec⟩
      · rintro ⟨hc | rfl, ec, lc, hec⟩
        · exact ⟨hc, ec, lc, hec⟩
        · obtain rfl := Option.mem_unique live lc
          exact absurd hec.symm hn

/-- The levels of all entries after one without an owner has been given one. Outside its tree they
are what they were; inside they grow by those of the new owner. -/
theorem level_of_placed {id scope : EntryId} {e e' : Entry} {m : Nat}
    (live : t.get? id = some e) (hdet : e.owner = none) (hcyc : ¬ t.Under id scope)
    (live' : t'.get? id = some e') (howner : e'.owner = some scope) (hscope : t.Level scope m)
    (hkeep : ∀ x ex, x ≠ id → t.get? x = some ex →
      ∃ ex', t'.get? x = some ex' ∧ ex'.owner = ex.owner)
    {x : EntryId} {n : Nat} (hx : t.Level x n) : ∃ k, t'.Level x k := by
  have outside : t'.Level scope m := by
    refine hscope.congr (P := fun y => ¬ t.Under id y) hcyc fun y ey hy ly => ⟨?_, ?_⟩
    · exact hkeep y ey (fun heq => hy (heq ▸ .self)) ly
    · exact fun owner ho hu => hy (.owned ly ho hu)
  induction hx with
  | @top y ey ly dy =>
    by_cases hy : y = id
    · exact ⟨m + 1, hy ▸ .owned live' howner outside⟩
    · obtain ⟨ey', ly', ho⟩ := hkeep y ey hy ly
      exact ⟨0, .top ly' (ho.trans dy)⟩
  | @owned y owner ey k ly oy _ ih =>
    have hy : y ≠ id := by
      rintro rfl
      rw [live, Option.some.injEq] at ly
      rw [← ly, hdet] at oy
      exact absurd oy (by simp)
    obtain ⟨ey', ly', ho⟩ := hkeep y ey hy ly
    obtain ⟨j, hj⟩ := ih
    exact ⟨j + 1, .owned ly' (ho.trans oy) hj⟩

theorem Sound.of_placed (h : t.Sound) (builtin : Bool) {scope id : EntryId} {e p : Entry}
    {b : ScopeBody} (hslots : t'.SlotsOk) (live : t.get? id = some e)
    (hdet : e.owner = none) (hroot : id ≠ Table.root) (hname : e.name ≠ "")
    (hp : t.get? scope = some p) (hb : p.scope? = some b) (hfree : b.find? e.name = none)
    (hcyc : ¬ t.Under id scope)
    (hget : ∀ x, t'.get? x =
      if x = id then some { e with owner := some scope, temporary := false }
      else if x = scope then some { p with storage := .scope (b.push e.name id builtin) }
      else t.get? x) : t'.Sound := by
  have hne : scope ≠ id := fun heq => hcyc (heq ▸ .self)
  have atId := (hget id).trans (if_pos rfl)
  have atScope := ((hget scope).trans (if_neg hne)).trans (if_pos rfl)
  have elsewhere : ∀ x, x ≠ id → x ≠ scope → t'.get? x = t.get? x := fun x hx hs =>
    ((hget x).trans (if_neg hx)).trans (if_neg hs)
  have keep : ∀ x ex, x ≠ id → t.get? x = some ex → ∃ ex', t'.get? x = some ex' ∧
      ex'.name = ex.name ∧ ex'.owner = ex.owner := by
    intro x ex hx lx
    by_cases hs : x = scope
    · subst hs
      rw [hp, Option.some.injEq] at lx
      exact ⟨_, atScope, lx ▸ rfl, lx ▸ rfl⟩
    · exact ⟨ex, (elsewhere x hx hs).trans lx, rfl, rfl⟩
  have listsKeep : ∀ s x, t.Lists s x → t'.Lists s x := by
    rintro s x ⟨es, bs, ls, hbs, hx⟩
    by_cases hid : s = id
    · subst hid
      rw [live, Option.some.injEq] at ls
      exact ⟨_, bs, atId, ls ▸ hbs, hx⟩
    · by_cases hs : s = scope
      · subst hs
        rw [hp, Option.some.injEq] at ls
        rw [← ls, hb, Option.some.injEq] at hbs
        exact ⟨_, _, atScope, rfl, mem_children_push.mpr (Or.inl (hbs ▸ hx))⟩
      · exact ⟨es, bs, (elsewhere s hid hs).trans ls, hbs, hx⟩
  -- no scope had the entry as a child, so the children of all scopes stay what they were
  have scopeKeep : ∀ x ex bx, t.get? x = some ex → ex.scope? = some bx → t'.ScopeOk x bx := by
    intro x ex bx lx hbx
    apply (h.scope x ex bx lx hbx).congr
    intro c hc ec lc
    have hcid : c ≠ id := by
      rintro rfl
      exact h.detached_not_mem live hdet lx hbx hc
    exact keep c ec hcid lc
  constructor
  case slots => exact hslots
  case root =>
    obtain ⟨er, br, lr, hbr, hdr⟩ := h.root
    by_cases hs : Table.root = scope
    · rw [hs, hp, Option.some.injEq] at lr
      exact ⟨_, _, hs ▸ atScope, rfl, lr ▸ hdr⟩
    · exact ⟨er, br, (elsewhere _ hroot.symm hs).trans lr, hbr, hdr⟩
  case scope =>
    intro x ex bx lx hbx
    by_cases hx : x = id
    · rw [hx, atId, Option.some.injEq] at lx
      have hbe : e.scope? = some bx := by rw [← hbx, ← lx]; rfl
      exact hx ▸ scopeKeep id e bx live hbe
    · by_cases hs : x = scope
      · rw [hs, atScope, Option.some.injEq] at lx
        have hbx' : b.push e.name id builtin = bx := by
          rw [← lx] at hbx
          exact Option.some.inj hbx
        have old := scopeKeep scope p b hp hb
        have hid := h.detached_not_mem live hdet hp hb
        have pushed := old.push (e := { e with owner := some scope, temporary := false }) builtin
          hid hfree atId hname rfl
        exact hs ▸ hbx' ▸ pushed
      · exact scopeKeep x ex bx ((elsewhere x hx hs).symm.trans lx) hbx
  case owned =>
    intro x ex owner lx hox
    by_cases hx : x = id
    · rw [hx, atId, Option.some.injEq] at lx
      rw [← lx] at hox
      obtain rfl := Option.some.inj hox
      exact ⟨_, _, atScope, rfl, hx ▸ mem_children_push.mpr (Or.inr rfl)⟩
    · by_cases hs : x = scope
      · rw [hs, atScope, Option.some.injEq] at lx
        exact hs ▸ listsKeep owner scope (h.owned scope p owner hp (by rw [← hox, ← lx]))
      · exact listsKeep owner x (h.owned x ex owner ((elsewhere x hx hs).symm.trans lx) hox)
  case level =>
    intro x ex lx
    obtain ⟨m, hm⟩ := h.level scope p hp
    have old : ∃ n, t.Level x n := by
      by_cases hx : x = id
      · exact hx ▸ h.level id e live
      · by_cases hs : x = scope
        · exact ⟨m, hs ▸ hm⟩
        · exact h.level x ex ((elsewhere x hx hs).symm.trans lx)
    obtain ⟨n, hn⟩ := old
    refine level_of_placed live hdet hcyc atId rfl hm ?_ hn
    intro y ey hy ly
    obtain ⟨ey', ly', _, ho⟩ := keep y ey hy ly
    exact ⟨ey', ly', ho⟩
  case temporary =>
    intro x ex lx htx
    by_cases hx : x = id
    · rw [hx, atId, Option.some.injEq] at lx
      rw [← lx] at htx
      exact absurd htx (by simp)
    · by_cases hs : x = scope
      · rw [hs, atScope, Option.some.injEq] at lx
        rw [← lx] at htx
        have := (h.temporary scope p hp htx).2
        rw [hb] at this
        exact absurd this (by simp)
      · exact h.temporary x ex ((elsewhere x hx hs).symm.trans lx) htx

/-! ## An entry gets another name -/

theorem find?_relabel (b : ScopeBody) (id : EntryId) (old name other : String) :
    (b.relabel id old name).find? other =
      if other = name then some id else if other = old then none else b.find? other := by
  show ((b.index.erase old).insert name id).find? other = _
  rw [NameIndex.find?_insert, NameIndex.find?_erase]
  rfl

/-- The body that lists the entry finds it under the new name, where it found nothing, and no longer
under the old one. -/
theorem ScopeOk.relabel {scope id : EntryId} {b : ScopeBody} {e : Entry} {name : String}
    (h : t.ScopeOk scope b) (live : t.get? id = some e) (hid : id ∈ b.children)
    (hname : name ≠ "") (hfree : b.find? name = none)
    (atId : t'.get? id = some { e with name := name })
    (hkeep : ∀ c ec, c ≠ id → t.get? c = some ec → ∃ ec', t'.get? c = some ec' ∧
      ec'.name = ec.name ∧ ec'.owner = ec.owner) :
    t'.ScopeOk scope (b.relabel id e.name name) := by
  have found : b.find? e.name = some id := (h.find?_iff _ _).mpr ⟨hid, e, live, rfl⟩
  refine ⟨h.nodup, ?_, ?_⟩
  · intro c hc
    obtain ⟨ec, lc, hnc, hoc⟩ := h.child c hc
    by_cases hci : c = id
    · subst hci
      rw [live, Option.some.injEq] at lc
      exact ⟨_, atId, hname, lc ▸ hoc⟩
    · obtain ⟨ec', lc', hn', ho'⟩ := hkeep c ec hci lc
      exact ⟨ec', lc', hn' ▸ hnc, ho'.trans hoc⟩
  · intro n c
    rw [find?_relabel]
    show _ ↔ c ∈ b.children ∧ _
    by_cases hci : c = id
    · subst hci
      by_cases hn : n = name
      · simp [hn, hid, atId]
      · rw [if_neg hn]
        constructor
        · intro hf
          split at hf
          · exact absurd hf (by simp)
          · rename_i hold
            obtain ⟨_, ec, lc, hec⟩ := (h.find?_iff n c).mp hf
            rw [live, Option.some.injEq] at lc
            exact absurd (hec.symm.trans (by rw [← lc])) hold
        · rintro ⟨_, ec, lc, hec⟩
          rw [atId, Option.some.injEq] at lc
          exact absurd (hec.symm.trans (by rw [← lc])) hn
    · -- a child other than the entry has neither of the two names
      have same : (c ∈ b.children ∧ ∃ ec, t'.get? c = some ec ∧ ec.name = n) ↔
          b.find? n = some c := by
        rw [h.find?_iff]
        apply and_congr_right
        intro hc
        obtain ⟨ec, lc, _, _⟩ := h.child c hc
        obtain ⟨ec', lc', hn', _⟩ := hkeep c ec hci lc
        simp [lc, lc', hn']
      rw [same]
      by_cases hn : n = name
      · rw [if_pos hn, hn, hfree]
        simpa using fun heq => hci heq.symm
      · rw [if_neg hn]
        by_cases hold : n = e.name
        · rw [if_pos hold, hold, found]
          simpa using fun heq => hci heq.symm
        · rw [if_neg hold]

theorem Sound.of_renamed (h : t.Sound) {id : EntryId} {e : Entry} {name : String}
    (hslots : t'.SlotsOk) (live : t.get? id = some e) (hname : name ≠ "")
    (hfree : ∀ scope p b, e.owner = some scope → t.get? scope = some p → p.scope? = some b →
      b.find? name = none)
    (atId : t'.get? id = some { e with name := name })
    (atScope : ∀ scope p b, e.owner = some scope → t.get? scope = some p → p.scope? = some b →
      t'.get? scope = some { p with storage := .scope (b.relabel id e.name name) })
    (elsewhere : ∀ x, x ≠ id → e.owner ≠ some x → t'.get? x = t.get? x) : t'.Sound := by
  obtain ⟨m, hm⟩ := h.level id e live
  have hself : e.owner ≠ some id := fun ho => hm.not_under_owned live ho .self
  -- every entry keeps its owner and its flag, and every entry but one its name
  have keep : ∀ x ex, t.get? x = some ex → ∃ ex', t'.get? x = some ex' ∧
      (x ≠ id → ex'.name = ex.name) ∧ ex'.owner = ex.owner ∧ ex'.temporary = ex.temporary ∧
      (e.owner ≠ some x → ex'.scope? = ex.scope?) ∧ ex'.scope?.isSome = ex.scope?.isSome := by
    intro x ex lx
    by_cases hx : x = id
    · subst hx
      obtain rfl := Option.mem_unique live lx
      exact ⟨_, atId, fun hne => absurd rfl hne, rfl, rfl, fun _ => rfl, rfl⟩
    · by_cases hs : e.owner = some x
      · obtain ⟨p, b, lp, hb, _⟩ := h.owned id e x live hs
        obtain rfl := Option.mem_unique lx lp
        exact ⟨_, atScope x ex b hs lx hb, fun _ => rfl, rfl, rfl, fun hne => absurd hs hne,
          by rw [hb]; rfl⟩
      · exact ⟨ex, (elsewhere x hx hs).trans lx, fun _ => rfl, rfl, rfl, fun _ => rfl, rfl⟩
  have back : ∀ x ex', t'.get? x = some ex' → ∃ ex, t.get? x = some ex := by
    intro x ex' lx'
    by_cases hx : x = id
    · exact ⟨e, hx ▸ live⟩
    · by_cases hs : e.owner = some x
      · obtain ⟨p, b, lp, _, _⟩ := h.owned id e x live hs
        exact ⟨p, lp⟩
      · exact ⟨ex', (elsewhere x hx hs).symm.trans lx'⟩
  have keepOthers : ∀ c ec, c ≠ id → t.get? c = some ec → ∃ ec', t'.get? c = some ec' ∧
      ec'.name = ec.name ∧ ec'.owner = ec.owner := by
    intro c ec hc lc
    obtain ⟨ec', lc', hn, ho, _⟩ := keep c ec lc
    exact ⟨ec', lc', hn hc, ho⟩
  constructor
  case slots => exact hslots
  case root =>
    obtain ⟨er, br, lr, hbr, hdr⟩ := h.root
    obtain ⟨er', lr', _, ho, _, _, hs⟩ := keep _ _ lr
    rw [hbr, Option.isSome_some, Option.isSome_iff_exists] at hs
    obtain ⟨br', hbr'⟩ := hs
    exact ⟨er', br', lr', hbr', ho.trans hdr⟩
  case scope =>
    intro x ex' b' lx' hb'
    obtain ⟨ex, lx⟩ := back x ex' lx'
    by_cases hs : e.owner = some x
    · obtain ⟨p, b, lp, hb, hid⟩ := h.owned id e x live hs
      rw [atScope x p b hs lp hb, Option.some.injEq] at lx'
      rw [← lx'] at hb'
      obtain rfl := Option.some.inj hb'
      exact (h.scope x p b lp hb).relabel live hid hname (hfree x p b hs lp hb) atId keepOthers
    · obtain ⟨ex'', lx'', _, _, _, hsame, _⟩ := keep x ex lx
      obtain rfl := Option.mem_unique lx' lx''
      apply (h.scope x ex b' lx ((hsame hs).symm.trans hb')).congr
      intro c hc ec lc
      refine keepOthers c ec ?_ lc
      intro hci
      subst hci
      obtain ⟨e', le', _, ho'⟩ := (h.scope x ex b' lx ((hsame hs).symm.trans hb')).child c hc
      rw [live, Option.some.injEq] at le'
      exact hs (le' ▸ ho')
  case owned =>
    intro x ex' owner lx' hox'
    obtain ⟨ex, lx⟩ := back x ex' lx'
    obtain ⟨ex'', lx'', _, ho, _⟩ := keep x ex lx
    obtain rfl := Option.mem_unique lx' lx''
    obtain ⟨p, b, lp, hb, hx⟩ := h.owned x ex owner lx (ho.symm.trans hox')
    by_cases hs : e.owner = some owner
    · exact ⟨_, _, atScope owner p b hs lp hb, rfl, hx⟩
    · obtain ⟨p', lp', _, _, _, hsame, _⟩ := keep owner p lp
      exact ⟨p', b, lp', (hsame hs).trans hb, hx⟩
  case level =>
    intro x ex' lx'
    obtain ⟨ex, lx⟩ := back x ex' lx'
    obtain ⟨n, hn⟩ := h.level x ex lx
    refine ⟨n, hn.congr (P := fun _ => True) trivial fun y ey _ ly => ⟨?_, fun _ _ => trivial⟩⟩
    obtain ⟨ey', ly', _, ho, _⟩ := keep y ey ly
    exact ⟨ey', ly', ho⟩
  case temporary =>
    intro x ex' lx' htx'
    obtain ⟨ex, lx⟩ := back x ex' lx'
    obtain ⟨ex'', lx'', _, ho, ht, _, hs⟩ := keep x ex lx
    obtain rfl := Option.mem_unique lx' lx''
    obtain ⟨hdet, hnone⟩ := h.temporary x ex lx (ht.symm.trans htx')
    rw [hnone] at hs
    exact ⟨ho.trans hdet, Option.isNone_iff_eq_none.mp (by simpa using hs)⟩

/-! ## A tree goes -/

theorem mem_children_erase {b : ScopeBody} {id c : EntryId} {name : String} :
    c ∈ (b.erase id name).children ↔ c ∈ b.children ∧ c ≠ id := by
  simp [ScopeBody.erase, ScopeBody.children, or_and_right]

theorem find?_erase (b : ScopeBody) (id : EntryId) (name other : String) :
    (b.erase id name).find? other = if other = name then none else b.find? other :=
  NameIndex.find?_erase b.index name other

/-- The body that listed the entry no longer does, and finds the others as before. -/
theorem ScopeOk.erase {scope id : EntryId} {b : ScopeBody} {e : Entry}
    (h : t.ScopeOk scope b) (live : t.get? id = some e) (hid : id ∈ b.children)
    (hkeep : ∀ c ∈ b.children, c ≠ id → t'.get? c = t.get? c) :
    t'.ScopeOk scope (b.erase id e.name) := by
  have found : b.find? e.name = some id := (h.find?_iff _ _).mpr ⟨hid, e, live, rfl⟩
  have hnodup : (b.erase id e.name).children.Nodup := by
    have heq : (b.erase id e.name).children = b.children.filter fun c => c ≠ id := by
      simp [ScopeBody.erase, ScopeBody.children]
    exact heq ▸ h.nodup.filter _
  refine ⟨hnodup, ?_, ?_⟩
  · intro c hc
    obtain ⟨hc, hci⟩ := mem_children_erase.mp hc
    rw [hkeep c hc hci]
    exact h.child c hc
  · intro n c
    rw [find?_erase, mem_children_erase]
    by_cases hn : n = e.name
    · rw [if_pos hn]
      refine ⟨fun hf => absurd hf (by simp), ?_⟩
      rintro ⟨⟨hc, hci⟩, ec, lc, hec⟩
      rw [hkeep c hc hci] at lc
      have := (h.find?_iff e.name c).mpr ⟨hc, ec, lc, hec.trans hn⟩
      rw [found, Option.some.injEq] at this
      exact absurd this.symm hci
    · rw [if_neg hn, h.find?_iff]
      constructor
      · rintro ⟨hc, ec, lc, hec⟩
        have hci : c ≠ id := by
          rintro rfl
          rw [live, Option.some.injEq] at lc
          exact hn (hec.symm.trans (by rw [← lc]))
        exact ⟨⟨hc, hci⟩, ec, (hkeep c hc hci).trans lc, hec⟩
      · rintro ⟨⟨hc, hci⟩, ec, lc, hec⟩
        exact ⟨hc, ec, (hkeep c hc hci).symm.trans lc, hec⟩

theorem Sound.of_removed (h : t.Sound) {id : EntryId} {e : Entry} (hslots : t'.SlotsOk)
    (live : t.get? id = some e) (hroot : id ≠ Table.root)
    (hgone : ∀ x, t.Under id x → t'.get? x = none)
    (atScope : ∀ scope p b, e.owner = some scope → t.get? scope = some p → p.scope? = some b →
      t'.get? scope = some { p with storage := .scope (b.erase id e.name) })
    (elsewhere : ∀ x, ¬ t.Under id x → e.owner ≠ some x → t'.get? x = t.get? x) : t'.Sound := by
  obtain ⟨m, hm⟩ := h.level id e live
  -- what is live after the move does not lie under the entry, and was live before
  have back : ∀ x ex', t'.get? x = some ex' → ¬ t.Under id x ∧ ∃ ex, t.get? x = some ex ∧
      ex'.owner = ex.owner ∧ ex'.temporary = ex.temporary ∧
      (e.owner ≠ some x → ex'.scope? = ex.scope?) := by
    intro x ex' lx'
    have hx : ¬ t.Under id x := fun hu => by
      rw [hgone x hu] at lx'
      exact absurd lx' (by simp)
    refine ⟨hx, ?_⟩
    by_cases hs : e.owner = some x
    · obtain ⟨p, b, lp, hb, _⟩ := h.owned id e x live hs
      rw [atScope x p b hs lp hb, Option.some.injEq] at lx'
      exact ⟨p, lp, lx' ▸ rfl, lx' ▸ rfl, fun hne => absurd hs hne⟩
    · exact ⟨ex', (elsewhere x hx hs).symm.trans lx', rfl, rfl, fun _ => rfl⟩
  have keep : ∀ x ex, ¬ t.Under id x → t.get? x = some ex → ∃ ex', t'.get? x = some ex' ∧
      ex'.name = ex.name ∧ ex'.owner = ex.owner := by
    intro x ex hx lx
    by_cases hs : e.owner = some x
    · obtain ⟨p, b, lp, hb, _⟩ := h.owned id e x live hs
      obtain rfl := Option.mem_unique lx lp
      exact ⟨_, atScope x ex b hs lx hb, rfl, rfl⟩
    · exact ⟨ex, (elsewhere x hx hs).trans lx, rfl, rfl⟩
  -- a child lies under the entry only if it is the entry or its scope does
  have childOut : ∀ x ex b c, ¬ t.Under id x → t.get? x = some ex → ex.scope? = some b →
      c ∈ b.children → c ≠ id → ¬ t.Under id c := by
    intro x ex b c hx lx hb hc hci hu
    obtain ⟨ec, lc, _, hoc⟩ := (h.scope x ex b lx hb).child c hc
    rcases hu.above lc hoc with heq | hux
    · exact hci heq.symm
    · exact hx hux
  constructor
  case slots => exact hslots
  case root =>
    obtain ⟨er, br, lr, hbr, hdr⟩ := h.root
    have hout : ¬ t.Under id Table.root := fun hu => hroot (hu.eq_of_detached lr hdr)
    by_cases hs : e.owner = some Table.root
    · exact ⟨_, _, atScope _ er br hs lr hbr, rfl, hdr⟩
    · exact ⟨er, br, (elsewhere _ hout hs).trans lr, hbr, hdr⟩
  case scope =>
    intro x ex' b' lx' hb'
    obtain ⟨hx, ex, lx, _, _, hsame⟩ := back x ex' lx'
    by_cases hs : e.owner = some x
    · obtain ⟨p, b, lp, hb, hid⟩ := h.owned id e x live hs
      rw [atScope x p b hs lp hb, Option.some.injEq] at lx'
      rw [← lx'] at hb'
      obtain rfl := Option.some.inj hb'
      have old := h.scope x p b lp hb
      refine old.erase live hid fun c hc hci => elsewhere c (childOut x p b c hx lp hb hc hci) ?_
      -- the scope is no child of itself
      intro hsc
      obtain rfl := Option.mem_unique hs hsc
      obtain ⟨_, lc, _, hoc⟩ := old.child x hc
      obtain ⟨_, hl⟩ := h.level x p lp
      exact hl.not_under_owned lc hoc .self
    · have old := h.scope x ex b' lx ((hsame hs).symm.trans hb')
      refine old.congr fun c hc ec lc => keep c ec ?_ lc
      apply childOut x ex b' c hx lx ((hsame hs).symm.trans hb') hc
      intro hci
      subst hci
      obtain ⟨e', le', _, ho'⟩ := old.child c hc
      rw [live, Option.some.injEq] at le'
      exact hs (le' ▸ ho')
  case owned =>
    intro x ex' owner lx' hox'
    obtain ⟨hx, ex, lx, ho, _⟩ := back x ex' lx'
    obtain ⟨p, b, lp, hb, hmem⟩ := h.owned x ex owner lx (ho.symm.trans hox')
    by_cases hs : e.owner = some owner
    · exact ⟨_, _, atScope owner p b hs lp hb, rfl,
        mem_children_erase.mpr ⟨hmem, fun hxi => hx (hxi ▸ .self)⟩⟩
    · have hout : ¬ t.Under id owner := fun hu => hx (.owned lx (ho.symm.trans hox') hu)
      exact ⟨p, b, (elsewhere owner hout hs).trans lp, hb, hmem⟩
  case level =>
    intro x ex' lx'
    obtain ⟨hx, ex, lx, _⟩ := back x ex' lx'
    obtain ⟨n, hn⟩ := h.level x ex lx
    refine ⟨n, hn.congr (P := fun y => ¬ t.Under id y) hx fun y ey hy ly => ⟨?_, ?_⟩⟩
    · obtain ⟨ey', ly', _, ho⟩ := keep y ey hy ly
      exact ⟨ey', ly', ho⟩
    · exact fun owner ho hu => hy (.owned ly ho hu)
  case temporary =>
    intro x ex' lx' htx'
    obtain ⟨hx, ex, lx, ho, ht, hsame⟩ := back x ex' lx'
    obtain ⟨hdet, hnone⟩ := h.temporary x ex lx (ht.symm.trans htx')
    refine ⟨ho.trans hdet, ?_⟩
    by_cases hs : e.owner = some x
    · obtain ⟨p, b, lp, hb, _⟩ := h.owned id e x live hs
      obtain rfl := Option.mem_unique lx lp
      rw [hb] at hnone
      exact absurd hnone (by simp)
    · exact (hsame hs).trans hnone

end Table
end Settings
