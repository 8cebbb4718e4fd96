import Settings.Proofs.Table.Sound

/-!
# Trees and chains

The walks of the library are bounded by a depth, and give a value only if the depth suffices. Two
relations say what the value is without speaking of a depth: `Holds t x` that every entry of the
tree `x` is in the table with just the children that `x` gives it, and `Links t id links` that
`links` is the way up from `id`. `treeWithin_eq_ok_iff` and `chainWithin_eq_ok_iff` tie them to the
walks.

In a sound table both walks always come to an end (`Sound.exists_tree`, `Sound.exists_chain`), and
the tree of an entry has exactly the entries that lie under it, each of them once (`Holds.mem_ids`,
`Holds.ids_nodup`).
-/

set_option autoImplicit false

namespace Settings

/-! ## The shape of a tree -/

namespace Tree

mutual

def height : Tree → Nat
  | node _ _ es bs => max (heightAll es) (heightAll bs) + 1

def heightAll : List Tree → Nat
  | [] => 0
  | x :: xs => max (height x) (heightAll xs)

end

theorem heightAll_le {n : Nat} {xs : List Tree} : heightAll xs ≤ n ↔ ∀ x ∈ xs, x.height ≤ n := by
  induction xs with
  | nil => simp [heightAll]
  | cons x xs ih => rw [heightAll, Nat.max_le, ih, List.forall_mem_cons]

theorem height_le_succ {n : Nat} {id : EntryId} {e : Entry} {es bs : List Tree} :
    (node id e es bs).height ≤ n + 1 ↔ ∀ x ∈ es ++ bs, x.height ≤ n := by
  have h : (node id e es bs).height = max (heightAll es) (heightAll bs) + 1 := by simp [height]
  rw [h, Nat.add_le_add_iff_right, Nat.max_le, heightAll_le, heightAll_le]
  simp only [List.mem_append, or_imp, forall_and]

theorem idsAll_eq (xs : List Tree) : idsAll xs = xs.flatMap ids := by
  induction xs with
  | nil => simp [idsAll]
  | cons x xs ih => simp [idsAll, ih]

theorem ids_node (id : EntryId) (e : Entry) (es bs : List Tree) :
    (node id e es bs).ids = id :: (es ++ bs).flatMap ids := by
  simp [ids, idsAll_eq]

theorem mem_ids_node {id y : EntryId} {e : Entry} {es bs : List Tree} :
    y ∈ (node id e es bs).ids ↔ y = id ∨ ∃ x ∈ es ++ bs, y ∈ x.ids := by
  rw [ids_node, List.mem_cons, List.mem_flatMap]

theorem id_mem_ids (x : Tree) : x.id ∈ x.ids := by
  cases x with
  | node id e es bs => exact mem_ids_node.mpr (Or.inl rfl)

end Tree

namespace Table

variable {t t' : Table}

theorem entry_eq_ok {id : EntryId} {e : Entry} : t.entry id = .ok e ↔ t.get? id = some e := by
  unfold entry
  cases t.get? id <;> simp

theorem entry_eq_error {id : EntryId} (h : t.get? id = none) :
    t.entry id = .error (.staleHandle id) := by
  unfold entry
  rw [h]

/-- A walk through a row of things gives a row of results if each step gives one that is marked with
what it is the result of. -/
theorem mapM_eq_ok_iff {α β ε : Type} {f : α → Except ε β} {mark : β → α} {P : β → Prop}
    (hf : ∀ a b, f a = .ok b ↔ P b ∧ mark b = a) {as : List α} {bs : List β} :
    as.mapM f = .ok bs ↔ bs.map mark = as ∧ ∀ b ∈ bs, P b := by
  induction as generalizing bs with
  | nil =>
    show Except.ok [] = Except.ok bs ↔ _
    cases bs <;> simp
  | cons a as ih =>
    rw [List.mapM_cons]
    constructor
    · intro h
      cases ha : f a with
      | error x => simp [ha, bind, Except.bind] at h
      | ok b =>
        cases has : as.mapM f with
        | error x => simp [ha, has, bind, Except.bind] at h
        | ok bs' =>
          obtain rfl : b :: bs' = bs := by
            simpa [ha, has, bind, Except.bind, pure, Except.pure] using h
          obtain ⟨hb, hmark⟩ := (hf a b).mp ha
          obtain ⟨hmarks, hbs⟩ := ih.mp has
          exact ⟨by rw [List.map_cons, hmark, hmarks], List.forall_mem_cons.mpr ⟨hb, hbs⟩⟩
    · rintro ⟨hmarks, hbs⟩
      cases bs with
      | nil => exact absurd hmarks (by simp)
      | cons b bs =>
        rw [List.map_cons, List.cons.injEq] at hmarks
        obtain ⟨hb, hbs⟩ := List.forall_mem_cons.mp hbs
        rw [(hf a b).mpr ⟨hb, hmarks.1⟩, ih.mpr ⟨hmarks.2, hbs⟩]
        rfl

theorem exists_mapM_forall₂ {α β ε : Type} {f : α → Except ε β} {P : α → β → Prop} {as : List α}
    (h : ∀ a ∈ as, ∃ b, f a = .ok b ∧ P a b) : ∃ bs, as.mapM f = .ok bs ∧ List.Forall₂ P as bs := by
  induction as with
  | nil => exact ⟨[], rfl, .nil⟩
  | cons a as ih =>
    obtain ⟨⟨b, hb, hP⟩, has⟩ := List.forall_mem_cons.mp h
    obtain ⟨bs, hbs, hall⟩ := ih has
    exact ⟨b :: bs, by rw [List.mapM_cons, hb, hbs]; rfl, .cons hP hall⟩

theorem exists_mapM {α β ε : Type} {f : α → Except ε β} {as : List α}
    (h : ∀ a ∈ as, ∃ b, f a = .ok b) : ∃ bs, as.mapM f = .ok bs := by
  have paired (a : α) (ha : a ∈ as) : ∃ b, f a = .ok b ∧ f a = .ok b := by
    obtain ⟨b, hb⟩ := h a ha
    exact ⟨b, hb, hb⟩
  obtain ⟨bs, hbs, -⟩ := exists_mapM_forall₂ paired
  exact ⟨bs, hbs⟩

/-! ## The tree of an entry -/

/-- Every entry of the tree is what the table has under its handle, and has in the tree the children
that it lists. -/
inductive Holds (t : Table) : Tree → Prop
  | leaf {id : EntryId} {e : Entry} (live : t.get? id = some e) (plain : e.scope? = none) :
      Holds t (.node id e [] [])
  | scope {id : EntryId} {e : Entry} {b : ScopeBody} {es bs : List Tree}
      (live : t.get? id = some e) (body : e.scope? = some b) (entries : es.map Tree.id = b.entries)
      (builtins : bs.map Tree.id = b.builtins) (held : ∀ x ∈ es ++ bs, Holds t x) :
      Holds t (.node id e es bs)

theorem treeWithin_eq_ok_iff {depth : Nat} {id : EntryId} {x : Tree} :
    t.treeWithin depth id = .ok x ↔ (t.Holds x ∧ x.height ≤ depth) ∧ x.id = id := by
  induction depth generalizing id x with
  | zero =>
    refine ⟨fun h => absurd h (by simp [treeWithin]), ?_⟩
    rintro ⟨⟨_, h⟩, _⟩
    cases x with
    | node => simp [Tree.height] at h
  | succ depth ih =>
    have row : ∀ {as : List EntryId} {xs : List Tree}, as.mapM (t.treeWithin depth) = .ok xs ↔
        xs.map Tree.id = as ∧ ∀ y ∈ xs, t.Holds y ∧ y.height ≤ depth :=
      mapM_eq_ok_iff fun _ _ => ih
    constructor
    · intro h
      unfold treeWithin at h
      cases he : t.entry id with
      | error y => simp [he, bind, Except.bind] at h
      | ok e =>
        have live := entry_eq_ok.mp he
        cases hb : e.scope? with
        | none =>
          obtain rfl : .node id e [] [] = x := by
            simpa [he, hb, bind, Except.bind, pure, Except.pure] using h
          exact ⟨⟨.leaf live hb, Tree.height_le_succ.mpr (by simp)⟩, rfl⟩
        | some b =>
          cases hes : b.entries.mapM (t.treeWithin depth) with
          | error y => simp [he, hb, hes, bind, Except.bind] at h
          | ok es =>
            cases hbs : b.builtins.mapM (t.treeWithin depth) with
            | error y => simp [he, hb, hes, hbs, bind, Except.bind] at h
            | ok bs =>
              obtain rfl : .node id e es bs = x := by
                simpa [he, hb, hes, hbs, bind, Except.bind, pure, Except.pure] using h
              obtain ⟨hmes, hes⟩ := row.mp hes
              obtain ⟨hmbs, hbs⟩ := row.mp hbs
              have hall := List.forall_mem_append.mpr ⟨hes, hbs⟩
              exact ⟨⟨.scope live hb hmes hmbs fun y hy => (hall y hy).1,
                Tree.height_le_succ.mpr fun y hy => (hall y hy).2⟩, rfl⟩
    · rintro ⟨⟨hx, hh⟩, rfl⟩
      cases hx with
      | leaf live plain =>
        simp [treeWithin, Tree.id, entry_eq_ok.mpr live, plain, bind, Except.bind, pure,
          Except.pure]
      | @scope id e b es bs live body entries builtins held =>
        have hh := Tree.height_le_succ.mp hh
        obtain ⟨hes, hbs⟩ := List.forall_mem_append.mp fun y hy => And.intro (held y hy) (hh y hy)
        have hrow := row.mpr ⟨entries, hes⟩
        have hrow' := row.mpr ⟨builtins, hbs⟩
        simp [treeWithin, Tree.id, entry_eq_ok.mpr live, body, hrow, hrow', bind, Except.bind, pure,
          Except.pure]

theorem tree_eq_ok_iff {id : EntryId} {x : Tree} :
    t.tree id = .ok x ↔ (t.Holds x ∧ x.height ≤ t.slots.size + 1) ∧ x.id = id :=
  treeWithin_eq_ok_iff

namespace Holds

theorem live {x : Tree} (h : t.Holds x) : t.get? x.id = some x.entry := by
  cases h with
  | leaf live _ => exact live
  | scope live _ _ _ _ => exact live

theorem children {id : EntryId} {e : Entry} {es bs : List Tree} (h : t.Holds (.node id e es bs)) :
    (es ++ bs).map Tree.id = e.children := by
  cases h with
  | leaf _ plain => simp [Entry.children, plain]
  | scope _ body entries builtins _ =>
    simp [Entry.children, body, ScopeBody.children, entries, builtins]

theorem held {id : EntryId} {e : Entry} {es bs : List Tree} (h : t.Holds (.node id e es bs)) :
    ∀ x ∈ es ++ bs, t.Holds x := by
  cases h with
  | leaf => simp
  | scope _ _ _ _ held => exact held

/-- A tree depends on nothing but its own entries. -/
theorem congr {x : Tree} (h : t.Holds x) (hsame : ∀ y ∈ x.ids, t'.get? y = t.get? y) :
    t'.Holds x := by
  induction h with
  | leaf live plain => exact .leaf ((hsame _ (Tree.id_mem_ids _)).trans live) plain
  | scope live body entries builtins _ ih =>
    refine .scope ((hsame _ (Tree.id_mem_ids _)).trans live) body entries builtins ?_
    intro x hx
    exact ih x hx fun y hy => hsame y (Tree.mem_ids_node.mpr (Or.inr ⟨x, hx, hy⟩))

/-- There is one tree only under an entry. -/
theorem unique {x y : Tree} (hx : t.Holds x) (hy : t.Holds y) (hid : x.id = y.id) : x = y := by
  have hwalk := treeWithin_eq_ok_iff.mpr ⟨⟨hx, Nat.le_max_left x.height y.height⟩, hid⟩
  have hwalk' := treeWithin_eq_ok_iff.mpr ⟨⟨hy, Nat.le_max_right x.height y.height⟩, rfl⟩
  exact Except.ok.inj (hwalk.symm.trans hwalk')

theorem live_of_mem {x : Tree} (h : t.Holds x) {y : EntryId} (hy : y ∈ x.ids) :
    ∃ e, t.get? y = some e := by
  induction h with
  | @leaf id e live _ =>
    obtain rfl : y = id := by simpa [Tree.ids_node] using hy
    exact ⟨e, live⟩
  | scope live _ _ _ _ ih =>
    rcases Tree.mem_ids_node.mp hy with rfl | ⟨x, hx, hy⟩
    · exact ⟨_, live⟩
    · exact ih x hx hy

theorem child_mem {x : Tree} (h : t.Holds x) {y c : EntryId} {e : Entry} (hy : y ∈ x.ids)
    (live : t.get? y = some e) (hc : c ∈ e.children) : c ∈ x.ids := by
  induction h with
  | @leaf id e' live' plain =>
    obtain rfl : y = id := by simpa [Tree.ids_node] using hy
    obtain rfl := Option.mem_unique live live'
    exact absurd hc (by simp [Entry.children, plain])
  | @scope id e' b es bs live' body entries builtins held ih =>
    have hchildren := (Holds.scope live' body entries builtins held).children
    rcases Tree.mem_ids_node.mp hy with rfl | ⟨x, hx, hy⟩
    · obtain rfl := Option.mem_unique live live'
      rw [← hchildren] at hc
      obtain ⟨x, hx, rfl⟩ := List.mem_map.mp hc
      exact Tree.mem_ids_node.mpr (Or.inr ⟨x, hx, x.id_mem_ids⟩)
    · exact Tree.mem_ids_node.mpr (Or.inr ⟨x, hx, ih x hx hy⟩)

end Holds

/-! ## The way up -/

/-- The entry, its owner, and so on up to an entry without an owner. -/
inductive Links (t : Table) : EntryId → List (EntryId × Entry) → Prop
  | top {id : EntryId} {e : Entry} (live : t.get? id = some e) (detached : e.owner = none) :
      Links t id [(id, e)]
  | owned {id owner : EntryId} {e : Entry} {links : List (EntryId × Entry)}
      (live : t.get? id = some e) (owned : e.owner = some owner) (above : Links t owner links) :
      Links t id ((id, e) :: links)

theorem chainWithin_eq_ok_iff {bound : Nat} {id : EntryId} {links : List (EntryId × Entry)} :
    t.chainWithin bound id = .ok links ↔ t.Links id links ∧ links.length ≤ bound := by
  induction bound generalizing id links with
  | zero =>
    refine ⟨fun h => absurd h (by simp [chainWithin]), ?_⟩
    rintro ⟨h, hlen⟩
    cases h <;> simp at hlen
  | succ bound ih =>
    constructor
    · intro h
      unfold chainWithin at h
      cases he : t.entry id with
      | error y => simp [he, bind, Except.bind] at h
      | ok e =>
        have live := entry_eq_ok.mp he
        cases ho : e.owner with
        | none =>
          obtain rfl : [(id, e)] = links := by
            simpa [he, ho, bind, Except.bind, pure, Except.pure] using h
          exact ⟨.top live ho, by simp⟩
        | some owner =>
          cases hup : t.chainWithin bound owner with
          | error y => simp [he, ho, hup, bind, Except.bind] at h
          | ok up =>
            obtain rfl : (id, e) :: up = links := by
              simpa [he, ho, hup, bind, Except.bind, pure, Except.pure] using h
            obtain ⟨hlinks, hlen⟩ := ih.mp hup
            exact ⟨.owned live ho hlinks, by simpa using hlen⟩
    · rintro ⟨h, hlen⟩
      cases h with
      | top live detached =>
        simp [chainWithin, entry_eq_ok.mpr live, detached, bind, Except.bind, pure, Except.pure]
      | owned live owned above =>
        have hup := ih.mpr ⟨above, by simpa using hlen⟩
        simp [chainWithin, entry_eq_ok.mpr live, owned, hup, bind, Except.bind, pure, Except.pure]

/-- The way up from an entry is as long as its level says. -/
theorem Level.exists_chain {id : EntryId} {n : Nat} (h : t.Level id n) :
    ∃ links, t.chain id = .ok links ∧ t.Links id links ∧ links.length = n + 1 := by
  have hlt := h.lt_slots
  have hlinks : ∃ links, t.Links id links ∧ links.length = n + 1 := by
    clear hlt
    induction h with
    | top live detached => exact ⟨_, .top live detached, rfl⟩
    | owned live owned _ ih =>
      obtain ⟨links, hl, hlen⟩ := ih
      exact ⟨_, .owned live owned hl, by simp [hlen]⟩
  obtain ⟨links, hl, hlen⟩ := hlinks
  exact ⟨links, chainWithin_eq_ok_iff.mpr ⟨hl, by omega⟩, hl, hlen⟩

/-- The way up meets just what the entry lies under. -/
theorem Links.mem_iff {id a : EntryId} {links : List (EntryId × Entry)} (h : t.Links id links) :
    a ∈ links.map Prod.fst ↔ t.Under a id := by
  induction h with
  | @top id e live detached =>
    constructor
    · intro hm
      obtain rfl : a = id := by simpa using hm
      exact .self
    · intro hu
      simpa using hu.eq_of_detached live detached
  | @owned id owner e links live owned _ ih =>
    rw [List.map_cons, List.mem_cons, ih]
    constructor
    · rintro (rfl | hu)
      · exact .self
      · exact .owned live owned hu
    · intro hu
      exact hu.above live owned

/-! ## Trees and chains of a sound table -/

namespace Sound

theorem exists_chain (h : t.Sound) {id : EntryId} {e : Entry} (live : t.get? id = some e) :
    ∃ links, t.chain id = .ok links ∧ t.Links id links := by
  obtain ⟨n, hn⟩ := h.level id e live
  obtain ⟨links, hchain, hlinks, _⟩ := hn.exists_chain
  exact ⟨links, hchain, hlinks⟩

theorem child (h : t.Sound) {id c : EntryId} {e : Entry} (live : t.get? id = some e)
    (hc : c ∈ e.children) : ∃ ec, t.get? c = some ec ∧ ec.name ≠ "" ∧ ec.owner = some id := by
  cases hb : e.scope? with
  | none => exact absurd hc (by simp [Entry.children, hb])
  | some b => exact (h.scope id e b live hb).child c (by simpa [Entry.children, hb] using hc)

theorem children_nodup (h : t.Sound) {id : EntryId} {e : Entry} (live : t.get? id = some e) :
    e.children.Nodup := by
  cases hb : e.scope? with
  | none => simp [Entry.children, hb]
  | some b => simpa [Entry.children, hb] using (h.scope id e b live hb).nodup

/-- The deeper an entry lies, the less deep is its tree. -/
theorem exists_treeWithin (h : t.Sound) {depth n : Nat} {id : EntryId} (hl : t.Level id n)
    (hd : t.slots.size ≤ n + depth) : ∃ x, t.treeWithin depth id = .ok x := by
  induction depth generalizing id n with
  | zero =>
    have := hl.lt_slots
    omega
  | succ depth ih =>
    obtain ⟨e, live⟩ := hl.live
    have below : ∀ c ∈ e.children, ∃ x, t.treeWithin depth c = .ok x := fun c hc => by
      obtain ⟨ec, lc, _, hoc⟩ := h.child live hc
      exact ih (.owned lc hoc hl) (by omega)
    unfold treeWithin
    rw [entry_eq_ok.mpr live]
    cases hb : e.scope? with
    | none => exact ⟨_, by simp [bind, Except.bind, hb]; rfl⟩
    | some b =>
      have hch : e.children = b.entries ++ b.builtins := by
        simp [Entry.children, hb, ScopeBody.children]
      obtain ⟨hes, hbs⟩ := List.forall_mem_append.mp (hch ▸ below)
      obtain ⟨es, hes⟩ := exists_mapM hes
      obtain ⟨bs, hbs⟩ := exists_mapM hbs
      exact ⟨.node id e es bs, by simp [bind, Except.bind, hb, hes, hbs]; rfl⟩

theorem exists_tree (h : t.Sound) {id : EntryId} {e : Entry} (live : t.get? id = some e) :
    ∃ x, t.tree id = .ok x := by
  obtain ⟨n, hn⟩ := h.level id e live
  exact h.exists_treeWithin hn (by omega)

end Sound

/-- The tree of an entry has all that lies under the entry, and nothing else. -/
theorem Holds.mem_ids (h : t.Sound) {x : Tree} (hx : t.Holds x) {y : EntryId} :
    y ∈ x.ids ↔ t.Under x.id y := by
  constructor
  · intro hy
    induction hx with
    | @leaf id e live _ =>
      obtain rfl : y = id := by simpa [Tree.ids_node] using hy
      exact .self
    | @scope id e b es bs live body entries builtins held ih =>
      rcases Tree.mem_ids_node.mp hy with rfl | ⟨x, hx, hy⟩
      · exact .self
      · have hc : x.id ∈ e.children := by
          rw [← (Holds.scope live body entries builtins held).children]
          exact List.mem_map_of_mem hx
        obtain ⟨ec, lc, _, hoc⟩ := h.child live hc
        exact .trans (.owned lc hoc .self) (ih x hx hy)
  · intro hu
    induction hu with
    | self => exact x.id_mem_ids
    | owned live owned _ ih =>
      obtain ⟨p, b, hp, hb, hm⟩ := h.owned _ _ _ live owned
      exact hx.child_mem ih hp (by simpa [Entry.children, hb] using hm)

theorem Holds.ids_nodup (h : t.Sound) {x : Tree} (hx : t.Holds x) : x.ids.Nodup := by
  induction hx with
  | leaf => simp [Tree.ids_node]
  | @scope id e b es bs live body entries builtins held ih =>
    have hchildren := (Holds.scope live body entries builtins held).children
    have owned : ∀ x ∈ es ++ bs, ∃ ec, t.get? x.id = some ec ∧ ec.owner = some id := fun x hx => by
      obtain ⟨ec, lc, _, hoc⟩ := h.child live (hchildren ▸ List.mem_map_of_mem hx)
      exact ⟨ec, lc, hoc⟩
    obtain ⟨n, hn⟩ := h.level id e live
    -- what lies under a child does not lie over it
    have notAbove : ∀ x ∈ es ++ bs, ¬ t.Under x.id id := fun x hx hu => by
      obtain ⟨ec, lc, hoc⟩ := owned x hx
      exact (Level.owned lc hoc hn).not_under_owned lc hoc hu
    have apart : ∀ x ∈ es ++ bs, ∀ y ∈ es ++ bs, t.Under x.id y.id → x.id = y.id := by
      intro x hx y hy hu
      obtain ⟨ec, lc, hoc⟩ := owned y hy
      exact (hu.above lc hoc).resolve_right (notAbove x hx)
    rw [Tree.ids_node, List.nodup_cons, List.nodup_flatMap]
    refine ⟨?_, ih, ?_⟩
    · intro hm
      obtain ⟨x, hx, hid⟩ := List.mem_flatMap.mp hm
      exact notAbove x hx (((held x hx).mem_ids h).mp hid)
    · have hdistinct : (es ++ bs).Pairwise fun x y => x.id ≠ y.id := by
        apply List.pairwise_map.mp
        show ((es ++ bs).map Tree.id).Nodup
        exact hchildren ▸ h.children_nodup live
      apply hdistinct.imp_of_mem
      intro x y hx hy hne z hzx hzy
      have hux := ((held x hx).mem_ids h).mp hzx
      have huy := ((held y hy).mem_ids h).mp hzy
      rcases hux.linear huy with hxy | hyx
      · exact hne (apart x hx y hy hxy)
      · exact hne (apart y hy x hx hyx).symm

end Table
end Settings
