import Settings.Proofs.Session.Attachment
import Settings.Proofs.Table.Growth

/-!
# Lexical lookup

A name is looked up along the chain of a scope, and what it finds is the child of that name in the
first scope that has one. `lookup?_eq_findSome?` says this of the function, and `NearestChild` of
what is in the table: lists of children and names of entries, not indexes.

So a lookup hangs on the chain and on the children of the scopes on it. It is not changed by what
leaves the children alone, as long as the chain does not go on beyond its top, and a registration
changes it only where nothing of the same name is nearer (`lookup?_of_inserted`).
-/

set_option autoImplicit false

namespace Settings
namespace Table

/-- The scope has the child, registered or builtin, under the name. -/
def HasChild (t : Table) (scope : EntryId) (name : String) (c : EntryId) : Prop :=
  ∃ p b ec, t.get? scope = some p ∧ p.scope? = some b ∧ c ∈ b.children ∧
    t.get? c = some ec ∧ ec.name = name

def IsScope (t : Table) (id : EntryId) : Prop := ∃ e b, t.get? id = some e ∧ e.scope? = some b

/-- The scope is on the chain, and none before it has a child with the name. -/
def Unshadowed (t : Table) (name : String) (ids : List EntryId) (scope : EntryId) : Prop :=
  ∃ nearer farther, ids = nearer ++ scope :: farther ∧ ∀ x ∈ nearer, ∀ d, ¬ t.HasChild x name d

/-- The child with the name of the first scope on the chain that has one. -/
def NearestChild (t : Table) (name : String) (ids : List EntryId) (c : EntryId) : Prop :=
  ∃ scope, t.Unshadowed name ids scope ∧ t.HasChild scope name c

/-- The scope has the same children under the same names. -/
def KeepsChildren (t t' : Table) (scope : EntryId) : Prop :=
  ∀ name c, t'.HasChild scope name c ↔ t.HasChild scope name c

/-- What a lookup of the name from the entry finds has come into the scope: the entry is the scope
or one within it, and nothing nearer has the name. -/
structure FindsNew (t : Table) (ids : List EntryId) (scope id : EntryId) (name : String)
    (t' : Table) : Prop where
  isScope : t.IsScope id
  within : t.Under scope id
  unshadowed : t.Unshadowed name ids scope
  found : ∃ new, t.get? new = none ∧ t'.HasChild scope name new ∧
    t'.lookup? id name true = .ok (some new)

/-- What a scope finds under a name; nothing at an entry that is no scope. -/
def child? (t : Table) (name : String) (id : EntryId) : Option EntryId :=
  ((t.get? id).bind Entry.scope?).bind fun b => b.find? name

variable {t t' : Table} {id scope c new : EntryId} {e : Entry} {name other : String}
  {links links' : List (EntryId × Entry)} {ids : List EntryId} {builtin : Bool}

theorem isScope_iff : t.IsScope id ↔ ((t.get? id).bind Entry.scope?).isSome := by
  constructor
  · intro hid
    obtain ⟨e, b, live, hb⟩ := hid
    simp [live, hb]
  · intro hsome
    obtain ⟨b, hbody⟩ := Option.isSome_iff_exists.mp hsome
    obtain ⟨e, live, hb⟩ := Option.bind_eq_some_iff.mp hbody
    exact ⟨e, b, live, hb⟩

/-! ## Children -/

theorem Sound.child?_eq_some_iff (h : t.Sound) :
    t.child? name id = some c ↔ t.HasChild id name c := by
  unfold child? HasChild
  constructor
  · intro hc
    obtain ⟨b, hb, hc⟩ := Option.bind_eq_some_iff.mp hc
    obtain ⟨p, lp, hb⟩ := Option.bind_eq_some_iff.mp hb
    obtain ⟨hm, ec, lc, hname⟩ := ((h.scope id p b lp hb).find?_iff name c).mp hc
    exact ⟨p, b, ec, lp, hb, hm, lc, hname⟩
  · rintro ⟨p, b, ec, lp, hb, hm, lc, hname⟩
    rw [lp, Option.bind_some, hb]
    exact ((h.scope id p b lp hb).find?_iff name c).mpr ⟨hm, ec, lc, hname⟩

theorem Sound.child?_eq_none_iff (h : t.Sound) :
    t.child? name id = none ↔ ∀ c, ¬ t.HasChild id name c := by
  rw [Option.eq_none_iff_forall_ne_some]
  exact forall_congr' fun c => not_congr h.child?_eq_some_iff

theorem child?_of_keepsChildren (h : t.Sound) (h' : t'.Sound) (hk : t.KeepsChildren t' id) :
    t'.child? name id = t.child? name id := by
  apply Option.ext
  intro c
  rw [h'.child?_eq_some_iff, h.child?_eq_some_iff]
  exact hk name c

theorem findSome?_congr {α β : Type} {f g : α → Option β} {as : List α} (h : ∀ a ∈ as, f a = g a) :
    as.findSome? f = as.findSome? g := by
  induction as with
  | nil => rfl
  | cons a as ih =>
    obtain ⟨ha, has⟩ := List.forall_mem_cons.mp h
    rw [List.findSome?_cons, List.findSome?_cons, ha, ih has]

/-! ## What a lookup finds -/

/-- From a scope upwards there are only scopes. -/
theorem Links.scope?_isSome (h : t.Sound) (hl : t.Links id links) (hid : t.IsScope id) :
    ∀ link ∈ links, link.2.scope?.isSome := by
  induction hl with
  | @top id e live detached =>
    obtain ⟨e', b, live', hb⟩ := hid
    obtain rfl := Option.mem_unique live live'
    simp [hb]
  | @owned id owner e links live owned _ ih =>
    obtain ⟨e', b, live', hb⟩ := hid
    obtain rfl := Option.mem_unique live live'
    obtain ⟨p, bp, lp, hbp, _⟩ := h.owned id e owner live owned
    exact List.forall_mem_cons.mpr ⟨by simp [hb], ih ⟨p, bp, lp, hbp⟩⟩

theorem firstChild?_eq_findSome? (hlive : ∀ link ∈ links, t.get? link.1 = some link.2)
    (hscope : ∀ link ∈ links, link.2.scope?.isSome) :
    firstChild? name links = (links.map Prod.fst).findSome? (t.child? name) := by
  induction links with
  | nil => rfl
  | cons link links ih =>
    obtain ⟨live, hlive⟩ := List.forall_mem_cons.mp hlive
    obtain ⟨hb, hscope⟩ := List.forall_mem_cons.mp hscope
    obtain ⟨b, hb⟩ := Option.isSome_iff_exists.mp hb
    have hchild : t.child? name link.1 = b.find? name := by simp [child?, live, hb]
    have hfirst : firstChild? name (link :: links) =
        (b.find? name).or (firstChild? name links) := by simp [firstChild?, hb]
    rw [List.map_cons, List.findSome?_cons, hchild, ← ih hlive hscope, hfirst]
    cases b.find? name <;> rfl

/-- A lookup from a scope goes along its chain and takes the first child of that name. -/
theorem Links.lookup?_eq_findSome? (h : t.Sound) (hl : t.Links id links) (hid : t.IsScope id)
    (hname : name ≠ "") :
    t.lookup? id name true = .ok ((links.map Prod.fst).findSome? (t.child? name)) := by
  unfold lookup?
  rw [if_neg hname, if_pos rfl, hl.chain h]
  exact congrArg Except.ok (firstChild?_eq_findSome? hl.live (hl.scope?_isSome h hid))

/-- A lookup from an entry that is no scope finds nothing. -/
theorem Sound.lookup?_of_not_scope (h : t.Sound) (live : t.get? id = some e)
    (hplain : e.scope? = none) (hname : name ≠ "") : t.lookup? id name true = .ok none := by
  obtain ⟨links, hchain, hl⟩ := h.exists_chain live
  unfold lookup?
  rw [if_neg hname, if_pos rfl, hchain]
  cases hl with
  | top live' _ | owned live' _ _ =>
    obtain rfl := Option.mem_unique live live'
    simp [Except.map, firstChild?, hplain]

theorem Sound.findSome?_eq_some_iff (h : t.Sound) :
    ids.findSome? (t.child? name) = some c ↔ t.NearestChild name ids c := by
  rw [List.findSome?_eq_some_iff]
  constructor
  · rintro ⟨nearer, scope, farther, hids, hc, hnone⟩
    exact ⟨scope, ⟨nearer, farther, hids, fun x hx => h.child?_eq_none_iff.mp (hnone x hx)⟩,
      h.child?_eq_some_iff.mp hc⟩
  · rintro ⟨scope, ⟨nearer, farther, hids, hnone⟩, hc⟩
    exact ⟨nearer, scope, farther, hids, h.child?_eq_some_iff.mpr hc,
      fun x hx => h.child?_eq_none_iff.mpr (hnone x hx)⟩

theorem Sound.findSome?_eq_none_iff (h : t.Sound) :
    ids.findSome? (t.child? name) = none ↔ ∀ x ∈ ids, ∀ c, ¬ t.HasChild x name c := by
  rw [List.findSome?_eq_none_iff]
  exact forall₂_congr fun x _ => h.child?_eq_none_iff

/-! ## What does not change it -/

theorem lookup?_of_keepsChildren (h : t.Sound) (h' : t'.Sound) (hl : t.Links id links)
    (hid : t.IsScope id) (hid' : t'.IsScope id) (hname : name ≠ "")
    (keep : ∀ x ∈ links.map Prod.fst, t.KeepsChildren t' x)
    (top : ∀ x ∈ links.map Prod.fst, t'.Owned x → t.Owned x) :
    t'.lookup? id name true = t.lookup? id name true := by
  -- each scope on the chain but the last is a child of the next, so its owner is the same
  have hlinks : ∃ links', t'.Links id links' ∧ links'.map Prod.fst = links.map Prod.fst := by
    have start := hid'
    clear hid hid'
    induction hl with
    | @top id e live detached =>
      obtain ⟨e', _, live', _⟩ := start
      have detached' : e'.owner = none := by
        apply Option.eq_none_iff_forall_ne_some.mpr
        intro owner howner
        obtain ⟨e₀, o, le₀, ho⟩ := top id (by simp) ⟨e', owner, live', howner⟩
        obtain rfl := Option.mem_unique live le₀
        rw [detached] at ho
        exact absurd ho (by simp)
      exact ⟨_, .top live' detached', rfl⟩
    | @owned id owner e links live owned above ih =>
      rw [List.map_cons] at keep top
      obtain ⟨_, hkeep⟩ := List.forall_mem_cons.mp keep
      obtain ⟨_, htop⟩ := List.forall_mem_cons.mp top
      have howner : owner ∈ links.map Prod.fst := above.mem_iff.mpr .self
      obtain ⟨p, b, lp, hb, hm⟩ := h.owned id e owner live owned
      obtain ⟨p', b', _, lp', hb', hm', _⟩ :=
        (hkeep owner howner e.name id).mpr ⟨p, b, e, lp, hb, hm, live, rfl⟩
      obtain ⟨links', hl', hids⟩ := ih hkeep htop ⟨p', b', lp', hb'⟩
      obtain ⟨e', live', _, howner'⟩ := (h'.scope owner p' b' lp' hb').child id hm'
      exact ⟨_, .owned live' howner' hl', by rw [List.map_cons, List.map_cons, hids]⟩
  obtain ⟨links', hl', hids⟩ := hlinks
  rw [hl.lookup?_eq_findSome? h hid hname, hl'.lookup?_eq_findSome? h' hid' hname, hids]
  exact congrArg Except.ok (findSome?_congr fun x hx => child?_of_keepsChildren h h' (keep x hx))

/-- An attachment leaves the children of all entries alone but the scope that is attached to. -/
theorem Attached.keepsChildren (h : t.Sound) (ha : t.Attached scope id t') {x : EntryId}
    (hne : x ≠ scope) : t.KeepsChildren t' x := by
  have h' := h.attached ha
  have hbody : (t'.get? x).bind Entry.scope? = (t.get? x).bind Entry.scope? := by
    have hattached := ha
    obtain ⟨e, p, b, live, _, _, _, lp, hb, _⟩ := hattached
    rw [ha.get? live lp hb]
    by_cases hid : x = id
    · rw [if_pos hid, hid, live]
      rfl
    · rw [if_neg hid, if_neg hne]
  intro name c
  rw [← h.child?_eq_some_iff, ← h'.child?_eq_some_iff, child?, child?, hbody]

/-! ## What a registration changes -/

theorem Inserted.fresh (h : t.SlotsOk) (hi : t.Inserted scope e builtin new t') :
    t.get? new = none :=
  h.get?_nextSlots (hi.takes.1 ▸ List.mem_singleton_self new)

theorem Inserted.live_of_live (h : t.SlotsOk) (hi : t.Inserted scope e builtin new t')
    {x : EntryId} {ex : Entry} (lx : t.get? x = some ex) :
    t'.get? x = some (if x = scope then ex.withChild e.name new builtin else ex) := by
  have hne : x ≠ new := by
    rintro rfl
    rw [hi.fresh h] at lx
    exact absurd lx (by simp)
  rw [hi.get? h, if_neg hne]
  by_cases hx : x = scope
  · rw [if_pos hx, if_pos hx, ← hx, lx]
    rfl
  · rw [if_neg hx, if_neg hx, lx]

theorem Inserted.child? (h : t.SlotsOk) (hi : t.Inserted scope e builtin new t') {x : EntryId}
    {ex : Entry} (lx : t.get? x = some ex) (name : String) :
    t'.child? name x = if x = scope ∧ name = e.name then some new else t.child? name x := by
  unfold Table.child?
  rw [hi.live_of_live h lx, lx, Option.bind_some, Option.bind_some]
  by_cases hx : x = scope
  · obtain ⟨p, b, lp, hb, _⟩ := hi
    rw [hx, lp, Option.some.injEq] at lx
    subst lx
    have hbody : (p.withChild e.name new builtin).scope? = some (b.push e.name new builtin) := by
      rw [Entry.withChild_of_scope? hb]
      rfl
    rw [if_pos hx, hbody, hb, Option.bind_some, Option.bind_some, find?_push]
    simp [hx]
  · rw [if_neg hx, if_neg fun hand => hx hand.1]

theorem Inserted.exists_links (h : t.SlotsOk) (hi : t.Inserted scope e builtin new t')
    (hl : t.Links id links) :
    ∃ links', t'.Links id links' ∧ links'.map Prod.fst = links.map Prod.fst := by
  have keep : ∀ link ∈ links, ∃ e', t'.get? link.1 = some e' ∧ e'.owner = link.2.owner ∧
      e'.name = link.2.name := by
    intro link hlink
    refine ⟨_, hi.live_of_live h (hl.live link hlink), ?_⟩
    split
    · obtain ⟨storage, hstorage⟩ := link.2.exists_withChild e.name new builtin
      rw [hstorage]
      exact ⟨rfl, rfl⟩
    · exact ⟨rfl, rfl⟩
  obtain ⟨links', hl', hsame⟩ := hl.carried keep
  have hids := congrArg (List.map Prod.fst) hsame
  rw [List.map_map, List.map_map] at hids
  exact ⟨links', hl', hids⟩

theorem Inserted.isScope (h : t.SlotsOk) (hi : t.Inserted scope e builtin new t')
    (hid : t.IsScope id) : t'.IsScope id := by
  obtain ⟨ex, b, lx, hb⟩ := hid
  refine ⟨_, ?_, hi.live_of_live h lx, ?_⟩
  · exact if id = scope then b.push e.name new builtin else b
  · by_cases hx : id = scope
    · rw [if_pos hx, if_pos hx, Entry.withChild_of_scope? hb]
      rfl
    · rw [if_neg hx, if_neg hx, hb]

/-- A registration changes what a lookup finds only if the lookup is of the name, from within the
scope, and finds nothing nearer. It then finds the new entry. -/
theorem lookup?_of_inserted (h : t.Sound) (h' : t'.Sound)
    (hi : t.Inserted scope e builtin new t') (hl : t.Links id links) (hname : name ≠ "") :
    t'.lookup? id name true = t.lookup? id name true ∨
      name = e.name ∧ t.FindsNew (links.map Prod.fst) scope id name t' := by
  have child : ∀ {x}, x ∈ links.map Prod.fst → t'.child? name x =
      if x = scope ∧ name = e.name then some new else t.child? name x := by
    intro x hx
    obtain ⟨link, hlink, rfl⟩ := List.mem_map.mp hx
    exact hi.child? h.slots (hl.live link hlink) name
  by_cases hid : t.IsScope id
  · obtain ⟨links', hl', hids⟩ := hi.exists_links h.slots hl
    have hlookup := hl.lookup?_eq_findSome? h hid hname
    have hlookup' := hl'.lookup?_eq_findSome? h' (hi.isScope h.slots hid) hname
    rw [hids] at hlookup'
    by_cases hscope : name = e.name ∧ scope ∈ links.map Prod.fst
    · obtain ⟨heq, hm⟩ := hscope
      obtain ⟨nearer, farther, hsplit, hout⟩ := List.eq_append_cons_of_mem hm
      have hscopeChild : t'.child? name scope = some new := by
        rw [child hm, if_pos ⟨rfl, heq⟩]
      have hnearer : nearer.findSome? (t'.child? name) = nearer.findSome? (t.child? name) := by
        apply findSome?_congr
        intro x hx
        rw [child (hsplit ▸ List.mem_append_left _ hx), if_neg]
        rintro ⟨rfl, _⟩
        exact hout hx
      cases hfound : nearer.findSome? (t.child? name) with
      | some d =>
        refine Or.inl ?_
        rw [hlookup, hlookup', hsplit, List.findSome?_append, List.findSome?_append, hnearer,
          hfound]
        rfl
      | none =>
        refine Or.inr ⟨heq, hid, hl.mem_iff.mp hm, ⟨nearer, farther, hsplit, ?_⟩, new,
          hi.fresh h.slots, h'.child?_eq_some_iff.mp hscopeChild, ?_⟩
        · exact h.findSome?_eq_none_iff.mp hfound
        · rw [hlookup', hsplit, List.findSome?_append, hnearer, hfound, List.findSome?_cons,
            hscopeChild]
          rfl
    · refine Or.inl ?_
      rw [hlookup, hlookup']
      apply congrArg Except.ok
      apply findSome?_congr
      intro x hx
      rw [child hx, if_neg]
      rintro ⟨rfl, heq⟩
      exact hscope ⟨heq, hx⟩
  · obtain ⟨ex, lx, hplain⟩ : ∃ ex, t.get? id = some ex ∧ ex.scope? = none := by
      obtain ⟨ex, lx⟩ := hl.exists_entry
      refine ⟨ex, lx, Option.eq_none_iff_forall_ne_some.mpr fun b hb => hid ⟨ex, b, lx, hb⟩⟩
    have lx' := hi.live_of_live h.slots lx
    rw [if_neg] at lx'
    · rw [h.lookup?_of_not_scope lx hplain hname, h'.lookup?_of_not_scope lx' hplain hname]
      exact Or.inl rfl
    · rintro rfl
      obtain ⟨p, b, lp, hb, _⟩ := hi
      exact hid ⟨p, b, lp, hb⟩

end Table

/-! ## Operations -/

/-- The scope and the name of an operation that registers something. -/
def Operation.registersIn? : Operation → Option (EntryId × String)
  | .ask (.register scope name _ _) => some (scope, name)
  | .define scope name _ _ _ => some (scope, name)
  | _ => none

/-- A registration is refused or done. -/
theorem Operation.run_registersIn {op : Operation} {s : Session} {scope : EntryId} {name : String}
    (h : s.table.Sound) (hop : op.registersIn? = some (scope, name)) :
    (op.run s).table = s.table ∨ ∃ e builtin new, e.name = name ∧
      s.table.Inserted scope e builtin new (op.run s).table := by
  cases op with
  | ask r =>
    cases r with
    | register scope' name' description content =>
      obtain ⟨rfl, rfl⟩ : scope' = scope ∧ name' = name := by simpa [registersIn?] using hop
      rcases Session.ask_cases (.register scope' name' description content) s with
        hsame | ⟨reply, t, st, ha, hrun⟩
      · rw [hsame]
        exact Or.inl rfl
      · rw [hrun]
        rcases Request.register_eq_ok h.slots ha with ⟨_, hsame, _⟩ | ⟨new, _, _, hi⟩
        · exact Or.inl hsame
        · exact Or.inr ⟨Table.entryOf name' description content, false, new, rfl, hi⟩
    | _ => exact absurd hop (by simp [registersIn?])
  | define scope' name' f description builtin =>
    obtain ⟨rfl, rfl⟩ : scope' = scope ∧ name' = name := by simpa [registersIn?] using hop
    have hrun : ((define scope' name' f description builtin).run s).table =
        ((Table.define scope' name' f description builtin).run s.table).2 := rfl
    rw [hrun]
    rcases Table.insert_atomic h.slots scope' (.new name' description (.function f)) builtin with
      ⟨x, hx⟩ | ⟨new, t, hx, hi⟩
    · exact Or.inl (congrArg Prod.snd hx)
    · refine Or.inr ⟨.new name' description (.function f), builtin, new, rfl, ?_⟩
      have htable : ((Table.define scope' name' f description builtin).run s.table).2 = t :=
        congrArg Prod.snd hx
      rwa [htable]
  | copyLive | invoke | callMember | newObject | change | setChannel =>
    exact absurd hop (by simp [registersIn?])

namespace Table

variable {s : Session} {id : EntryId} {e : Entry} {name : String}

/-- A lookup from a scope finds the nearest child of that name on its chain, and one from another
entry finds nothing. Operations that leave the children of the scopes on the chain alone leave what
it finds alone, unless they give an owner to the top of the chain. A registration changes what it
finds only by what it brings in, where no scope nearer has the name. -/
theorem lookup_finds_nearest_child (h : s.table.Reachable) (live : s.table.get? id = some e)
    (hname : name ≠ "") :
    ∃ ids, (s.table.chain id).map (List.map Prod.fst) = .ok ids ∧
      (e.scope? = none → s.table.lookup? id name true = .ok none) ∧
      (e.scope?.isSome →
        (∀ c, s.table.lookup? id name true = .ok (some c) ↔ s.table.NearestChild name ids c) ∧
        (s.table.lookup? id name true = .ok none ↔
          ∀ x ∈ ids, ∀ c, ¬ s.table.HasChild x name c) ∧
        ∀ ops : List Operation, (s.after ops).table.IsScope id →
          (∀ x ∈ ids, s.table.KeepsChildren (s.after ops).table x) →
          (∀ x ∈ ids, (s.after ops).table.Owned x → s.table.Owned x) →
          (s.after ops).table.lookup? id name true = s.table.lookup? id name true) ∧
      ∀ (op : Operation) scope other, op.registersIn? = some (scope, other) →
        (op.run s).table.lookup? id name true = s.table.lookup? id name true ∨
          name = other ∧ s.table.FindsNew ids scope id name (op.run s).table := by
  have sound := h.sound
  obtain ⟨links, hchain, hl⟩ := sound.exists_chain live
  refine ⟨links.map Prod.fst, by rw [hchain]; rfl, ?_, ?_, ?_⟩
  · intro hplain
    exact sound.lookup?_of_not_scope live hplain hname
  · intro hscope
    obtain ⟨b, hb⟩ := Option.isSome_iff_exists.mp hscope
    have hid : s.table.IsScope id := ⟨e, b, live, hb⟩
    have hlookup := hl.lookup?_eq_findSome? sound hid hname
    refine ⟨?_, ?_, ?_⟩
    · intro c
      rw [hlookup, Except.ok.injEq]
      exact sound.findSome?_eq_some_iff
    · rw [hlookup, Except.ok.injEq]
      exact sound.findSome?_eq_none_iff
    · intro ops hid' keep top
      exact lookup?_of_keepsChildren sound (kept_sound.after ops sound) hl hid hid' hname keep top
  · intro op scope other hop
    rcases Operation.run_registersIn sound hop with hsame | ⟨e', builtin, new, rfl, hi⟩
    · rw [hsame]
      exact Or.inl rfl
    · exact lookup?_of_inserted sound (kept_sound.run op s sound) hi hl hname

/-- A scope with a value in it, and another value beside the scope: from within, both are found. -/
theorem lookup_from_scope_beside_value :
    let s := (Session.fresh "root" "").after
      [.ask (.register root "size" "" .number), .ask (.register root "pop" "" (.scope "")),
        .ask (.register ⟨2⟩ "age" "" .number)]
    s.table.Reachable ∧ ∃ e, s.table.get? ⟨2⟩ = some e ∧ ("size" : String) ≠ "" ∧ ∃ ids,
      (s.table.chain ⟨2⟩).map (List.map Prod.fst) = .ok ids ∧
      s.table.lookup? ⟨2⟩ "size" true = .ok (some ⟨1⟩) ∧ s.table.NearestChild "size" ids ⟨1⟩ := by
  intro s
  have h : s.table.Reachable := ⟨"root", "", _, rfl⟩
  have live : s.table.get? ⟨2⟩ = some
      { Entry.new "pop" "" (.scope ⟨[⟨3⟩], [], ⟨[("age", ⟨3⟩)], by simp⟩, ""⟩) with
        owner := some root } := rfl
  have hname : ("size" : String) ≠ "" := by decide
  obtain ⟨ids, hids, _, hscope, _⟩ := lookup_finds_nearest_child h live hname
  have hfound : s.table.lookup? ⟨2⟩ "size" true = .ok (some ⟨1⟩) := rfl
  exact ⟨h, _, live, hname, ids, hids, hfound, ((hscope rfl).1 ⟨1⟩).mp hfound⟩

/-- Attaching a copy leaves its children alone, and with them those of the only scope on its chain,
but the chain goes on upwards then, and a lookup from the copy finds what it did not find before. -/
theorem attaching_changes_lookup_from_copy :
    let s := (Session.fresh "root" "").after
      [.ask (.register root "size" "" .number), .ask (.register root "pop" "" (.scope "")),
        .ask (.register ⟨2⟩ "age" "" .number), .ask (.clone ⟨2⟩), .ask (.rename ⟨4⟩ "copy")]
    let t := s.table
    let t' := ((Operation.ask (.attach root ⟨4⟩)).run s).table
    t.Reachable ∧ t.IsScope ⟨4⟩ ∧ t'.IsScope ⟨4⟩ ∧
      (t.chain ⟨4⟩).map (List.map Prod.fst) = .ok [⟨4⟩] ∧ t.KeepsChildren t' ⟨4⟩ ∧
      t.lookup? ⟨4⟩ "size" true = .ok none ∧ t'.lookup? ⟨4⟩ "size" true = .ok (some ⟨1⟩) := by
  intro s t t'
  have h : t.Reachable := ⟨"root", "", _, rfl⟩
  have hscope : t.IsScope ⟨4⟩ := isScope_iff.mpr (by decide +kernel)
  have hscope' : t'.IsScope ⟨4⟩ := isScope_iff.mpr (by decide +kernel)
  have hattached : t.Attached root ⟨4⟩ t' := by
    have hdone : ((attach root ⟨4⟩).run t).1 = .ok () := rfl
    exact (attach_atomic t root ⟨4⟩).of_ok (Prod.ext hdone rfl)
  exact ⟨h, hscope, hscope', rfl, hattached.keepsChildren h.sound (by decide), rfl, rfl⟩

end Table
end Settings
