import Settings.Proofs.Session.Runs
import Settings.Table.Lookup

/-!
# Paths

A path is made on the way up, from the names between an entry and its top, and followed on the way
down, through the name indexes. Between the two lies the text, which is taken apart at its points
again whether they stood between two names or within one.

`Links.descend?_namesTo` goes down by the names themselves and always comes back to the entry.
`Links.names_of_descend?` is the converse: whatever names lead to an entry from its top are the
names on its chain. So a path leads back to its entry just if taking it apart gives the names again,
and since no part holds a point, that is just if no name does.
-/

set_option autoImplicit false

namespace Settings
namespace Table

variable {t t' : Table}

/-! ## The top of a chain -/

theorem Links.unique {id : EntryId} {links links' : List (EntryId × Entry)} (h : t.Links id links)
    (h' : t.Links id links') : links = links' := by
  induction h generalizing links' with
  | top live detached =>
    cases h' with
    | top live' _ =>
      rw [live, Option.some.injEq] at live'
      rw [live']
    | owned live' owned' _ =>
      rw [live, Option.some.injEq] at live'
      rw [← live', detached] at owned'
      exact absurd owned' (by simp)
  | owned live owned _ ih =>
    cases h' with
    | top live' detached' =>
      rw [live, Option.some.injEq] at live'
      rw [← live', owned] at detached'
      exact absurd detached' (by simp)
    | owned live' owned' above' =>
      obtain rfl := Option.mem_unique live live'
      obtain rfl := Option.mem_unique owned owned'
      rw [ih above']

/-- A chain is the way to its last entry, which has no owner. -/
theorem Links.exists_top {id : EntryId} {links : List (EntryId × Entry)} (h : t.Links id links) :
    ∃ top e, links.getLast? = some (top, e) ∧ t.Links top [(top, e)] := by
  induction h with
  | @top id e live detached => exact ⟨id, e, rfl, .top live detached⟩
  | @owned id owner e links live owned above ih =>
    obtain ⟨top, etop, hlast, hlinks⟩ := ih
    refine ⟨top, etop, ?_, hlinks⟩
    rw [List.getLast?_cons, hlast]
    rfl

theorem Links.live {id : EntryId} {links : List (EntryId × Entry)} (h : t.Links id links) :
    ∀ link ∈ links, t.get? link.1 = some link.2 := by
  induction h with
  | top live _ => simpa using live
  | owned live _ _ ih => exact List.forall_mem_cons.mpr ⟨live, ih⟩

theorem Links.exists_entry {id : EntryId} {links : List (EntryId × Entry)} (h : t.Links id links) :
    ∃ e, t.get? id = some e := by
  cases h with
  | top live _ => exact ⟨_, live⟩
  | owned live _ _ => exact ⟨_, live⟩

/-- The way up stays where the owners of its entries do, with whatever else is kept of them. -/
theorem Links.carried {β : Type} {g : Entry → β} {id : EntryId} {links : List (EntryId × Entry)}
    (h : t.Links id links) (keep : ∀ link ∈ links, ∃ e', t'.get? link.1 = some e' ∧
      e'.owner = link.2.owner ∧ g e' = g link.2) :
    ∃ links', t'.Links id links' ∧
      links'.map (fun link => (link.1, g link.2)) = links.map fun link => (link.1, g link.2) := by
  induction h with
  | @top id e live detached =>
    obtain ⟨e', live', howner, hg⟩ := keep (id, e) List.mem_cons_self
    exact ⟨_, .top live' (howner.trans detached), by simp [hg]⟩
  | @owned id owner e links live owned above ih =>
    obtain ⟨⟨e', live', howner, hg⟩, hkeep⟩ := List.forall_mem_cons.mp keep
    obtain ⟨links', hlinks', hsame⟩ := ih hkeep
    exact ⟨_, .owned live' (howner.trans owned) hlinks', by simp [hg, hsame]⟩

theorem namesTo_top (id : EntryId) (e : Entry) : namesTo [(id, e)] = [] := rfl

/-- The names along a chain are told by whatever tells the name of each of its entries. -/
theorem namesTo_congr {β : Type} {g : EntryId × Entry → β} (label : β → String)
    (hlabel : ∀ link, label (g link) = link.2.name) {links links' : List (EntryId × Entry)}
    (h : links'.map g = links.map g) : namesTo links' = namesTo links := by
  have names : ∀ row : List (EntryId × Entry),
      namesTo row = (((row.map g).map label).dropLast).reverse := by
    intro row
    simp [namesTo, List.map_dropLast, Function.comp_def, hlabel]
  rw [names, names, h]

theorem Links.namesTo_cons {id : EntryId} {e : Entry} {links : List (EntryId × Entry)}
    {owner : EntryId} (above : t.Links owner links) :
    namesTo ((id, e) :: links) = namesTo links ++ [e.name] := by
  cases above <;> simp [namesTo]

/-! ## Going down -/

theorem find?_eq_ok {id : EntryId} {e : Entry} (live : t.get? id = some e) (name : String) :
    t.find? id name = .ok (e.scope?.bind fun b => b.find? name) := by
  unfold find?
  rw [entry_eq_ok.mpr live]
  rfl

/-- What a name leads to is owned by where it leads from, and has the name. -/
theorem Sound.find?_some (h : t.Sound) {id c : EntryId} {name : String}
    (hf : t.find? id name = .ok (some c)) :
    ∃ ec, t.get? c = some ec ∧ ec.owner = some id ∧ ec.name = name := by
  cases live : t.get? id with
  | none => simp [find?, entry_eq_error live, bind, Except.bind] at hf
  | some e =>
    rw [find?_eq_ok live, Except.ok.injEq] at hf
    obtain ⟨b, hb, hc⟩ := Option.bind_eq_some_iff.mp hf
    have scope := h.scope id e b live hb
    obtain ⟨hm, ec, lc, hname⟩ := (scope.find?_iff name c).mp hc
    obtain ⟨ec', lc', _, howner⟩ := scope.child c hm
    rw [lc, Option.some.injEq] at lc'
    exact ⟨ec, lc, lc' ▸ howner, hname⟩

/-- An owner finds its children by their names. -/
theorem Sound.find?_of_owned (h : t.Sound) {id owner : EntryId} {e : Entry}
    (live : t.get? id = some e) (howner : e.owner = some owner) :
    t.find? owner e.name = .ok (some id) := by
  obtain ⟨p, b, lp, hb, found⟩ := h.owner_finds live howner
  rw [find?_eq_ok lp, hb]
  exact congrArg Except.ok found

theorem descend?_append (start : EntryId) (names : List String) (name : String) :
    t.descend? start (names ++ [name]) = (do
      match ← t.descend? start names with
      | none => return none
      | some found => t.find? found name) := by
  induction names generalizing start with
  | nil =>
    show t.descend? start [name] = t.find? start name
    simp only [descend?]
    cases t.find? start name with
    | error x => rfl
    | ok found => cases found <;> rfl
  | cons first names ih =>
    simp only [List.cons_append, descend?]
    cases t.find? start first with
    | error x => rfl
    | ok found =>
      cases found with
      | none => rfl
      | some child => exact ih child

theorem Sound.exists_descend? (h : t.Sound) {start : EntryId} {e : Entry}
    (live : t.get? start = some e) (names : List String) :
    ∃ found, t.descend? start names = .ok found := by
  induction names generalizing start e with
  | nil => exact ⟨some start, rfl⟩
  | cons name names ih =>
    unfold descend?
    cases hf : t.find? start name with
    | error x => simp [find?_eq_ok live] at hf
    | ok found =>
      cases found with
      | none => exact ⟨none, rfl⟩
      | some c =>
        obtain ⟨ec, lc, _⟩ := h.find?_some hf
        exact ih lc

/-- The names on the way up lead down again. -/
theorem Links.descend?_namesTo (h : t.Sound) {id top : EntryId} {etop : Entry}
    {links : List (EntryId × Entry)} (hlinks : t.Links id links)
    (htop : links.getLast? = some (top, etop)) :
    t.descend? top (namesTo links) = .ok (some id) := by
  induction hlinks with
  | @top id e live detached =>
    obtain ⟨rfl, rfl⟩ : id = top ∧ e = etop := by simpa using htop
    rfl
  | @owned id owner e links live owned above ih =>
    have habove : links.getLast? = some (top, etop) := by
      obtain ⟨_, _, hlast, _⟩ := above.exists_top
      rw [List.getLast?_cons, hlast] at htop
      rw [hlast]
      exact htop
    rw [above.namesTo_cons, descend?_append, ih habove]
    exact h.find?_of_owned live owned

/-- Names that lead from one entry to another are those that the second has on its way up and the
first has not. -/
theorem Links.names_of_descend? (h : t.Sound) {start id : EntryId} {names : List String}
    {links : List (EntryId × Entry)} (hstart : t.Links start links)
    (hd : t.descend? start names = .ok (some id)) :
    ∃ links', t.Links id links' ∧ namesTo links' = namesTo links ++ names := by
  induction names generalizing start links with
  | nil =>
    obtain rfl : start = id := by simpa [descend?] using hd
    exact ⟨links, hstart, by simp⟩
  | cons name names ih =>
    unfold descend? at hd
    cases hf : t.find? start name with
    | error x => simp [hf, bind, Except.bind] at hd
    | ok found =>
      cases found with
      | none => simp [hf, bind, Except.bind, pure, Except.pure] at hd
      | some c =>
        obtain ⟨ec, lc, howner, hname⟩ := h.find?_some hf
        have hd : t.descend? c names = .ok (some id) := by
          simpa [hf, bind, Except.bind] using hd
        obtain ⟨links', hl', hnames⟩ := ih (.owned lc howner hstart) hd
        refine ⟨links', hl', ?_⟩
        rw [hnames, hstart.namesTo_cons, hname]
        simp

/-! ## What a path finds -/

/-- An entry that some scope owns. -/
def Owned (t : Table) (id : EntryId) : Prop :=
  ∃ e owner, t.get? id = some e ∧ e.owner = some owner

theorem Sound.owned_of_find? (h : t.Sound) {id c : EntryId} {name : String}
    (hf : t.find? id name = .ok (some c)) : t.Owned c := by
  obtain ⟨ec, lc, howner, _⟩ := h.find?_some hf
  exact ⟨ec, id, lc, howner⟩

theorem Sound.owned_of_descend? (h : t.Sound) {start id : EntryId} {names : List String}
    (hne : names ≠ []) (hd : t.descend? start names = .ok (some id)) : t.Owned id := by
  obtain ⟨names, name, rfl⟩ : ∃ before last, names = before ++ [last] :=
    ⟨_, _, (List.dropLast_append_getLast hne).symm⟩
  rw [descend?_append] at hd
  cases hbefore : t.descend? start names with
  | error x => simp [hbefore, bind, Except.bind] at hd
  | ok found =>
    cases found with
    | none => simp [hbefore, bind, Except.bind, pure, Except.pure] at hd
    | some found =>
      simp only [hbefore, bind, Except.bind] at hd
      exact h.owned_of_find? hd

/-- What a name stands for along a chain is found by it at an entry of the chain. -/
theorem find?_of_firstChild? {links : List (EntryId × Entry)} {name : String} {c : EntryId}
    (hlive : ∀ link ∈ links, t.get? link.1 = some link.2) (hc : firstChild? name links = some c) :
    ∃ link ∈ links, t.find? link.1 name = .ok (some c) := by
  induction links with
  | nil => simp [firstChild?] at hc
  | cons link links ih =>
    obtain ⟨live, hlive⟩ := List.forall_mem_cons.mp hlive
    unfold firstChild? at hc
    cases hb : link.2.scope? with
    | none => simp [hb] at hc
    | some b =>
      rw [hb] at hc
      rcases Option.or_eq_some_iff.mp hc with hc | ⟨_, hc⟩
      · refine ⟨link, List.mem_cons_self, ?_⟩
        rw [find?_eq_ok live, hb]
        exact congrArg Except.ok hc
      · obtain ⟨above, hmem, hfound⟩ := ih hlive hc
        exact ⟨above, List.mem_cons_of_mem _ hmem, hfound⟩

theorem Sound.exists_lookup? (h : t.Sound) {start : EntryId} {e : Entry}
    (live : t.get? start = some e) (name : String) :
    ∃ found, t.lookup? start name true = .ok found ∧
      ∀ id, found = some id → id = start ∧ name = "" ∨ t.Owned id := by
  unfold lookup?
  by_cases hname : name = ""
  · refine ⟨some start, by rw [if_pos hname], ?_⟩
    intro id hid
    exact Or.inl ⟨(Option.some.inj hid).symm, hname⟩
  · obtain ⟨links, hchain, hlinks⟩ := h.exists_chain live
    refine ⟨firstChild? name links, by rw [if_neg hname, if_pos rfl, hchain]; rfl, ?_⟩
    intro id hid
    obtain ⟨link, _, hfound⟩ := find?_of_firstChild? hlinks.live hid
    exact Or.inr (h.owned_of_find? hfound)

/-- Looking up a path from a live entry never fails. It finds an owned entry if anything, the empty
path aside, which finds where it starts. -/
theorem Sound.exists_lookupPath? (h : t.Sound) {start : EntryId} {e : Entry}
    (live : t.get? start = some e) (path : String) :
    ∃ found, t.lookupPath? start path = .ok found ∧
      ∀ id, found = some id → id = start ∧ path = "" ∨ t.Owned id := by
  unfold lookupPath?
  by_cases hpath : path = ""
  · refine ⟨some start, by rw [if_pos hpath], ?_⟩
    intro id hid
    exact Or.inl ⟨(Option.some.inj hid).symm, hpath⟩
  rw [if_neg hpath]
  cases hnames : pathNames path with
  | nil => exact ⟨none, rfl, by simp⟩
  | cons first names =>
    obtain ⟨found, hfound, howned⟩ := h.exists_lookup? live first
    simp only [hfound, bind, Except.bind]
    cases found with
    | none => exact ⟨none, rfl, by simp⟩
    | some c =>
      obtain ⟨ec, lc⟩ : ∃ ec, t.get? c = some ec := by
        rcases howned c rfl with ⟨rfl, _⟩ | ⟨ec, _, lc, _⟩
        · exact ⟨e, live⟩
        · exact ⟨ec, lc⟩
      obtain ⟨found, hdescend⟩ := h.exists_descend? lc names
      refine ⟨found, hdescend, ?_⟩
      rintro id rfl
      refine Or.inr ?_
      by_cases hne : names = []
      · subst hne
        obtain rfl : c = id := by simpa [descend?] using hdescend
        rcases howned c rfl with ⟨_, hfirst⟩ | howned
        · rw [hfirst] at hnames
          exact absurd (eq_empty_of_pathNames hnames) hpath
        · exact howned
      · exact h.owned_of_descend? hne hdescend

/-! ## Following a path from a top -/

/-- From a top a path is followed name by name. An empty first name stays where it is. -/
theorem lookupPath?_top {top : EntryId} {e : Entry} (hlinks : t.Links top [(top, e)])
    {path : String} (hpath : path ≠ "") {first : String} {names : List String}
    (hnames : pathNames path = first :: names) :
    t.lookupPath? top path =
      if first = "" then t.descend? top names else t.descend? top (first :: names) := by
  have live : t.get? top = some e := by
    cases hlinks with
    | top live _ => exact live
    | owned _ _ above => cases above
  have hchain : t.chain top = .ok [(top, e)] := chainWithin_eq_ok_iff.mpr ⟨hlinks, by simp⟩
  unfold lookupPath?
  rw [if_neg hpath, hnames]
  simp only [lookup?]
  by_cases hfirst : first = ""
  · rw [if_pos hfirst, if_pos hfirst]
    rfl
  · have hfound : (t.chain top).map (firstChild? first) = t.find? top first := by
      rw [hchain, find?_eq_ok live]
      simp only [Except.map, firstChild?]
      cases e.scope? <;> simp
    rw [if_neg hfirst, if_neg hfirst, if_pos trivial, hfound]
    rfl

/-- No name on the way up holds a point, that of the top apart. -/
def DotFree (links : List (EntryId × Entry)) : Prop :=
  ∀ link ∈ links.dropLast, '.' ∉ link.2.name.toList

theorem dotFree_iff {links : List (EntryId × Entry)} :
    DotFree links ↔ ∀ name ∈ namesTo links, '.' ∉ name.toList := by
  simp only [DotFree, namesTo, List.mem_reverse, List.mem_map, forall_exists_index, and_imp,
    forall_apply_eq_imp_iff₂]

theorem Links.name_ne_empty (h : t.Sound) {id : EntryId} {links : List (EntryId × Entry)}
    (hlinks : t.Links id links) : ∀ name ∈ namesTo links, name ≠ "" := by
  induction hlinks with
  | top => simp [namesTo]
  | owned live owned above ih =>
    rw [above.namesTo_cons]
    intro name hname
    rcases List.mem_append.mp hname with hname | hname
    · exact ih name hname
    · rw [List.mem_singleton.mp hname]
      exact h.name_ne_empty live owned

/-- The path of an entry, followed from its top, leads somewhere or nowhere, and to the entry just
if no name on the way holds a point. -/
theorem Links.lookupPath?_pathOfNames (h : t.Sound) {id top : EntryId} {etop : Entry}
    {links : List (EntryId × Entry)} (hlinks : t.Links id links)
    (hlast : links.getLast? = some (top, etop)) :
    ∃ found, t.lookupPath? top (pathOfNames (namesTo links)) = .ok found ∧
      (found = some id ↔ DotFree links) := by
  obtain ⟨top', etop', hlast', htop⟩ := hlinks.exists_top
  rw [hlast, Option.some.injEq, Prod.mk.injEq] at hlast'
  obtain ⟨rfl, rfl⟩ := hlast'
  have liveTop : t.get? top = some etop := by
    cases htop with
    | top live _ => exact live
    | owned _ _ above => cases above
  rw [dotFree_iff]
  by_cases hpath : pathOfNames (namesTo links) = ""
  · -- the empty path leads to the top, so the entry is the top and there are no names
    refine ⟨some top, by rw [hpath]; rfl, ?_, ?_⟩
    · intro hid
      obtain rfl : top = id := Option.some.inj hid
      rw [hlinks.unique htop, namesTo_top]
      simp
    · intro hfree
      by_cases hne : namesTo links = []
      · have := hlinks.descend?_namesTo h hlast
        rw [hne] at this
        exact Except.ok.inj this
      · have hnames := pathNames_pathOfNames hne hfree
        rw [hpath] at hnames
        have hempty : "" ∈ namesTo links := hnames ▸ List.mem_singleton.mpr rfl
        exact absurd rfl (hlinks.name_ne_empty h "" hempty)
  · cases hnames : pathNames (pathOfNames (namesTo links)) with
    | nil => exact absurd (List.map_eq_nil_iff.mp hnames) (splitChars_ne_nil _ _)
    | cons first names =>
      have parts : ∀ name ∈ first :: names, '.' ∉ name.toList := fun name hname =>
        not_mem_of_mem_pathNames (hnames ▸ hname)
      rw [lookupPath?_top htop hpath hnames]
      -- what leads to the entry is a part of the path, and the parts hold no points
      have converse : ∀ {row}, (∀ name ∈ row, '.' ∉ name.toList) →
          t.descend? top row = .ok (some id) → ∀ name ∈ namesTo links, '.' ∉ name.toList := by
        intro row hrow hd
        obtain ⟨links', hl', hnames'⟩ := htop.names_of_descend? h hd
        rw [hlinks.unique hl', hnames', namesTo_top, List.nil_append]
        exact hrow
      have forward : (∀ name ∈ namesTo links, '.' ∉ name.toList) → first ≠ "" ∧
          t.descend? top (first :: names) = .ok (some id) := by
        intro hfree
        have hne : namesTo links ≠ [] := fun hnil => hpath (by rw [hnil]; rfl)
        have hsame : first :: names = namesTo links :=
          hnames.symm.trans (pathNames_pathOfNames hne hfree)
        refine ⟨?_, hsame ▸ hlinks.descend?_namesTo h hlast⟩
        exact hlinks.name_ne_empty h first (hsame ▸ List.mem_cons_self)
      split
      · rename_i hfirst
        obtain ⟨found, hfound⟩ := h.exists_descend? liveTop names
        refine ⟨found, hfound, ?_, fun hfree => absurd hfirst (forward hfree).1⟩
        intro hid
        exact converse (List.forall_mem_cons.mp parts).2 (hid ▸ hfound)
      · obtain ⟨found, hfound⟩ := h.exists_descend? liveTop (first :: names)
        refine ⟨found, hfound, fun hid => converse parts (hid ▸ hfound), ?_⟩
        intro hfree
        rw [(forward hfree).2] at hfound
        exact (Except.ok.inj hfound).symm

/-- The path of an entry leads back to it from its top just if no name on the way holds a point. Of
the entries of one tree for which that is so, no two have the same path. -/
theorem path_leads_back_iff_dotFree (h : t.Reachable) {id : EntryId} {e : Entry}
    (live : t.get? id = some e) :
    ∃ links path top found, t.chain id = .ok links ∧
      links.getLast?.map Prod.fst = some top ∧ t.pathOf id = .ok path ∧
      t.lookupPath? top path = .ok found ∧ (found = some id ↔ DotFree links) ∧
      ∀ other links', t.chain other = .ok links' → links'.getLast?.map Prod.fst = some top →
        DotFree links → DotFree links' → t.pathOf other = .ok path → other = id := by
  have sound := h.sound
  obtain ⟨links, hchain, hlinks⟩ := sound.exists_chain live
  obtain ⟨top, etop, hlast, _⟩ := hlinks.exists_top
  obtain ⟨found, hfound, hiff⟩ := hlinks.lookupPath?_pathOfNames sound hlast
  have hpath : ∀ {x xs}, t.chain x = .ok xs → t.pathOf x = .ok (pathOfNames (namesTo xs)) := by
    intro x xs hx
    unfold pathOf
    rw [hx]
    rfl
  refine ⟨links, _, top, found, hchain, by rw [hlast]; rfl, hpath hchain, hfound, hiff, ?_⟩
  intro other links' hchain' hlast' hfree hfree' hsame
  have hlinks' := (chainWithin_eq_ok_iff.mp hchain').1
  obtain ⟨⟨top', etop'⟩, htop', rfl⟩ := Option.map_eq_some_iff.mp hlast'
  obtain ⟨found', hfound', hiff'⟩ := hlinks'.lookupPath?_pathOfNames sound htop'
  rw [hpath hchain', Except.ok.injEq] at hsame
  -- the one path leads to both
  rw [hsame, hfound, Except.ok.injEq, hiff.mpr hfree, hiff'.mpr hfree'] at hfound'
  exact (Option.some.inj hfound').symm

/-- A scope whose name begins with a point, beside one that its path could be taken for, and a value
in each. -/
theorem path_of_value_in_dotted_scope :
    let t := ((Session.fresh "root" "").after
      [.ask (.register root ".pop" "" (.scope "")), .ask (.register root "pop" "" (.scope "")),
        .ask (.register ⟨1⟩ "size" "" .number), .ask (.register ⟨2⟩ "size" "" .number)]).table
    t.Reachable ∧ ∃ e, t.get? ⟨3⟩ = some e ∧ ∃ links path top found, t.chain ⟨3⟩ = .ok links ∧
      links.getLast?.map Prod.fst = some top ∧ t.pathOf ⟨3⟩ = .ok path ∧
      t.lookupPath? top path = .ok found ∧ (found = some ⟨3⟩ ↔ DotFree links) := by
  intro t
  have h : t.Reachable := ⟨"root", "", _, rfl⟩
  obtain ⟨e, live⟩ := contains_iff.mp (show t.contains ⟨3⟩ = true by decide +kernel)
  obtain ⟨links, path, top, found, hchain, htop, hpath, hfound, hiff, _⟩ :=
    path_leads_back_iff_dotFree h live
  exact ⟨h, e, live, links, path, top, found, hchain, htop, hpath, hfound, hiff⟩

end Table
end Settings
