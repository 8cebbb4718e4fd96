import Settings.Proofs.Listing.Lines
import Settings.Proofs.Session.RecordedDefaults

/-!
# Listings of live values

A listing shows recorded defaults where there are any, so it does not always tell how settings are
at the moment. It does right after the defaults have been recorded. Recording changes the headers of
the entries that are met through registered children (`Tree.recorded`) and nothing else: names and
places are as before, each value is read as before, and the same entries break their constraints.
Only what is listed is different, namely live values throughout (`Tree.outlineAll_recordedAll`), and
line by line this is what there is to see (`Tree.join_liveOutlineAll`).
-/

set_option autoImplicit false

namespace Settings

/-! ## One entry -/

namespace Entry

variable {e : Entry} {s : Store}

/-- Right after the recording the saved text is the live value, also where it is the empty text that
stands for none. -/
theorem serialized_recordDefault {text : String} (h : e.readText s = .ok text) :
    (e.recordDefault s).serialized s = .ok text := by
  rw [Table.recordDefault_of_readText h]
  show (if text = "" then e.readText s else .ok text) = .ok text
  split
  · exact h
  · rfl

theorem readText_recordDefault (e : Entry) (s s' : Store) :
    (e.recordDefault s).readText s' = e.readText s' := by
  unfold recordDefault
  split <;> rfl

theorem violates_recordDefault (e : Entry) (s s' : Store) :
    Table.violates s' (e.recordDefault s) = Table.violates s' e := by
  unfold recordDefault
  split <;> rfl

theorem isScalar_recordDefault (e : Entry) (s : Store) :
    (e.recordDefault s).isScalar = e.isScalar := by
  unfold recordDefault
  split <;> rfl

theorem scope?_recordDefault (e : Entry) (s : Store) : (e.recordDefault s).scope? = e.scope? := by
  unfold recordDefault
  split <;> rfl

end Entry

/-! ## Trees -/

namespace Tree

open Listing

mutual

/-- The outline that shows live values, whatever is recorded. -/
def liveOutline (s : Store) : Tree → List Outline
  | node _ e es _ =>
      if e.isFunction then []
      else if e.isScope then [.group e.name e.description (liveOutlineAll s es)]
      else match e.readText s with
        | .ok text => [.value e.name text e.description]
        | .error _ => []

def liveOutlineAll (s : Store) : List Tree → List Outline
  | [] => []
  | x :: xs => liveOutline s x ++ liveOutlineAll s xs

end

mutual

/-- The tree with the values recorded in it. What is under a builtin stays as it is. -/
def recorded (s : Store) : Tree → Tree
  | node i e es bs => node i (e.recordDefault s) (recordedAll s es) bs

def recordedAll (s : Store) : List Tree → List Tree
  | [] => []
  | x :: xs => recorded s x :: recordedAll s xs

end

variable {s : Store}

theorem recordedAll_eq (s : Store) (xs : List Tree) : recordedAll s xs = xs.map (recorded s) := by
  induction xs with
  | nil => simp [recordedAll]
  | cons x xs ih => simp [recordedAll, ih]

theorem id_recorded (s : Store) (x : Tree) : (x.recorded s).id = x.id := by
  cases x with
  | node => simp [recorded, id]

theorem entries_recorded (s : Store) (x : Tree) :
    (x.recorded s).entries = recordedAll s x.entries := by
  cases x with
  | node => simp [recorded, entries]

mutual

theorem outline_recorded (s : Store) : ∀ x : Tree, (x.recorded s).outline s = x.liveOutline s
  | node id e es bs => by
    simp only [recorded, outline, liveOutline, outlineAll_recordedAll s es]
    cases hscalar : e.isScalar with
    | true =>
      obtain ⟨hscope, hfunction⟩ : e.isScope = false ∧ e.isFunction = false := by
        simpa [Entry.isScalar] using hscalar
      obtain ⟨text, htext⟩ := Table.exists_readText hscalar s
      have hsaved := Entry.serialized_recordDefault htext
      rw [Table.recordDefault_of_readText htext] at hsaved ⊢
      show (if e.isFunction then [] else if e.isScope then _ else _) = _
      simp only [hsaved, htext, hfunction, hscope]
    | false =>
      -- nothing is recorded, and nothing saved either
      rw [Table.recordDefault_of_not_isScalar hscalar]
      cases hfunction : e.isFunction with
      | true => rfl
      | false =>
        have hscope : e.isScope = true := by simpa [Entry.isScalar, hfunction] using hscalar
        simp [hscope]

/-- Once the defaults are recorded the outline shows live values. -/
theorem outlineAll_recordedAll (s : Store) :
    ∀ xs : List Tree, outlineAll s (recordedAll s xs) = liveOutlineAll s xs
  | [] => by simp [recordedAll, outlineAll, liveOutlineAll]
  | x :: xs => by
    simp only [recordedAll, outlineAll, liveOutlineAll]
    rw [outline_recorded s x, outlineAll_recordedAll s xs]

end

/-! ### Lines -/

mutual

/-- The lines that show live values. -/
def liveLines (s : Store) (depth : Nat) : Tree → List Line
  | node id e es _ =>
      if e.isFunction then []
      else if e.isScope then
        .opening id e depth :: liveLinesAll s (depth + 1) es ++ [.closing id e depth]
      else match e.readText s with
        | .ok text => [.value id e depth text]
        | .error _ => []

def liveLinesAll (s : Store) (depth : Nat) : List Tree → List Line
  | [] => []
  | x :: xs => liveLines s depth x ++ liveLinesAll s depth xs

end

mutual

theorem map_text_lines_recorded (s : Store) (indent : String) (column : Nat) :
    ∀ (x : Tree) (depth : Nat), ((x.recorded s).lines s depth).map (Line.text indent column) =
      (x.liveLines s depth).map (Line.text indent column)
  | node id e es bs, depth => by
    have inside := map_text_linesAll_recordedAll s indent column es (depth + 1)
    cases hscalar : e.isScalar with
    | true =>
      obtain ⟨hscope, hfunction⟩ : e.isScope = false ∧ e.isFunction = false := by
        simpa [Entry.isScalar] using hscalar
      obtain ⟨text, htext⟩ := Table.exists_readText hscalar s
      have hsaved := Entry.serialized_recordDefault htext
      simp only [recorded, lines, liveLines]
      rw [Table.recordDefault_of_readText htext] at hsaved ⊢
      show List.map _ (if e.isFunction then [] else if e.isScope then _ else _) = _
      -- the line differs in the recorded default, and this is not printed
      simp only [hsaved, htext, hfunction, hscope]
      rfl
    | false =>
      -- nothing is recorded, and what is printed is the scope itself
      simp only [recorded, Table.recordDefault_of_not_isScalar hscalar, lines, liveLines]
      cases hfunction : e.isFunction with
      | true => rfl
      | false =>
        have hscope : e.isScope = true := by simpa [Entry.isScalar, hfunction] using hscalar
        simp [hscope, inside]

/-- The text of each line is that of the line that shows the live value. -/
theorem map_text_linesAll_recordedAll (s : Store) (indent : String) (column : Nat) :
    ∀ (xs : List Tree) (depth : Nat),
      (linesAll s depth (recordedAll s xs)).map (Line.text indent column) =
        (liveLinesAll s depth xs).map (Line.text indent column)
  | [], _ => by simp [recordedAll, linesAll, liveLinesAll]
  | x :: xs, depth => by
    simp only [recordedAll, linesAll, liveLinesAll, List.map_append]
    rw [map_text_lines_recorded s indent column x depth,
      map_text_linesAll_recordedAll s indent column xs depth]

end

/-- The text of the outline that shows live values is that of the lines that do. -/
theorem join_liveOutlineAll (xs : List Tree) (s : Store) (indent : String) (column : Nat) :
    String.join (piecesAll indent column (liveOutlineAll s xs)) =
      textOfLines indent column (liveLinesAll s 0 xs) := by
  have htext := congrArg (List.map (· ++ "\n")) (map_text_linesAll_recordedAll s indent column xs 0)
  simp only [List.map_map] at htext
  rw [← outlineAll_recordedAll, join_outlineAll]
  exact congrArg String.join htext

mutual

theorem settings_recorded (s : Store) : ∀ x : Tree,
    (x.recorded s).settings = x.settings.map fun setting => (setting.1, setting.2.recordDefault s)
  | node id e es bs => by
    simp only [recorded, settings, Entry.isScalar_recordDefault, List.map_append,
      settingsAll_recordedAll s es]
    split <;> rfl

theorem settingsAll_recordedAll (s : Store) : ∀ xs : List Tree, settingsAll (recordedAll s xs) =
    (settingsAll xs).map fun setting => (setting.1, setting.2.recordDefault s)
  | [] => by simp [recordedAll, settingsAll]
  | x :: xs => by
    simp only [recordedAll, settingsAll, List.map_append]
    rw [settings_recorded s x, settingsAll_recordedAll s xs]

end

section

variable {id : EntryId} {e : Entry} {es bs : List Tree} {y : Tree} {z : EntryId}
  (hn : (node id e es bs).ids.Nodup)
include hn

/-- What is under a registered child is registered in the tree just if it is in the child. -/
theorem mem_registered_of_mem_child (hy : y ∈ es) (hz : z ∈ y.ids) :
    z ∈ (node id e es bs).registered ↔ z ∈ y.registered := by
  rw [ids_node, List.nodup_cons, List.nodup_flatMap] at hn
  obtain ⟨hid, -, hapart⟩ := hn
  have hmem := List.mem_append_left bs hy
  rw [registered_node, List.mem_cons, List.mem_flatMap]
  refine ⟨?_, fun hr => Or.inr ⟨y, hy, hr⟩⟩
  rintro (rfl | ⟨w, hw, hr⟩)
  · exact absurd (List.mem_flatMap.mpr ⟨y, hmem, hz⟩) hid
  · by_cases heq : w = y
    · exact heq ▸ hr
    · have : Std.Symm (Function.onFun List.Disjoint ids) :=
        ⟨fun _ _ h => List.Disjoint.symm h⟩
      have hdisjoint := hapart.forall (List.mem_append_left bs hw) hmem heq
      exact absurd hz (hdisjoint (w.registered_sublist_ids.subset hr))

/-- Nothing under a builtin is registered in the tree. -/
theorem not_mem_registered_of_mem_builtin (hy : y ∈ bs) (hz : z ∈ y.ids) :
    z ∉ (node id e es bs).registered := by
  rw [ids_node, List.nodup_cons, List.nodup_flatMap] at hn
  obtain ⟨hid, -, hapart⟩ := hn
  rw [registered_node, List.mem_cons, List.mem_flatMap]
  rintro (rfl | ⟨w, hw, hr⟩)
  · exact hid (List.mem_flatMap.mpr ⟨y, List.mem_append_right es hy, hz⟩)
  · exact (List.pairwise_append.mp hapart).2.2 w hw y hy (w.registered_sublist_ids.subset hr) hz

end

end Tree

namespace Table

variable {t t' : Table} {s : Store} {id : EntryId} {e : Entry} {x : Tree}

/-- The entries met through registered children have their values recorded. -/
theorem Holds.recorded (h : t.Holds x) (hn : x.ids.Nodup) (found : ∀ y ∈ x.ids, t'.get? y =
      if y ∈ x.registered then (t.get? y).map fun e => e.recordDefault s else t.get? y) :
    t'.Holds (x.recorded s) := by
  induction h with
  | @leaf id e live plain =>
    have live' := found id (Tree.id_mem_ids _)
    rw [if_pos (by simp [Tree.registered_node]), live] at live'
    have hscope := (e.scope?_recordDefault s).trans plain
    simpa [Tree.recorded, Tree.recordedAll] using Holds.leaf live' hscope
  | @scope id e b es bs live body entries builtins held ih =>
    have live' := found id (Tree.id_mem_ids _)
    rw [if_pos (by simp [Tree.registered_node]), live] at live'
    have hscope := (e.scope?_recordDefault s).trans body
    have hids {y : Tree} (hy : y ∈ es ++ bs) {z : EntryId} (hz : z ∈ y.ids) :
        z ∈ (Tree.node id e es bs).ids := Tree.mem_ids_node.mpr (Or.inr ⟨y, hy, hz⟩)
    rw [Tree.recorded, Tree.recordedAll_eq]
    refine .scope live' hscope ?_ builtins (List.forall_mem_append.mpr ⟨?_, ?_⟩)
    · rw [List.map_map, ← entries]
      exact List.map_congr_left fun y _ => Tree.id_recorded s y
    · intro y' hy'
      obtain ⟨y, hy, rfl⟩ := List.mem_map.mp hy'
      have hmem := List.mem_append_left bs hy
      have hnodup : y.ids.Nodup := by
        rw [Tree.ids_node, List.nodup_cons, List.nodup_flatMap] at hn
        exact hn.2.1 y hmem
      refine ih y hmem hnodup fun z hz => ?_
      simp only [found z (hids hmem hz), Tree.mem_registered_of_mem_child hn hy hz]
    · intro y hy
      have hmem := List.mem_append_right es hy
      refine (held y hmem).congr fun z hz => ?_
      rw [found z (hids hmem hz), if_neg (Tree.not_mem_registered_of_mem_builtin hn hy hz)]

/-! ## Tables -/

theorem SameFrames.pathOf (h : t.Sound) (h' : t'.Sound) (same : t.SameFrames t')
    (live : t.get? id = some e) : t'.pathOf id = t.pathOf id := by
  obtain ⟨links, hchain, hlinks⟩ := h.exists_chain live
  obtain ⟨e', live', -⟩ := same.live live
  obtain ⟨links', hchain', hlinks'⟩ := h'.exists_chain live'
  have keep : ∀ link ∈ links, ∃ d, t'.get? link.1 = some d ∧ d.owner = link.2.owner ∧
      d.name = link.2.name := by
    intro link hlink
    have hframe := same link.1
    rw [hlinks.live link hlink] at hframe
    obtain ⟨d, hd, heq⟩ := Option.map_eq_some_iff.mp hframe
    exact ⟨d, hd, congrArg (fun f => f.2.1) heq, congrArg (fun f => f.1) heq⟩
  obtain ⟨carried, hcarried, hnames⟩ := hlinks.carried keep
  obtain rfl := hcarried.unique hlinks'
  unfold Table.pathOf
  rw [hchain, hchain']
  exact congrArg (fun names => Except.ok (pathOfNames names))
    (namesTo_congr (fun x => x.2) (fun _ => rfl) hnames)

/-- What recording the defaults under an entry comes to. -/
structure Recorded (t : Table) (s : Store) (x : Tree) (t' : Table) : Prop where
  sound : t'.Sound
  frames : t.SameFrames t'
  tree : t'.tree x.id = .ok (x.recorded s)
  found : ∀ y, t'.get? y =
    if y ∈ x.registered then (t.get? y).map fun e => e.recordDefault s else t.get? y

theorem Sound.recorded (h : t.Sound) (htree : t.tree id = .ok x) (s : Store) :
    ∃ t', (updateDefault s id : Edit Empty Unit).run t = (.ok (), t') ∧ t.Recorded s x t' := by
  obtain ⟨⟨hx, -⟩, rfl⟩ := tree_eq_ok_iff.mp htree
  obtain ⟨t', hrun, found⟩ := Table.run_updateDefault h htree s
  have sound : t'.Sound := by
    have := h.updated (ε := Empty) s x.id
    rwa [hrun] at this
  obtain ⟨u, hwalk, -, frames⟩ := records_updateDefault (ε := Empty) htree s
  obtain rfl : u = t' := congrArg Prod.snd (hwalk.symm.trans hrun)
  have hheld := hx.recorded (hx.ids_nodup h) fun y _ => found y
  obtain ⟨y, hy⟩ := sound.exists_tree hheld.live
  obtain ⟨⟨hheld', -⟩, hid⟩ := tree_eq_ok_iff.mp hy
  refine ⟨u, hrun, sound, frames, ?_, found⟩
  rw [← hheld'.unique hheld hid, ← hy, Tree.id_recorded]

namespace Recorded

variable (h : t.Recorded s x t')
include h

/-- Right after the recording the listing shows live values. -/
theorem listingOfContents (indent : String) (column : Nat) :
    t'.listingOfContents s x.id indent column =
      .ok (Listing.piecesAll indent column (Tree.liveOutlineAll s x.entries)) := by
  unfold Table.listingOfContents
  rw [h.tree, Except.map, Tree.entries_recorded, Tree.outlineAll_recordedAll]

theorem validate (htree : t.tree x.id = .ok x) : t'.validate s x.id = t.validate s x.id := by
  unfold Table.validate
  rw [h.tree, htree, Except.map, Except.map, Tree.entries_recorded, Tree.settingsAll_recordedAll,
    List.filter_map, List.map_map]
  simp only [Function.comp_def, Entry.violates_recordDefault]

/-- Values are read as before, at any state of the host variables. -/
theorem readText (s' : Store) (id : EntryId) : t'.readText s' id = t.readText s' id := by
  cases live : t.get? id with
  | none =>
    have live' : t'.get? id = none := by
      rw [h.found, live]
      simp
    unfold Table.readText
    rw [liveEntry_eq_error live, liveEntry_eq_error live']
  | some e =>
    have hfound := h.found id
    rw [live] at hfound
    rw [readText_of_live live]
    split at hfound
    · rw [readText_of_live hfound, Entry.readText_recordDefault]
    · rw [readText_of_live hfound]

end Recorded

end Table

end Settings
