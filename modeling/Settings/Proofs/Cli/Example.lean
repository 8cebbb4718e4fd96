import Settings.Proofs.Cli.Options
import Settings.Proofs.Listing.Live
import Settings.Proofs.Listing.Order
import Settings.Proofs.Session.Operating
import Settings.Proofs.Session.ScriptHandles

/-!
# Printing the demonstration

A run of the command that prints the demonstration ends in one of three ways, and prints on standard
output in one of them only. Options are read to the end before anything is assigned, so the first
malformed one decides even if an assignment would be refused. Assignments are made one after the
other on a demonstration of their own, up to the first that is refused. If all are done the values
are recorded, so that the listing shows live values (`Table.Recorded.listingOfContents`), and every
entry that breaks its constraints is reported on a line.

The judgement `Ends` spells out what stands in the two texts of an output, line by line, and not in
terms of what writes them.

No run meets a fault: the demonstration is a session that a host can come to, and writes of values
leave the shapes of its entries alone.
-/

set_option autoImplicit false

namespace Settings

/-! ## Entries that are reported on one line -/

/-- No name breaks the line, and what is of a numeric kind is stored as a number, so that its text
does not break it either. -/
structure Table.OneLine (t : Table) : Prop where
  name : ∀ id e, t.get? id = some e → '\n' ∉ e.name.toList
  number : ∀ id e, t.get? id = some e → e.kind.isNumeric = true → e.isNumeric? = some true

namespace Table.OneLine

variable {t : Table} {s : Store} {id : EntryId} {e : Entry} (h : t.OneLine)
include h

theorem exists_path (sound : t.Sound) (live : t.get? id = some e) :
    ∃ path, t.pathOf id = .ok path ∧ '\n' ∉ path.toList := by
  obtain ⟨links, hchain, hlinks⟩ := sound.exists_chain live
  refine ⟨pathOfNames (namesTo links), congrArg (Except.map _) hchain, ?_⟩
  refine not_mem_pathOfNames (by decide) fun name hname => ?_
  unfold namesTo at hname
  obtain ⟨link, hlink, rfl⟩ := List.mem_map.mp (List.mem_reverse.mp hname)
  exact h.name link.1 link.2 (hlinks.live link (List.mem_of_mem_dropLast hlink))

theorem exists_text (live : t.get? id = some e) (hviolates : violates s e = true) :
    ∃ text, t.readText s id = .ok text ∧ '\n' ∉ text.toList := by
  have numeric : e.kind.isNumeric = true := by
    unfold violates at hviolates
    exact (Bool.and_eq_true_iff.mp hviolates).1
  obtain ⟨text, _, hread, -, hreads⟩ := Entry.reads_of_isNumeric (h.number id e live numeric) s
  refine ⟨text, (readText_eq_ok live).mpr hread, fun hmem => ?_⟩
  exact absurd (hreads.isBlank_of_mem _ hmem) (by decide)

end Table.OneLine

theorem Session.SameShapes.oneLine {s s' : Session} (h : s.SameShapes s')
    (lines : s.table.OneLine) : s'.table.OneLine := by
  have earlier : ∀ id e', s'.table.get? id = some e' →
      ∃ e, s.table.get? id = some e ∧ e'.shape = e.shape := by
    intro id e' live'
    have hshape := h.shape id
    rw [live'] at hshape
    obtain ⟨e, live, heq⟩ := Option.map_eq_some_iff.mp hshape.symm
    exact ⟨e, live, heq.symm⟩
  constructor
  · intro id e' live'
    obtain ⟨e, live, heq⟩ := earlier id e' live'
    have hname : e'.shape.name = e.shape.name := by rw [heq]
    exact (show e'.name = e.name from hname) ▸ lines.name id e live
  · intro id e' live' numeric
    obtain ⟨e, live, heq⟩ := earlier id e' live'
    have hkind : e'.shape.kind = e.shape.kind := by rw [heq]
    rw [Entry.isNumeric?_of_shape heq]
    exact lines.number id e live ((show e'.kind = e.kind from hkind) ▸ numeric)

namespace Demo

/-- The demonstration is built. -/
theorem exists_start : ∃ handles s, start = (.ok handles, s) := by
  have built : start.1.toOption.isSome = true := by decide +kernel
  rcases hstart : start with ⟨outcome, s⟩
  rw [hstart] at built
  cases outcome with
  | ok handles => exact ⟨handles, s, rfl⟩
  | error x => cases built

theorem start_oneLine : start.2.table.OneLine := by
  have checked : ∀ i < start.2.table.slots.size, ∀ e ∈ start.2.table.get? ⟨i⟩,
      '\n' ∉ e.name.toList ∧ (e.kind.isNumeric = true → e.isNumeric? = some true) := by
    decide +kernel
  have all (id : EntryId) (e : Entry) (live : start.2.table.get? id = some e) :=
    checked id.index (Table.index_lt_of_get? live) e live
  exact ⟨fun id e live => (all id e live).1, fun id e live => (all id e live).2⟩

end Demo

namespace Cli

open Listing

variable {s s₀ s' : Session} {id : EntryId} {assignments : List String}

/-! ## Assignments -/

/-- The assignments are made in order, and every one of them is done. -/
inductive Assigned : List String → Session → Session → Prop
  | nil {s : Session} : Assigned [] s s
  | cons {assignment : String} {assignments : List String} {s s' s'' : Session}
      (done : (Session.assign Table.root assignment).run s = (.ok (), s'))
      (rest : Assigned assignments s' s'') : Assigned (assignment :: assignments) s s''

/-- The assignment ends with an error. -/
def Refused (assignment : String) (s : Session) (error : ScriptError) : Prop :=
  ∃ s', (Session.assign Table.root assignment).run s = (.error (.error error), s')

theorem Assigned.run (h : Assigned assignments s s') :
    (assignAll assignments).run s = (.ok (), s') := by
  induction h with
  | nil => rfl
  | cons done rest ih => exact (Action.bind_ok _ done).trans ih

theorem Assigned.run_refused {first rest : List String} {assignment : String} {error : ScriptError}
    (h : Assigned first s s') (refused : Refused assignment s' error) :
    ((assignAll (first ++ assignment :: rest)).run s).1 = .error (.error error) := by
  induction h with
  | nil =>
    obtain ⟨s'', hrun⟩ := refused
    exact congrArg Prod.fst (Action.bind_error (fun _ => assignAll rest) hrun)
  | cons done _ ih => exact (congrArg Prod.fst (Action.bind_ok _ done)).trans (ih refused)

theorem Assigned.sameShapes (h : Assigned assignments s s') (sound : s.table.Sound) :
    s.SameShapes s' := by
  induction h with
  | nil => exact .refl sound
  | @cons assignment assignments s s₁ s₂ done rest ih =>
    have first := Session.sameShapes_run sound (.assignment Table.root assignment)
    rw [show (ValueWrite.assignment Table.root assignment).run s = s₁ from
      congrArg Prod.snd done] at first
    exact first.trans (ih first.sound)

/-- All assignments are done, or there is a first one that is refused. -/
theorem assigned_or_refused (sound : s.table.Sound) (assignments : List String) :
    (∃ s', Assigned assignments s s') ∨ ∃ first assignment rest s' error,
      assignments = first ++ assignment :: rest ∧ Assigned first s s' ∧
        Refused assignment s' error := by
  induction assignments generalizing s with
  | nil => exact .inl ⟨s, .nil⟩
  | cons assignment assignments ih =>
    obtain ⟨_, _, live, _⟩ := sound.root
    have faultless := Session.assign_faultless sound (Table.contains_iff.mpr ⟨_, live⟩) assignment
    rcases hrun : (Session.assign Table.root assignment).run s with ⟨outcome, s₁⟩
    rw [hrun] at faultless
    cases outcome with
    | error x =>
      cases x with
      | fault y => exact absurd rfl (faultless y)
      | error error => exact .inr ⟨[], assignment, assignments, s, error, rfl, .nil, s₁, hrun⟩
    | ok =>
      have done : Assigned [assignment] s s₁ := .cons hrun .nil
      rcases ih (done.sameShapes sound).sound with
        ⟨s', rest⟩ | ⟨first, other, rest, s', error, rfl, assigned, refused⟩
      · exact .inl ⟨s', .cons hrun rest⟩
      · exact .inr ⟨assignment :: first, other, rest, s', error, rfl, .cons hrun assigned, refused⟩

/-! ## What is printed -/

/-- The line is the warning about the entry, with its path and its value. -/
def Warns (s : Session) (id : EntryId) (line : String) : Prop :=
  ∃ path text, s.table.pathOf id = .ok path ∧ s.table.readText s.store id = .ok text ∧
    line = "warning: " ++ path ++ " = " ++ text ++ " is outside its allowed range" ∧
    '\n' ∉ line.toList

/-- The output is that of a run that succeeds: the lines of what is under the root, with live values
and with comments at the column, and a line for each entry that breaks its constraints. -/
structure Printed (column : Nat) (s : Session) (output : Output) : Prop where
  code : output.code = 0
  listing : ∃ x, s.table.Holds x ∧ x.id = Table.root ∧
    output.stdout = textOfLines "" column (Tree.liveLinesAll s.store 0 x.entries)
  warnings : ∃ ids warnings, s.table.validate s.store Table.root = .ok ids ∧
    List.Forall₂ (Warns s) ids warnings ∧ output.stderr = String.join (warnings.map (· ++ "\n"))

theorem exists_warns (sound : s.table.Sound) (oneLine : s.table.OneLine) {e : Entry}
    (live : s.table.get? id = some e) (violates : Table.violates s.store e = true) :
    ∃ line, Warns s id line := by
  obtain ⟨path, hpath, path_line⟩ := oneLine.exists_path sound live
  obtain ⟨text, htext, text_line⟩ := oneLine.exists_text live violates
  refine ⟨_, path, text, hpath, htext, rfl, ?_⟩
  simp only [String.toList_append, List.mem_append, not_or]
  exact ⟨⟨⟨⟨by decide, path_line⟩, by decide⟩, text_line⟩, by decide⟩

variable {x : Tree} {t' : Table}

/-- That the values have been recorded does not change a warning. -/
theorem Warns.warning {line : String} (h : Warns s id line) (sound : s.table.Sound) {e : Entry}
    (live : s.table.get? id = some e) (recorded : s.table.Recorded s.store x t') :
    warning { s with table := t' } id = .ok line := by
  obtain ⟨path, text, hpath, htext, rfl, -⟩ := h
  have path_kept := recorded.frames.pathOf sound recorded.sound live
  unfold Cli.warning
  simp only [recorded.readText, htext, path_kept, hpath]
  rfl

/-- Once the values are recorded, the report shows them as they are. -/
theorem exists_report (sound : s.table.Sound) (oneLine : s.table.OneLine)
    (htree : s.table.tree Table.root = .ok x) (recorded : s.table.Recorded s.store x t')
    (column : Nat) : ∃ output, report column { s with table := t' } = .ok output ∧
      Printed column s output := by
  obtain ⟨⟨hx, -⟩, hid⟩ := Table.tree_eq_ok_iff.mp htree
  have hlisting := recorded.listingOfContents "" column
  have hlines := Tree.join_liveOutlineAll x.entries s.store "" column
  have hvalidate := recorded.validate (hid ▸ htree)
  rw [hid] at hlisting hvalidate
  have hids := Table.validate_eq_broken htree s.store
  obtain ⟨warnings, hwarnings, hall⟩ : ∃ warnings,
      (Table.broken s.store (Tree.settingsAll x.entries)).mapM (warning { s with table := t' }) =
        .ok warnings ∧ List.Forall₂ (Warns s) _ warnings := by
    refine Table.exists_mapM_forall₂ fun id hmem => ?_
    obtain ⟨e, live, violates⟩ := hx.violates_of_mem_broken hmem
    obtain ⟨line, warns⟩ := exists_warns sound oneLine live violates
    exact ⟨line, warns.warning sound live recorded, warns⟩
  refine ⟨⟨0, _, _⟩, ?_, rfl, ⟨x, hx, hid, hlines⟩, _, warnings, hids, hall, rfl⟩
  unfold report
  simp only [hlisting, hvalidate, hids, bind, Except.bind]
  rw [hwarnings]
  rfl

theorem rightUnique_warns (s : Session) : Relator.RightUnique (Warns s) := by
  intro id line line' h h'
  obtain ⟨path, text, hpath, htext, rfl, -⟩ := h
  obtain ⟨path', text', hpath', htext', rfl, -⟩ := h'
  obtain rfl := Except.ok.inj (hpath.symm.trans hpath')
  obtain rfl := Except.ok.inj (htext.symm.trans htext')
  rfl

theorem Printed.unique {column : Nat} {output output' : Output} (h : Printed column s output)
    (h' : Printed column s output') : output = output' := by
  obtain ⟨hcode, ⟨x, hx, hid, hout⟩, ids, row, hids, hrow, herr⟩ := h
  obtain ⟨hcode', ⟨x', hx', hid', hout'⟩, ids', row', hids', hrow', herr'⟩ := h'
  obtain rfl := hx.unique hx' (hid.trans hid'.symm)
  obtain rfl := Except.ok.inj (hids.symm.trans hids')
  obtain rfl : row = row' := (rightUnique_warns s).forall₂ hrow hrow'
  cases output
  cases output'
  simp_all

/-! ## Whole runs -/

/-- How a run with some words behind the name of the command ends, on a fresh demonstration. -/
inductive Ends (fresh : Session) (words : List String) : Output → Prop
  /-- At the last column that was given, or at 40. -/
  | printed {columns : List Nat} {assignments : List String} {s : Session} {output : Output}
      (chosen : Chosen words columns assignments) (assigned : Assigned assignments fresh s)
      (printed : Printed (columns.getLast?.getD 40) s output) : Ends fresh words output
  | refused {columns : List Nat} {first rest : List String} {assignment : String} {s : Session}
      {error : ScriptError} (chosen : Chosen words columns (first ++ assignment :: rest))
      (assigned : Assigned first fresh s) (refused : Refused assignment s error) :
      Ends fresh words ⟨1, "", "error: " ++ error.message ++ "\n"⟩
  | malformed {messages : List String} (malformed : Malformed words messages) :
      Ends fresh words ⟨1, "", String.join (messages.map (· ++ "\n"))⟩

variable {handles : Demo.Handles} {words : List String} {output : Output}

theorem onDemo_of_start (h : Demo.start = (.ok handles, s₀)) (step : Action ScriptError Output) :
    onDemo step = match (step.run s₀).1 with
      | .ok output => output
      | .error e => .failure ["error: " ++ message ScriptError.message e] := by
  unfold onDemo
  generalize Demo.start = built at h ⊢
  subst h
  rfl

theorem failure_singleton (text : String) : Output.failure [text] = ⟨1, "", text ++ "\n"⟩ := by
  simp [Output.failure, lines]

theorem Chosen.run {columns : List Nat} (h : Chosen words columns assignments) :
    run ("example" :: words) =
      example? ⟨columns.getLast?.getD Listing.defaultColumn, assignments⟩ := by
  simp only [Cli.run, h.options, List.nil_append]

/-- The sessions of the demonstration are sound, and what is reported of them takes one line. -/
theorem Assigned.of_start (h : Demo.start = (.ok handles, s₀))
    (assigned : Assigned assignments s₀ s) : s.table.Sound ∧ s.table.OneLine := by
  have hs₀ : Demo.start.2 = s₀ := congrArg Prod.snd h
  have sound : s₀.table.Sound := hs₀ ▸ Demo.start_reachable.sound
  have same := assigned.sameShapes sound
  exact ⟨same.sound, same.oneLine (hs₀ ▸ Demo.start_oneLine)⟩

theorem Assigned.exists_printed (h : Demo.start = (.ok handles, s₀))
    (assigned : Assigned assignments s₀ s) (column : Nat) :
    ∃ output, example? ⟨column, assignments⟩ = output ∧ Printed column s output := by
  obtain ⟨sound, oneLine⟩ := assigned.of_start h
  obtain ⟨_, _, live, _⟩ := sound.root
  obtain ⟨x, htree⟩ := sound.exists_tree live
  obtain ⟨t', hrun, recorded⟩ := sound.recorded htree s.store
  obtain ⟨output, hreport, printed⟩ := exists_report sound oneLine htree recorded column
  refine ⟨output, ?_, printed⟩
  have hask : (Session.ask (.updateDefault Table.root) : Action ScriptError _).run s =
      (.ok (), { s with table := t' }) := by
    refine Session.run_ask_answered (r := .updateDefault Table.root) ?_
    show Request.answer.done s.store ((Table.updateDefault s.store Table.root).run s.table) = _
    rw [hrun]
    rfl
  have hprint : (Session.ask (.updateDefault Table.root) >>= fun _ =>
      Action.reading fun s => Attempt.ofFault (report column s) : Action ScriptError Output).run s =
      (.ok output, { s with table := t' }) := by
    rw [Action.bind_ok _ hask]
    show (Attempt.ofFault (report column _), _) = _
    rw [hreport]
    rfl
  unfold example?
  rw [onDemo_of_start h, (Action.bind_ok _ assigned.run).trans hprint]

theorem Ends.run_eq (h : Demo.start = (.ok handles, s₀)) (ends : Ends s₀ words output) :
    run ("example" :: words) = output := by
  cases ends with
  | printed chosen assigned printed =>
    obtain ⟨output', hrun, printed'⟩ := assigned.exists_printed h _
    rw [chosen.run, hrun]
    exact printed'.unique printed
  | @refused columns first rest assignment s error chosen assigned refused =>
    have hrun : ((assignAll (first ++ assignment :: rest)).run s₀).1 = .error (.error error) :=
      assigned.run_refused refused
    rw [chosen.run]
    unfold example?
    rw [onDemo_of_start h]
    rcases hall : (assignAll (first ++ assignment :: rest)).run s₀ with ⟨outcome, s'⟩
    rw [hall] at hrun
    cases hrun
    rw [Action.bind_error _ hall]
    exact failure_singleton _
  | malformed malformed =>
    simp only [Cli.run, malformed.options]
    rfl

/-- Printing the demonstration is all or nothing, whatever words stand behind the name of the
command: a run either prints the whole demonstration as it is after all assignments, and the
warnings, or it prints an error and nothing on standard output. -/
theorem example_ends (words : List String) : ∃ handles fresh, Demo.start = (.ok handles, fresh) ∧
    ∀ output, run ("example" :: words) = output ↔ Ends fresh words output := by
  obtain ⟨handles, s₀, h⟩ := Demo.exists_start
  have ends : ∃ output, Ends s₀ words output := by
    rcases chosen_or_malformed words with ⟨columns, assignments, chosen⟩ | ⟨messages, malformed⟩
    · obtain ⟨sound, -⟩ := Assigned.of_start h .nil
      rcases assigned_or_refused sound assignments with
        ⟨s, assigned⟩ | ⟨first, assignment, rest, s, error, rfl, assigned, refused⟩
      · obtain ⟨output, -, printed⟩ := assigned.exists_printed h _
        exact ⟨output, .printed chosen assigned printed⟩
      · exact ⟨_, .refused chosen assigned refused⟩
    · exact ⟨_, .malformed malformed⟩
  refine ⟨handles, s₀, h, fun output => ⟨?_, Ends.run_eq h⟩⟩
  rintro rfl
  obtain ⟨output, ends⟩ := ends
  exact (ends.run_eq h).symm ▸ ends

/-- A rate above all bounds is assigned through its percentage, is shown under both of its names, and
is warned about under both. -/
theorem excessive_percentage_is_printed_with_warnings :
    let words := ["--column", "0", "--set", "world.pop.mutation_percent=150"]
    let output : Output := ⟨0,
      "output = run.dat; // File to write results to\n" ++
        "seed = 1; // Random number seed\n" ++
        "world = \x7b // World settings\n" ++
        "  pop = \x7b // Main population\n" ++
        "    size = 100; // Number of organisms\n" ++
        "    label = founders; // Name used in reports\n" ++
        "    mutation_rate = 1.5; // Per-site mutation probability\n" ++
        "    mutation_percent = 150; // Mutation rate as a percentage\n" ++
        "  \x7d\n" ++ "\x7d\n",
      "warning: world.pop.mutation_rate = 1.5 is outside its allowed range\n" ++
        "warning: world.pop.mutation_percent = 150 is outside its allowed range\n"⟩
    run ("example" :: words) = output ∧
      ∃ handles fresh, Demo.start = (.ok handles, fresh) ∧ Ends fresh words output := by
  intro words output
  have hrun : run ("example" :: words) = output := by decide +kernel
  obtain ⟨handles, fresh, hstart, ends⟩ := example_ends words
  exact ⟨hrun, handles, fresh, hstart, (ends output).mp hrun⟩

end Cli

end Settings
