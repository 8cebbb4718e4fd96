import Settings.Proofs.Listing.Lines

/-!
# Writing piece by piece

A listing goes out as it is made: `Table.write` goes through a tree, and whatever it comes to it
hands to an outlet at once, which takes the piece or refuses it. A refusal ends the writing, however
deep in the tree it is, and nothing is handed out any more, be it the end of a line or of a scope.

What is handed out is the row of pieces that the listing is made of (`Holds.writeWithin_eq`). So
all that is to be known of an outlet is how it fares with a row, and `Emitted` tells it. A sink with
limited room is handed a row as if it were one text (`Sink.writeAll_eq`), so it ends up with as much
of the text as there is room for.
-/

set_option autoImplicit false

namespace Settings

/-- What pieces of text are handed to. It tells whether it took the piece. -/
abbrev Outlet (σ : Type) : Type := σ → String → Bool × σ

/-- The error of writing to an outlet that took a piece in part or not at all. -/
inductive Refused where
  | refused

/-- A step that hands out text. -/
abbrev Writing (σ α : Type) : Type := ExceptT (Failure Refused) (StateM σ) α

namespace Writing

variable {σ α : Type}

def run (m : Writing σ α) (k : σ) : Attempt Refused α × σ := StateT.run (ExceptT.run m) k

def ofFault (r : Except Fault α) : Writing σ α := ExceptT.mk (pure (Attempt.ofFault r))

/-- How the writing of a piece ends. -/
def outcome : Bool → Attempt Refused Unit
  | true => .ok ()
  | false => .error (.error .refused)

def emit (out : Outlet σ) (piece : String) : Writing σ Unit :=
  ExceptT.mk fun k => (outcome (out k piece).1, (out k piece).2)

def emitAll (out : Outlet σ) (row : List String) : Writing σ Unit := forM row (emit out)

/-- A description as a comment that starts at a column, behind code of some width. -/
def comment (out : Outlet σ) (width column : Nat) (description : String) : Writing σ Unit := do
  if description ≠ "" then
    emit out (String.ofList (List.replicate (column - width) ' '))
    emit out "// "
    emit out description

end Writing

namespace Table

open Writing

section

variable {σ : Type} (t : Table) (s : Store) (out : Outlet σ) (column : Nat)

/-- Writes the registered children of an entry, each of them in a given way. -/
def writeRow (write : String → EntryId → Writing σ Unit) (indent : String) (id : EntryId) :
    Writing σ Unit := do
  let ids ← ofFault (t.entries id)
  forM ids (write indent)

/-- Writes an entry and what is under it, down to a depth. -/
def writeWithin : (depth : Nat) → (indent : String) → EntryId → Writing σ Unit
  | 0, _, _ => ofFault (.error .cyclicTree)
  | depth + 1, indent, id => do
      let e ← ofFault (t.entry id)
      if e.isFunction then return
      else if e.isScope then
        emitAll out [indent, e.name, " = \x7b "]
        comment out (indent.utf8ByteSize + e.name.utf8ByteSize + 5) column e.description
        emit out "\n"
        t.writeRow (writeWithin depth) (indent ++ "  ") id
        emitAll out [indent, "\x7d\n"]
      else match e.serialized s with
        | .error _ => return
        | .ok text =>
            emitAll out [indent, e.name, " = ", text, ";"]
            let width := indent.utf8ByteSize + e.name.utf8ByteSize + text.utf8ByteSize + 4
            comment out width (max column (width + 1)) e.description
            emit out "\n"

def write (id : EntryId) (indent : String) : Writing σ Unit :=
  t.writeWithin s out column (t.slots.size + 1) indent id

def writeContents (id : EntryId) (indent : String) : Writing σ Unit :=
  t.writeRow (t.writeWithin s out column t.slots.size) indent id

end

end Table

/-! ## Handing out a row -/

namespace Writing

variable {σ : Type} {out : Outlet σ}

theorem emitAll_nil : emitAll out [] = pure () := List.forM_nil

theorem emitAll_cons (piece : String) (row : List String) :
    emitAll out (piece :: row) = (emit out piece >>= fun _ => emitAll out row) := List.forM_cons

theorem emitAll_append (row row' : List String) :
    emitAll out (row ++ row') = (emitAll out row >>= fun _ => emitAll out row') := List.forM_append

theorem emitAll_singleton (piece : String) : emitAll out [piece] = emit out piece := by
  rw [emitAll_cons, emitAll_nil]
  exact bind_pure _

theorem comment_eq (width column : Nat) (description : String) :
    comment out width column description =
      emitAll out (Listing.comment width column description) := by
  unfold comment Listing.comment
  by_cases h : description = ""
  · rw [if_neg (not_not.mpr h), if_pos h, emitAll_nil]
  · rw [if_pos h, if_neg h, emitAll_cons, emitAll_cons, emitAll_singleton]

/-- How an outlet fares with a row of pieces: it is handed one after the other up to the first that
it refuses, and then no more. -/
inductive Emitted (out : Outlet σ) : List String → σ → Bool → σ → Prop
  | done {k : σ} : Emitted out [] k true k
  | taken {piece : String} {row : List String} {k k' k'' : σ} {all : Bool}
      (takes : out k piece = (true, k')) (rest : Emitted out row k' all k'') :
      Emitted out (piece :: row) k all k''
  | refused {piece : String} {row : List String} {k k' : σ} (refuses : out k piece = (false, k')) :
      Emitted out (piece :: row) k false k'

theorem run_emit_bind (piece : String) (rest : Unit → Writing σ Unit) (k : σ) :
    (emit out piece >>= rest).run k = match out k piece with
      | (true, k) => (rest ()).run k
      | (false, k) => (outcome false, k) := by
  unfold run ExceptT.run StateT.run emit
  simp only [bind, ExceptT.bind, ExceptT.mk, StateT.bind]
  cases out k piece with
  | mk taken k => cases taken <;> rfl

theorem run_emitAll (out : Outlet σ) (row : List String) (k : σ) :
    ∃ all k', Emitted out row k all k' ∧ (emitAll out row).run k = (outcome all, k') := by
  induction row generalizing k with
  | nil => exact ⟨true, k, .done, rfl⟩
  | cons piece row ih =>
    rw [emitAll_cons, run_emit_bind]
    cases hpiece : out k piece with
    | mk taken k' =>
      cases taken with
      | true =>
        obtain ⟨all, k'', rest, hrun⟩ := ih k'
        exact ⟨all, k'', .taken hpiece rest, hrun⟩
      | false => exact ⟨false, k', .refused hpiece, rfl⟩

end Writing

/-! ## Sinks -/

namespace Sink

theorem bytes_append (text text' : String) : bytes (text ++ text') = bytes text ++ bytes text' := by
  simp [bytes]

/-- Two texts in turn are taken, or cut, as the one that they make. -/
theorem write_append (k : Sink) (text text' : String) :
    k.write (text ++ text') = match k.write text with
      | (true, k) => k.write text'
      | (false, k) => (false, k) := by
  dsimp only [write]
  rw [bytes_append, List.length_append, List.take_append]
  by_cases hfits : (bytes text).length ≤ k.room
  · have hroom : (bytes text).length + (bytes text').length ≤ k.room ↔
        (bytes text').length ≤ k.room - (bytes text).length := by omega
    rw [decide_eq_true hfits, List.take_of_length_le hfits]
    simp only [hroom, Nat.sub_sub, List.append_assoc]
  · -- what did not fit has left no room, so nothing of the second text is taken either way
    have hroom : ¬ (bytes text).length + (bytes text').length ≤ k.room := by omega
    have hnone : k.room - (bytes text).length = 0 := by omega
    rw [decide_eq_false hfits, decide_eq_false hroom, ← Nat.sub_sub, hnone]
    simp

/-- A row is taken, or cut, as the text that it makes. -/
theorem writeAll_eq (k : Sink) (row : List String) :
    k.writeAll row = k.write (String.join row) := by
  induction row generalizing k with
  | nil => simp [writeAll, write, bytes]
  | cons piece row ih =>
    rw [String.join_cons, write_append]
    unfold writeAll
    cases k.write piece with
    | mk taken k =>
      cases taken with
      | true => exact ih k
      | false => rfl

end Sink

namespace Writing

theorem Emitted.writeAll {row : List String} {k k' : Sink} {all : Bool}
    (h : Emitted Sink.write row k all k') : k.writeAll row = (all, k') := by
  induction h with
  | done => rfl
  | taken takes rest ih =>
    unfold Sink.writeAll
    rw [takes]
    exact ih
  | refused refuses =>
    unfold Sink.writeAll
    rw [refuses]

/-- An outlet that never refuses gets the whole row. -/
theorem Emitted.of_takes {σ : Type} {out : Outlet σ} (never : ∀ k piece, (out k piece).1 = true)
    {row : List String} {k k' : σ} {all : Bool} (h : Emitted out row k all k') :
    all = true ∧ k' = row.foldl (fun k piece => (out k piece).2) k := by
  induction h with
  | done => exact ⟨rfl, rfl⟩
  | @taken piece row k k' k'' all takes rest ih =>
    rw [List.foldl_cons, takes]
    exact ih
  | @refused piece row k k' refuses =>
    have hpiece := never k piece
    rw [refuses] at hpiece
    exact absurd hpiece Bool.false_ne_true

/-- An outlet that has room for any text. -/
def gather : Outlet String := fun text piece => (true, text ++ piece)

/-- What a writer does that hands out a row of pieces. -/
structure Delivers (write : {σ : Type} → Outlet σ → Writing σ Unit) (row : List String) :
    Prop where
  /-- The pieces are handed out in turn, and none after one that is refused. -/
  inTurn : ∀ {σ : Type} (out : Outlet σ) (k : σ), ∃ all k', Emitted out row k all k' ∧
    (write out).run k = (outcome all, k')
  /-- An outlet with room for everything is handed the text. -/
  text : (write gather).run "" = (.ok (), String.join row)
  /-- With limited room it is the same as handing the row to the sink. -/
  sink : ∀ room, (write Sink.write).run (.limited room) =
    (outcome ((Sink.limited room).writeAll row).1, ((Sink.limited room).writeAll row).2)
  /-- With limited room the writing ends well just if there is room for the text, and as much of it
  as there is room for has been taken. -/
  limited : ∀ room, let bytes := Sink.bytes (String.join row)
    (write Sink.write).run (.limited room) =
      (outcome (decide (bytes.length ≤ room)), ⟨room - bytes.length, bytes.take room⟩)

theorem run_emitAll_gather (row : List String) :
    (emitAll gather row).run "" = (.ok (), String.join row) := by
  obtain ⟨all, text, h, hrun⟩ := run_emitAll gather row ""
  obtain ⟨rfl, rfl⟩ := h.of_takes fun _ _ => rfl
  rw [hrun]
  rfl

theorem run_emitAll_sink (row : List String) (room : Nat) :
    (emitAll Sink.write row).run (.limited room) =
      (outcome ((Sink.limited room).writeAll row).1, ((Sink.limited room).writeAll row).2) := by
  obtain ⟨all, k, h, hrun⟩ := run_emitAll Sink.write row (.limited room)
  rw [h.writeAll, hrun]

theorem delivers {write : {σ : Type} → Outlet σ → Writing σ Unit} {row : List String}
    (h : ∀ {σ : Type} (out : Outlet σ), write out = emitAll out row) : Delivers write row := by
  constructor
  case inTurn =>
    intro σ out k
    rw [h]
    exact run_emitAll out row k
  case text => rw [h, run_emitAll_gather]
  case sink =>
    intro room
    rw [h, run_emitAll_sink]
  case limited =>
    intro room
    rw [h, run_emitAll_sink, Sink.writeAll_eq]
    rfl

end Writing

/-! ## Writing a tree -/

namespace Table

open Listing Writing

variable {σ : Type} {t : Table} {s : Store} {out : Outlet σ} {column : Nat} {x : Tree}

theorem ofFault_ok_bind {α β : Type} (a : α) (f : α → Writing σ β) :
    (ofFault (.ok a) >>= f) = f a := rfl

/-- A row of trees that are each written as outlined. -/
theorem writeRow_eq {write : String → EntryId → Writing σ Unit} {indent : String} {id : EntryId}
    {xs : List Tree} (found : t.entries id = .ok (xs.map Tree.id))
    (h : ∀ y ∈ xs, write indent y.id = emitAll out (piecesAll indent column (y.outline s))) :
    t.writeRow write indent id =
      emitAll out (piecesAll indent column (Tree.outlineAll s xs)) := by
  unfold writeRow
  rw [found, ofFault_ok_bind]
  clear found
  induction xs with
  | nil => simp [Tree.outlineAll, piecesAll, emitAll_nil]
  | cons x xs ih =>
    obtain ⟨hx, hxs⟩ := List.forall_mem_cons.mp h
    rw [List.map_cons, List.forM_cons, hx, ih hxs, Tree.outlineAll, piecesAll_append,
      emitAll_append]

/-- What is written of a tree is the row of pieces of its listing. -/
theorem Holds.writeWithin_eq (hx : t.Holds x) {depth : Nat} (hd : x.height ≤ depth)
    (indent : String) : t.writeWithin s out column depth indent x.id =
      emitAll out (piecesAll indent column (x.outline s)) := by
  induction hx generalizing depth indent with
  | @leaf id e live plain =>
    cases depth with
    | zero => simp [Tree.height] at hd
    | succ depth =>
      have hscope := isScope_of_plain plain
      unfold writeWithin Tree.outline
      rw [Tree.id, entry_eq_ok.mpr live, ofFault_ok_bind, hscope]
      cases e.isFunction with
      | true => simp [piecesAll, emitAll_nil]
      | false =>
        cases e.serialized s with
        | error _ => simp [piecesAll, emitAll_nil]
        | ok text =>
          -- both sides hand out the same pieces, grouped differently
          simp only [Bool.false_eq_true, if_false, piecesAll, pieces, List.append_nil, comment_eq,
            emitAll_append, bind_assoc, ← emitAll_singleton]
  | @scope id e b es bs live body entries builtins held ih =>
    cases depth with
    | zero => simp [Tree.height] at hd
    | succ depth =>
      have hd := Tree.height_le_succ.mp hd
      have hscope := isScope_of_scope? body
      have found := (Holds.scope live body entries builtins held).entries_eq
      have hrow : t.writeRow (t.writeWithin s out column depth) (indent ++ "  ") id =
          emitAll out (piecesAll (indent ++ "  ") column (Tree.outlineAll s es)) := by
        refine writeRow_eq found fun y hy => ?_
        have hmem := List.mem_append_left bs hy
        exact ih y hmem (hd y hmem) (indent ++ "  ")
      unfold writeWithin Tree.outline
      rw [Tree.id, entry_eq_ok.mpr live, ofFault_ok_bind, hscope, isFunction_of_scope? body, hrow]
      simp only [Bool.false_eq_true, if_false, if_true, piecesAll, pieces, List.append_nil,
        comment_eq, emitAll_append, bind_assoc, ← emitAll_singleton]

/-- Writing an entry or its contents hands out the text of its listing piece by piece, up to the
first piece that is refused. The error of that is what the writing ends with, and with limited room
what has been taken is the beginning of the text that there is room for. -/
theorem writing_ends_at_first_refusal (h : t.Reachable) {id : EntryId} {e : Entry}
    (live : t.get? id = some e) (s : Store) (indent : String) (column : Nat) :
    (∃ row, t.listing s id indent column = .ok row ∧
      Delivers (fun out => t.write s out column id indent) row) ∧
    ∃ row, t.listingOfContents s id indent column = .ok row ∧
      Delivers (fun out => t.writeContents s out column id indent) row := by
  obtain ⟨x, htree⟩ := h.sound.exists_tree live
  obtain ⟨⟨hx, hh⟩, rfl⟩ := tree_eq_ok_iff.mp htree
  constructor
  · refine ⟨_, listing_of_tree htree s indent column, delivers fun out => ?_⟩
    exact hx.writeWithin_eq hh indent
  · refine ⟨_, listingOfContents_of_tree htree s indent column, delivers fun out => ?_⟩
    refine writeRow_eq hx.entries_eq fun y hy => ?_
    cases x with
    | node id e es bs =>
      have hmem : y ∈ es ++ bs := List.mem_append_left bs hy
      exact (hx.held y hmem).writeWithin_eq (Tree.height_le_succ.mp hh y hmem) indent

end Table

/-- A scope that takes 38 bytes is written to the end where there is room for them. With room for
one less the writing ends behind the closing brace, without the end of the line, and with room for
16 it ends within the comment. -/
theorem Session.writing_of_pop_ends_where_room_does :
    let s := (fresh "root" "").after
      [.ask (.register Table.root "pop" "Population" (.scope "")),
        .ask (.register ⟨1⟩ "size" "" .number)]
    let write {σ : Type} (out : Outlet σ) := s.table.write s.store out 10 ⟨1⟩ ""
    ∃ row, s.table.listing s.store ⟨1⟩ "" 10 = .ok row ∧ Writing.Delivers write row ∧
      (write Writing.gather).run "" =
        (.ok (), "pop = \x7b   // Population\n  size = 0;\n\x7d\n") ∧
      (write Sink.write).run (.limited 38) =
        (.ok (), ⟨0, Sink.bytes "pop = \x7b   // Population\n  size = 0;\n\x7d\n"⟩) ∧
      (write Sink.write).run (.limited 37) =
        (.error (.error .refused),
          ⟨0, Sink.bytes "pop = \x7b   // Population\n  size = 0;\n\x7d"⟩) ∧
      (write Sink.write).run (.limited 16) =
        (.error (.error .refused), ⟨0, Sink.bytes "pop = \x7b   // Pop"⟩) := by
  intro s write
  have h : s.table.Reachable := ⟨"root", "", _, rfl⟩
  obtain ⟨e, live⟩ : ∃ e, s.table.get? ⟨1⟩ = some e :=
    Option.isSome_iff_exists.mp (by decide +kernel)
  obtain ⟨⟨row, hrow, hdelivers⟩, -⟩ :=
    Table.writing_ends_at_first_refusal h live s.store "" 10
  have htext : (s.table.listing s.store ⟨1⟩ "" 10).map String.join =
      .ok "pop = \x7b   // Population\n  size = 0;\n\x7d\n" := by decide +kernel
  rw [hrow] at htext
  have htext := Except.ok.inj htext
  have hlength : (Sink.bytes "pop = \x7b   // Population\n  size = 0;\n\x7d\n").length = 38 := by
    decide +kernel
  have hbrace : (Sink.bytes "pop = \x7b   // Population\n  size = 0;\n\x7d\n").take 37 =
      Sink.bytes "pop = \x7b   // Population\n  size = 0;\n\x7d" := by decide +kernel
  have hcomment : (Sink.bytes "pop = \x7b   // Population\n  size = 0;\n\x7d\n").take 16 =
      Sink.bytes "pop = \x7b   // Pop" := by decide +kernel
  refine ⟨row, hrow, hdelivers, htext ▸ hdelivers.text, ?_, ?_, ?_⟩
  · rw [hdelivers.limited, htext, List.take_of_length_le (Nat.le_of_eq hlength), hlength]
    rfl
  · rw [hdelivers.limited, htext, hlength, hbrace]
    rfl
  · rw [hdelivers.limited, htext, hlength, hcomment]
    rfl

end Settings
