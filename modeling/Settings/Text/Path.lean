/-!
# Dotted paths

A path names an entry by the names on the way to it, with points between them. A name may itself
hold a point; the path then reads as one with more names.
-/

set_option autoImplicit false

namespace Settings

/-- The parts of a row of characters between the separators; one part more than separators. -/
def splitChars (separator : Char) : List Char → List (List Char)
  | [] => [[]]
  | c :: cs =>
      if c = separator then [] :: splitChars separator cs
      else match splitChars separator cs with
        | part :: parts => (c :: part) :: parts
        | [] => [[c]]

/-- The parts with separators between them. -/
def joinChars (separator : Char) : List (List Char) → List Char
  | [] => []
  | [part] => part
  | part :: parts => part ++ separator :: joinChars separator parts

theorem splitChars_ne_nil (separator : Char) (cs : List Char) : splitChars separator cs ≠ [] := by
  cases cs with
  | nil => simp [splitChars]
  | cons c cs =>
    simp only [splitChars]
    split
    · simp
    · split <;> simp

def pathNames (path : String) : List String :=
  (splitChars '.' path.toList).map String.ofList

def pathOfNames (names : List String) : String :=
  String.ofList (joinChars '.' (names.map String.toList))

/-- Splits a text at the first occurrence of a character, which belongs to neither part. -/
def splitFirst? (separator : Char) (text : String) : Option (String × String) :=
  let cs := text.toList
  match cs.dropWhile (· ≠ separator) with
  | [] => none
  | _ :: rest => some (String.ofList (cs.takeWhile (· ≠ separator)), String.ofList rest)

/-! ## The first separator -/

section

variable {separator : Char} {part part' rest rest' : List Char}

theorem takeWhile_append_separator (h : separator ∉ part) (rest : List Char) :
    (part ++ separator :: rest).takeWhile (· ≠ separator) = part := by
  have hpart : ∀ c ∈ part, decide (c ≠ separator) = true := by
    intro c hc
    simpa using fun heq : c = separator => h (heq ▸ hc)
  rw [List.takeWhile_append_of_pos hpart]
  simp

theorem dropWhile_append_separator (h : separator ∉ part) (rest : List Char) :
    (part ++ separator :: rest).dropWhile (· ≠ separator) = separator :: rest := by
  have hpart : ∀ c ∈ part, decide (c ≠ separator) = true := by
    intro c hc
    simpa using fun heq : c = separator => h (heq ▸ hc)
  rw [List.dropWhile_append_of_pos hpart]
  simp

/-- What stands before the first separator and what stands behind it are told by the whole. -/
theorem append_separator_inj (h : separator ∉ part) (h' : separator ∉ part')
    (heq : part ++ separator :: rest = part' ++ separator :: rest') :
    part = part' ∧ rest = rest' := by
  have hpart := takeWhile_append_separator h rest
  rw [heq, takeWhile_append_separator h'] at hpart
  have hrest := dropWhile_append_separator h rest
  rw [heq, dropWhile_append_separator h'] at hrest
  exact ⟨hpart.symm, (List.cons.inj hrest).2.symm⟩

end

theorem splitFirst?_append {separator : Char} {left : String} (h : separator ∉ left.toList)
    (right : String) :
    splitFirst? separator (left ++ String.singleton separator ++ right) = some (left, right) := by
  have hchars : (left ++ String.singleton separator ++ right).toList =
      left.toList ++ separator :: right.toList := by
    simp
  unfold splitFirst?
  simp only [hchars, dropWhile_append_separator h, takeWhile_append_separator h,
    String.ofList_toList]

/-! ## Paths and names -/

theorem splitChars_append {separator : Char} {part : List Char} (h : separator ∉ part)
    (rest : List Char) :
    splitChars separator (part ++ separator :: rest) = part :: splitChars separator rest := by
  induction part with
  | nil => simp [splitChars]
  | cons c part ih =>
    obtain ⟨hc, hpart⟩ : separator ≠ c ∧ separator ∉ part := by simpa using h
    simp [splitChars, hc.symm, ih hpart]

theorem splitChars_of_not_mem {separator : Char} {part : List Char} (h : separator ∉ part) :
    splitChars separator part = [part] := by
  induction part with
  | nil => rfl
  | cons c part ih =>
    obtain ⟨hc, hpart⟩ : separator ≠ c ∧ separator ∉ part := by simpa using h
    simp [splitChars, hc.symm, ih hpart]

/-- Only the empty row has one empty part. -/
theorem eq_nil_of_splitChars {separator : Char} {cs : List Char}
    (h : splitChars separator cs = [[]]) : cs = [] := by
  cases cs with
  | nil => rfl
  | cons c cs =>
    have hne := splitChars_ne_nil separator cs
    unfold splitChars at h
    split at h
    · exact absurd (List.cons.inj h).2 hne
    · split at h <;> simp at h

/-- Parts without separators are found again when what was made of them is taken apart. -/
theorem splitChars_joinChars {separator : Char} {parts : List (List Char)} (hne : parts ≠ [])
    (h : ∀ part ∈ parts, separator ∉ part) :
    splitChars separator (joinChars separator parts) = parts := by
  induction parts with
  | nil => exact absurd rfl hne
  | cons part parts ih =>
    obtain ⟨hpart, hparts⟩ := List.forall_mem_cons.mp h
    cases parts with
    | nil => exact splitChars_of_not_mem hpart
    | cons next parts =>
      unfold joinChars
      rw [splitChars_append hpart, ih (by simp) hparts]

theorem not_mem_joinChars {separator c : Char} {parts : List (List Char)} (hc : c ≠ separator)
    (h : ∀ part ∈ parts, c ∉ part) : c ∉ joinChars separator parts := by
  induction parts with
  | nil => simp [joinChars]
  | cons part parts ih =>
    obtain ⟨hpart, hparts⟩ := List.forall_mem_cons.mp h
    cases parts with
    | nil => exact hpart
    | cons next parts =>
      unfold joinChars
      simp [hpart, hc, ih hparts]

theorem joinChars_append {separator : Char} {parts parts' : List (List Char)} (hne : parts ≠ [])
    (hne' : parts' ≠ []) : joinChars separator (parts ++ parts') =
      joinChars separator parts ++ separator :: joinChars separator parts' := by
  induction parts with
  | nil => exact absurd rfl hne
  | cons part parts ih =>
    cases parts with
    | nil =>
      obtain ⟨first, rest, rfl⟩ := List.exists_cons_of_ne_nil hne'
      simp [joinChars]
    | cons next parts =>
      calc joinChars separator ((part :: next :: parts) ++ parts')
          = part ++ separator :: joinChars separator ((next :: parts) ++ parts') := rfl
        _ = part ++ separator :: (joinChars separator (next :: parts) ++
              separator :: joinChars separator parts') := by rw [ih (by simp)]
        _ = joinChars separator (part :: next :: parts) ++
              separator :: joinChars separator parts' := by simp [joinChars]

theorem not_mem_of_mem_splitChars {separator : Char} {cs part : List Char}
    (h : part ∈ splitChars separator cs) : separator ∉ part := by
  induction cs generalizing part with
  | nil =>
    obtain rfl : part = [] := by simpa [splitChars] using h
    simp
  | cons c cs ih =>
    unfold splitChars at h
    split at h
    · rcases List.mem_cons.mp h with rfl | h
      · simp
      · exact ih h
    · rename_i hc
      split at h
      · rename_i first parts hsplit
        rcases List.mem_cons.mp h with rfl | h
        · have hfirst : first ∈ splitChars separator cs := by
            rw [hsplit]
            exact List.mem_cons_self
          have := ih hfirst
          simpa [this] using fun heq : separator = c => hc heq.symm
        · exact ih (by rw [hsplit]; exact List.mem_cons_of_mem _ h)
      · obtain rfl : part = [c] := by simpa using h
        simpa using fun heq : separator = c => hc heq.symm

theorem not_mem_of_mem_pathNames {path name : String} (h : name ∈ pathNames path) :
    '.' ∉ name.toList := by
  obtain ⟨part, hpart, rfl⟩ := List.mem_map.mp h
  rw [String.toList_ofList]
  exact not_mem_of_mem_splitChars hpart

/-- The path of two rows of names is the path of the first followed by that of the second. -/
theorem pathOfNames_append {names names' : List String} (hne : names ≠ []) (hne' : names' ≠ []) :
    pathOfNames (names ++ names') = pathOfNames names ++ "." ++ pathOfNames names' := by
  apply String.toList_inj.mp
  unfold pathOfNames
  rw [List.map_append, joinChars_append (by simpa using hne) (by simpa using hne')]
  simp

/-- Apart from the points a path holds what its names hold. -/
theorem not_mem_pathOfNames {c : Char} {names : List String} (hc : c ≠ '.')
    (h : ∀ name ∈ names, c ∉ name.toList) : c ∉ (pathOfNames names).toList := by
  unfold pathOfNames
  rw [String.toList_ofList]
  exact not_mem_joinChars hc (by simpa using h)

/-- A path with an empty first name has other names, unless it is empty. -/
theorem eq_empty_of_pathNames {path : String} (h : pathNames path = [""]) : path = "" := by
  obtain ⟨part, hsplit, hpart⟩ := List.map_eq_singleton_iff.mp h
  have hnil : part = [] := by simpa using congrArg String.toList hpart
  rw [hnil] at hsplit
  simpa using eq_nil_of_splitChars hsplit

/-- A path made of names without points reads as those names. -/
theorem pathNames_pathOfNames {names : List String} (hne : names ≠ [])
    (h : ∀ name ∈ names, '.' ∉ name.toList) : pathNames (pathOfNames names) = names := by
  unfold pathNames pathOfNames
  rw [String.toList_ofList, splitChars_joinChars (by simpa using hne) (by simpa using h)]
  simp

end Settings
