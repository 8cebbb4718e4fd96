import Settings.Text.Numeral

/-!
# Handles

Entries, host variables and host objects are held in one place each and named by number from
everywhere else. The three kinds of number are three types, so that none is taken for another.
-/

set_option autoImplicit false

namespace Settings

/-- The slot of an entry in its table. A handle may outlive its entry. -/
structure EntryId where
  index : Nat
  deriving DecidableEq

theorem EntryId.eq_of_index {a b : EntryId} (h : a.index = b.index) : a = b := by
  cases a
  cases b
  exact congrArg EntryId.mk h

structure VariableId where
  index : Nat
  deriving DecidableEq

theorem VariableId.eq_of_index {a b : VariableId} (h : a.index = b.index) : a = b := by
  cases a
  cases b
  exact congrArg VariableId.mk h

structure ObjectId where
  index : Nat
  deriving DecidableEq

def EntryId.inspect (id : EntryId) : String := "EntryId(" ++ natText id.index ++ ")"

end Settings
