import Settings.Host.Store

/-!
# Accessors in stock

Ready-made getters and setters over one host variable: one that records what is written, and three
that show the variable in another form.
-/

set_option autoImplicit false

namespace Settings

namespace Accessor

/-- The variable itself; the text of every value written is recorded for it. -/
def logged (type : HostType) (v : VariableId) : Accessor where
  type := type
  get := fun s => s.read type v
  set := fun x s => (s.record v (type.toText x)).write type v x

/-- A ratio as a percentage. -/
def percent (v : VariableId) : Accessor where
  type := .double
  get := fun s => Binary.mul (s.read .double v : Double) (Binary.ofInt 100)
  set := fun x s => s.write .double v (Binary.div (x : Double) (Binary.ofInt 100))

/-- Twice the variable, wrapping around; half of what is written is kept, its fraction cut off. -/
def half (v : VariableId) : Accessor where
  type := .int .i64
  get := fun s => IntType.wrap .i64 (2 * IntType.Value.toInt (t := .i64) (s.read (.int .i64) v))
  set := fun n s =>
    s.write (.int .i64) v (IntType.wrap .i64 (Int.tdiv (IntType.Value.toInt (t := .i64) n) 2))

/-- The length of a text in bytes; a text of that length is written, of a hundred at most. -/
def length (v : VariableId) : Accessor where
  type := .int .u64
  get := fun s => IntType.clamp .u64 (s.read .text v : String).utf8ByteSize
  set := fun n s =>
    s.write .text v
      (String.ofList (List.replicate (min (IntType.Value.toInt (t := .u64) n).toNat 100) 'x'))

end Accessor

end Settings
