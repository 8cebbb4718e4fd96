/-!
# Sinks with limited room

Text goes out in pieces, and the place it goes to may run out of room. A `Sink` takes bytes as long
as it has room; of a piece that is too long it takes what fits, and the piece then counts as
refused. Writing stops at the first refusal.

A cut may fall inside a character. `Sink.text` shows such a remainder as one replacement character.
-/

set_option autoImplicit false

namespace Settings

structure Sink where
  /-- How many more bytes the sink takes. -/
  room : Nat
  /-- What it has taken. -/
  taken : List UInt8

namespace Sink

def bytes (piece : String) : List UInt8 := piece.toUTF8.data.toList

def limited (room : Nat) : Sink := ⟨room, []⟩

/-- Writes a piece, and tells whether all of it was taken. -/
def write (k : Sink) (piece : String) : Bool × Sink :=
  let bs := bytes piece
  (decide (bs.length ≤ k.room), ⟨k.room - bs.length, k.taken ++ bs.take k.room⟩)

/-- Writes pieces up to the first that is refused, and tells whether none was. -/
def writeAll (k : Sink) : List String → Bool × Sink
  | [] => (true, k)
  | piece :: pieces =>
      match k.write piece with
      | (true, k) => k.writeAll pieces
      | (false, k) => (false, k)

/-- The text of bytes that end at most three bytes into a character. -/
def textOfBytes (bs : List UInt8) : String :=
  let decode (dropped : Nat) := String.fromUTF8? ⟨(bs.take (bs.length - dropped)).toArray⟩
  match decode 0, decode 1, decode 2, decode 3 with
  | some s, _, _, _ => s
  | _, some s, _, _ => s ++ "\ufffd"
  | _, _, some s, _ => s ++ "\ufffd"
  | _, _, _, some s => s ++ "\ufffd"
  | _, _, _, _ => "\ufffd"

def text (k : Sink) : String := textOfBytes k.taken

end Sink

end Settings
