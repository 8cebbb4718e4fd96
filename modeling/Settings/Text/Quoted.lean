import Settings.Text.Unseen

/-!
# Quoted text

Where the structure of an entry is shown, text stands between double quotes. A quote and a
backslash get a backslash, the usual controls have letters, and every other character that would
not be seen is written as its number in hexadecimal between braces.
-/

set_option autoImplicit false

namespace Settings

/-- A number in hexadecimal. -/
def hexText (n : Nat) : String := String.ofList (Nat.toDigits 16 n)

/-- A character inside quotes. -/
def quotedChar (c : Char) : String :=
  if c = '"' then "\\\""
  else if c = '\\' then "\\\\"
  else if c = '\n' then "\\n"
  else if c = '\t' then "\\t"
  else if c = '\r' then "\\r"
  else if c.toNat = 0 then "\\0"
  else if isUnseen c then "\\u\x7b" ++ hexText c.toNat ++ "\x7d"
  else c.toString

def quoted (s : String) : String :=
  "\"" ++ String.join (s.toList.map quotedChar) ++ "\""

end Settings
