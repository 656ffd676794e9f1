/-
ArrayFusion/Text/Quoted.lean

Quoted text, as it appears in descriptions: between double quotes, with
quotes, backslashes and characters that do not print escaped.
-/
import ArrayFusion.Text.Printable

namespace ArrayFusion.Text

/-- A code point written in hexadecimal. -/
def hex (n : Nat) : List Char :=
  Nat.toDigits 16 n

/-- A character inside quotes. -/
def escape (c : Char) : List Char :=
  if c = '"' then ['\\', '"']
  else if c = '\\' then ['\\', '\\']
  else if c = '\n' then ['\\', 'n']
  else if c = '\r' then ['\\', 'r']
  else if c = '\t' then ['\\', 't']
  else if c.toNat = 0 then ['\\', '0']
  else if prints c then [c]
  else ['\\', 'u', Char.ofNat 123] ++ hex c.toNat ++ [Char.ofNat 125]

/-- Text between quotes. -/
def quoted (s : String) : String :=
  "\"" ++ String.ofList (s.toList.flatMap escape) ++ "\""

/-- A list of texts between brackets. -/
def bracketed (items : List String) : String :=
  "[" ++ ", ".intercalate items ++ "]"

/-- The fields of a record, with their names. -/
def fields (name : String) (entries : List (String × String)) : String :=
  name ++ " \x7b " ++ ", ".intercalate (entries.map fun p => p.1 ++ ": " ++ p.2) ++ " \x7d"

/-- A text that may be missing. -/
def optional : Option String → String
  | some s => "Some(" ++ quoted s ++ ")"
  | none => "None"

end ArrayFusion.Text
