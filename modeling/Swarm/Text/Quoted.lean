/-
# Quoted text

How a text is shown inside a message: between double quotes, with the two characters that
would be misread and the usual controls behind a backslash, and with a number for whatever
cannot be shown (`Swarm.Text.isUnprintable`).  An apostrophe stays as it is.
-/
import Swarm.Text.Numeral
import Swarm.Text.Unprintable

namespace Swarm.Text

/-- One character of a quoted text. -/
def quoteChar (c : Char) : List Char :=
  if c = '"' then ['\\', '"']
  else if c = '\\' then ['\\', '\\']
  else if c = '\n' then ['\\', 'n']
  else if c = '\r' then ['\\', 'r']
  else if c = '\t' then ['\\', 't']
  else if c = '\x00' then ['\\', '0']
  else if isUnprintable c then ['\\', 'u', '\x7b'] ++ hex c.toNat ++ ['\x7d']
  else [c]

/-- The text between quotes. -/
def quoted (t : String) : String :=
  String.ofList ('"' :: t.toList.flatMap quoteChar ++ ['"'])

end Swarm.Text
