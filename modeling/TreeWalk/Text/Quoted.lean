import TreeWalk.Text.Basic
import TreeWalk.Text.Printable
import TreeWalk.Text.Combining

/-!
# Quoted text

A text between double quotes, written so that it can be told from any other and shown on one line.
The quote and the backslash are written after a backslash, four controls have a letter, and
whatever is not printable or would attach itself to its neighbour is written as its code point.
-/

namespace TreeWalk

/-- A code point as it is written: in lower-case hexadecimal digits, as few as it needs. -/
def codePointEscape (c : Char) : List Char :=
  "\\u\x7b".toList ++ Nat.toDigits 16 c.toNat ++ ['\x7d']

/-- A character as it is written between quotes. -/
def quotedChar (c : Char) : List Char :=
  if c = '\x00' then ['\\', '0']
  else if c = '\t' then ['\\', 't']
  else if c = '\r' then ['\\', 'r']
  else if c = '\n' then ['\\', 'n']
  else if c = '\\' then ['\\', '\\']
  else if c = '\"' then ['\\', '\"']
  else if isPrintable c && !isCombining c then [c]
  else codePointEscape c

/-- A text in quotes. -/
def quoted (text : String) : String :=
  "\"" ++ String.ofList (text.toList.flatMap quotedChar) ++ "\""

/-- A list of texts, each in quotes. -/
def quotedList (texts : List String) : String :=
  "[" ++ commaSeparated (texts.map quoted) ++ "]"

end TreeWalk
