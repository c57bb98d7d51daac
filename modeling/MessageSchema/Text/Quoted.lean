import MessageSchema.Text.Hidden

/-! # Quoted texts

A text between quotes in which every character can be seen.  The quote, the backslash and four
control characters have short escapes; any other hidden character is written as its code point;
every character besides stands for itself. -/

namespace MessageSchema.Text

/-- The code point of `c` in hexadecimal digits between braces. -/
def codePoint (c : Char) : List Char :=
  ['\\', 'u', '\x7b'] ++ Nat.toDigits 16 c.toNat ++ ['\x7d']

/-- A character as it stands between quotes. -/
def visible (c : Char) : List Char :=
  if c = '"' then ['\\', '"']
  else if c = '\\' then ['\\', '\\']
  else if c = '\x00' then ['\\', '0']
  else if c = '\n' then ['\\', 'n']
  else if c = '\r' then ['\\', 'r']
  else if c = '\t' then ['\\', 't']
  else if isHidden c then codePoint c
  else [c]

/-- A text between quotes. -/
def quoted (s : String) : String :=
  String.ofList ('"' :: s.toList.flatMap visible ++ ['"'])

/-- A character of a text that stands outside quotes: those control characters by which a terminal
can be steered are written as their code points. -/
def harmless (c : Char) : List Char :=
  if c = '\x1b' ∨ c = '\x07' ∨ c = '\x08' ∨ c = '\x0c' ∨ c = '\x7f' then
    ['\\', 'x'] ++ [Nat.digitChar (c.toNat / 16), Nat.digitChar (c.toNat % 16)]
  else if 0x80 ≤ c.toNat ∧ c.toNat ≤ 0x9f then codePoint c
  else [c]

/-- A text that stands outside quotes. -/
def unquoted (s : String) : String := String.ofList (s.toList.flatMap harmless)

end MessageSchema.Text
