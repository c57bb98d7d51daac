/-! # JSON values and their text

Values keep the entries of an object in order.  One printer serves all layouts: a `Layout` says
what stands before a value on a line of its own and what follows a colon, so two layouts differ in
nothing but blanks and line breaks.  Empty lists and objects take no inner space in any layout.

Inside a string the quote, the backslash and the control characters below U+0020 are escaped, and
every other character stands for itself. -/

namespace MessageSchema

/-- A JSON value; numbers are integers. -/
inductive Json where
  | bool (b : Bool)
  | number (n : Int)
  | text (s : String)
  | list (items : List Json)
  | object (entries : List (String × Json))
deriving Repr

namespace Json

/-! ### Leaves -/

/-- The hexadecimal digit of `n`, which is below sixteen. -/
def hexDigit (n : Nat) : Char :=
  if n < 10 then Char.ofNat (48 + n) else Char.ofNat (87 + n)

/-- A character as it stands between quotes. -/
def escape (c : Char) : List Char :=
  if c = '"' then ['\\', '"']
  else if c = '\\' then ['\\', '\\']
  else if c = '\x08' then ['\\', 'b']
  else if c = '\x0c' then ['\\', 'f']
  else if c = '\n' then ['\\', 'n']
  else if c = '\r' then ['\\', 'r']
  else if c = '\t' then ['\\', 't']
  else if c.toNat < 32 then
    ['\\', 'u', '0', '0', hexDigit (c.toNat / 16), hexDigit (c.toNat % 16)]
  else [c]

/-- A text between quotes. -/
def quote (s : String) : List Char := '"' :: s.toList.flatMap escape ++ ['"']

/-- The decimal digits of a number, with a minus sign in front of a negative one. -/
def decimal : Int → List Char
  | .ofNat n => Nat.toDigits 10 n
  | .negSucc n => '-' :: Nat.toDigits 10 (n + 1)

/-! ### Layouts -/

/-- The insignificant characters of a printed value. -/
structure Layout where
  /-- What stands in front of an entry, or of a closing bracket, at a depth. -/
  line : Nat → List Char
  /-- What stands between a colon and the value after it. -/
  gap : List Char

/-- No insignificant characters. -/
def Layout.compact : Layout := ⟨fun _ => [], []⟩

/-- Every entry on a line of its own, four blanks deeper than what contains it. -/
def Layout.pretty : Layout := ⟨fun depth => '\n' :: List.replicate (4 * depth) ' ', [' ']⟩

/-! ### The printer -/

mutual

/-- The text of a value whose opening bracket stands at `depth`. -/
def print (l : Layout) (depth : Nat) : Json → List Char
  | bool true => ['t', 'r', 'u', 'e']
  | bool false => ['f', 'a', 'l', 's', 'e']
  | number n => decimal n
  | text s => quote s
  | list [] => ['[', ']']
  | list (item :: rest) =>
      '[' :: l.line (depth + 1) ++ item.print l (depth + 1) ++ printItems l depth rest
  | object [] => ['\x7b', '\x7d']
  | object ((name, value) :: rest) =>
      '\x7b' :: l.line (depth + 1) ++ quote name ++ ':' :: l.gap ++ value.print l (depth + 1) ++
        printEntries l depth rest

/-- The items of a list after the first, with the closing bracket. -/
def printItems (l : Layout) (depth : Nat) : List Json → List Char
  | [] => l.line depth ++ [']']
  | item :: rest =>
      ',' :: l.line (depth + 1) ++ item.print l (depth + 1) ++ printItems l depth rest

/-- The entries of an object after the first, with the closing bracket. -/
def printEntries (l : Layout) (depth : Nat) : List (String × Json) → List Char
  | [] => l.line depth ++ ['\x7d']
  | (name, value) :: rest =>
      ',' :: l.line (depth + 1) ++ quote name ++ ':' :: l.gap ++ value.print l (depth + 1) ++
        printEntries l depth rest

end

/-- The text of a value in a layout. -/
def toText (l : Layout) (v : Json) : String := String.ofList (v.print l 0)

end Json

end MessageSchema
