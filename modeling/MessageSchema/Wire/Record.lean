import MessageSchema.Wire.Varint

/-! # Records

The wire form of a message is a list of tagged values.  `Record` keeps the values in the order in
which they stand; the accessors read a component that may occur once as its last occurrence
(`Record.text?`, `Record.int32?`) and a repeated one as all occurrences in order.

`Record.encode` writes a record: each value after a key that holds its tag and its wire type, texts
and inner messages after their length. -/

namespace MessageSchema

/-- How the end of a value is found. -/
inductive WireType where
  | varint
  | fixed64
  | delimited
  | startGroup
  | endGroup
  | fixed32
deriving DecidableEq, Repr

namespace WireType

/-- The number of a wire type in a key. -/
def number : WireType → Nat
  | varint => 0
  | fixed64 => 1
  | delimited => 2
  | startGroup => 3
  | endGroup => 4
  | fixed32 => 5

/-- The wire type with a number. -/
def ofNumber? : Nat → Option WireType
  | 0 => some varint
  | 1 => some fixed64
  | 2 => some delimited
  | 3 => some startGroup
  | 4 => some endGroup
  | 5 => some fixed32
  | _ => none

/-- The name of a wire type in error texts. -/
def name : WireType → String
  | varint => "Varint"
  | fixed64 => "SixtyFourBit"
  | delimited => "LengthDelimited"
  | startGroup => "StartGroup"
  | endGroup => "EndGroup"
  | fixed32 => "ThirtyTwoBit"

theorem ofNumber?_number (w : WireType) : ofNumber? w.number = some w := by
  cases w <;> rfl

end WireType

/-- The value of a component of a message. -/
inductive WireValue where
  | varint (n : UInt64)
  | fixed64 (bytes : List UInt8)
  | text (s : String)
  | bytes (bytes : List UInt8)
  | message (entries : List (Nat × WireValue))
deriving Repr

mutual

/-- Equality of values is decided part by part. -/
def WireValue.decEq : (a b : WireValue) → Decidable (a = b)
  | .varint n, .varint n' => decidable_of_iff (n = n') (by simp)
  | .fixed64 b, .fixed64 b' => decidable_of_iff (b = b') (by simp)
  | .text s, .text s' => decidable_of_iff (s = s') (by simp)
  | .bytes b, .bytes b' => decidable_of_iff (b = b') (by simp)
  | .message r, .message r' =>
      match WireValue.decEqList r r' with
      | isTrue h => isTrue (by simp [h])
      | isFalse h => isFalse (by simp [h])
  | .varint _, .fixed64 _ | .varint _, .text _ | .varint _, .bytes _ | .varint _, .message _
  | .fixed64 _, .varint _ | .fixed64 _, .text _ | .fixed64 _, .bytes _ | .fixed64 _, .message _
  | .text _, .varint _ | .text _, .fixed64 _ | .text _, .bytes _ | .text _, .message _
  | .bytes _, .varint _ | .bytes _, .fixed64 _ | .bytes _, .text _ | .bytes _, .message _
  | .message _, .varint _ | .message _, .fixed64 _ | .message _, .text _ | .message _, .bytes _ =>
      isFalse (by simp)

/-- Equality of lists of tagged values. -/
def WireValue.decEqList : (a b : List (Nat × WireValue)) → Decidable (a = b)
  | [], [] => isTrue rfl
  | [], _ :: _ => isFalse (by simp)
  | _ :: _, [] => isFalse (by simp)
  | (t, v) :: rest, (t', v') :: rest' =>
      match WireValue.decEq v v', WireValue.decEqList rest rest' with
      | isTrue h, isTrue h' => decidable_of_iff (t = t') (by simp [h, h'])
      | isFalse h, _ => isFalse (by simp [h])
      | _, isFalse h' => isFalse (by simp [h'])

end

instance : DecidableEq WireValue := WireValue.decEq

/-- Tagged values in order. -/
abbrev Record := List (Nat × WireValue)

/-- The bytes of a text. -/
def utf8 (s : String) : List UInt8 := s.toUTF8.data.toList

/-- The text with the given bytes, if they are well-formed. -/
def ofUtf8? (bytes : List UInt8) : Option String := String.fromUTF8? ⟨bytes.toArray⟩

/-- A signed number as it is written: in sixty-four bits. -/
def Varint.ofInt32 (n : Int32) : UInt64 := n.toInt64.toUInt64

/-- A signed number as it is read: from the low thirty-two bits. -/
def Varint.toInt32 (n : UInt64) : Int32 := n.toUInt32.toInt32

namespace Record

/-! ### Access -/

/-- The texts under a tag, in order. -/
def texts (tag : Nat) (r : Record) : List String :=
  r.filterMap fun
    | (t, .text s) => if t = tag then some s else none
    | _ => none

/-- The last text under a tag. -/
def text? (tag : Nat) (r : Record) : Option String := (texts tag r).getLast?

/-- The numbers under a tag, in order. -/
def varints (tag : Nat) (r : Record) : List UInt64 :=
  r.filterMap fun
    | (t, .varint n) => if t = tag then some n else none
    | _ => none

/-- The last number under a tag. -/
def varint? (tag : Nat) (r : Record) : Option UInt64 := (varints tag r).getLast?

/-- The last number under a tag, as a signed number. -/
def int32? (tag : Nat) (r : Record) : Option Int32 := (varint? tag r).map Varint.toInt32

/-- The inner messages under a tag, in order. -/
def messages (tag : Nat) (r : Record) : List Record :=
  r.filterMap fun
    | (t, .message entries) => if t = tag then some entries else none
    | _ => none

/-! ### Construction -/

/-- The text of a component, if it is set. -/
def ofText? (tag : Nat) (s? : Option String) : Record :=
  match s? with
  | none => []
  | some s => [(tag, .text s)]

/-- The signed number of a component, if it is set. -/
def ofInt32? (tag : Nat) (n? : Option Int32) : Record :=
  match n? with
  | none => []
  | some n => [(tag, .varint (Varint.ofInt32 n))]

/-- The number of a component, if it is set. -/
def ofVarint? (tag : Nat) (n? : Option UInt64) : Record :=
  match n? with
  | none => []
  | some n => [(tag, .varint n)]

/-! ### Writing -/

/-- The key of a value. -/
def key (tag : Nat) (w : WireType) : List UInt8 := Varint.encode (tag * 8 + w.number)

/-- Bytes after their number. -/
def delimited (bytes : List UInt8) : List UInt8 := Varint.encode bytes.length ++ bytes

mutual

/-- The bytes of a value under a tag. -/
def encodeValue (tag : Nat) : WireValue → List UInt8
  | .varint n => key tag .varint ++ Varint.encode n.toNat
  | .fixed64 bytes => key tag .fixed64 ++ bytes
  | .text s => key tag .delimited ++ delimited (utf8 s)
  | .bytes bytes => key tag .delimited ++ delimited bytes
  | .message entries => key tag .delimited ++ delimited (encode entries)

/-- The bytes of a record. -/
def encode : List (Nat × WireValue) → List UInt8
  | [] => []
  | (tag, v) :: rest => encodeValue tag v ++ encode rest

end

end Record

end MessageSchema
