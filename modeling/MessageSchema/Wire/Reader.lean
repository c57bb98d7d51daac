import MessageSchema.Wire.Record
import MessageSchema.Wire.Shape

/-! # Reading records

A record is read value by value, each after its key, until the bytes of its message are used up.
A message inside another is announced by its length, and a length is checked against all bytes that
are left, not against the message around it; a message whose last value runs past its end is
refused afterwards.  A value under an unknown tag is skipped.

Messages may be nested to a fixed number of levels, and so may the groups inside skipped values.  An
error carries the known components that were being read, innermost first.

Every reader returns the unread bytes with the fact that they are fewer, or no more, than the bytes
it was given; that fact is the measure by which the readers end. -/

namespace MessageSchema

/-! ### Errors -/

/-- What is wrong with some bytes. -/
inductive WireFault where
  /-- A number is cut off or too long. -/
  | varint
  /-- A key does not fit into thirty-two bits. -/
  | keyTooLarge (key : Nat)
  /-- A key has no known wire type. -/
  | unknownWireType (number : Nat)
  /-- A key has the tag zero. -/
  | zeroTag
  /-- A known component has values of another wire type. -/
  | unexpectedWireType (actual expected : WireType)
  /-- A value is longer than the bytes that are left. -/
  | underflow
  /-- A text has bytes that are no text. -/
  | notUtf8
  /-- Messages or groups are nested too deeply. -/
  | recursionLimit
  /-- The last value of a message runs past its end. -/
  | lengthExceeded
  /-- A group is closed that is not the innermost open one. -/
  | endGroup
deriving DecidableEq, Repr

/-- The text that reports a fault. -/
def WireFault.text : WireFault → String
  | varint => "invalid varint"
  | keyTooLarge key => "invalid key value: " ++ toString key
  | unknownWireType number => "invalid wire type value: " ++ toString number
  | zeroTag => "invalid tag value: 0"
  | unexpectedWireType actual expected =>
      "invalid wire type: " ++ actual.name ++ " (expected " ++ expected.name ++ ")"
  | underflow => "buffer underflow"
  | notUtf8 => "invalid string value: data is not UTF-8 encoded"
  | recursionLimit => "recursion limit reached"
  | lengthExceeded => "delimited length exceeded"
  | endGroup => "unexpected end group tag"

/-- A fault and the components inside which it was met, innermost first, each with the name of its
message. -/
structure DecodeError where
  fault : WireFault
  trail : List (String × String) := []
deriving DecidableEq, Repr

/-- The text that reports an error. -/
def DecodeError.text (e : DecodeError) : String :=
  "failed to decode Protobuf message: " ++
    String.join (e.trail.map fun step => step.1 ++ "." ++ step.2 ++ ": ") ++ e.fault.text

namespace Reader

/-- A result without a component around it. -/
def outside {α : Type} (x : Except WireFault α) : Except DecodeError α :=
  x.mapError fun fault => { fault }

/-- A result met inside a component of a message. -/
def inside {α : Type} (shape : Shape) (c : Component) (x : Except DecodeError α) :
    Except DecodeError α :=
  x.mapError fun e => { e with trail := e.trail ++ [(shape.name, c.name)] }

/-! ### Parts of values -/

/-- Unread bytes after at least one byte was read. -/
abbrev Shorter (bytes : List UInt8) := { rest : List UInt8 // rest.length < bytes.length }

/-- Unread bytes. -/
abbrev NoLonger (bytes : List UInt8) := { rest : List UInt8 // rest.length ≤ bytes.length }

/-- Read a number. -/
def varint (bytes : List UInt8) : Except WireFault (Nat × Shorter bytes) :=
  match h : Varint.decode bytes with
  | none => .error .varint
  | some (n, rest) => .ok (n, ⟨rest, Varint.length_lt_of_decode h⟩)

/-- Read a key: a tag and a wire type. -/
def key (bytes : List UInt8) : Except WireFault (Nat × WireType × Shorter bytes) := do
  let (key, rest) ← varint bytes
  if UInt32.size ≤ key then throw (.keyTooLarge key)
  else
    match WireType.ofNumber? (key % 8) with
    | none => throw (.unknownWireType (key % 8))
    | some w => if key / 8 = 0 then throw .zeroTag else pure (key / 8, w, rest)

/-- Read the number of bytes that follow; as many must be left. -/
def size (bytes : List UInt8) : Except WireFault (Nat × Shorter bytes) := do
  let (n, rest) ← varint bytes
  if rest.1.length < n then throw .underflow else pure (n, rest)

/-- Read `n` bytes. -/
def raw (n : Nat) (bytes : List UInt8) : Except WireFault (List UInt8 × NoLonger bytes) :=
  if bytes.length < n then throw .underflow
  else pure (bytes.take n, ⟨bytes.drop n, by simp⟩)

/-- Read bytes that follow their number. -/
def delimited (bytes : List UInt8) : Except WireFault (List UInt8 × NoLonger bytes) := do
  let (n, ⟨rest, h⟩) ← size bytes
  pure (rest.take n, ⟨rest.drop n, by rw [List.length_drop]; omega⟩)

/-- Require a wire type. -/
def expect (actual expected : WireType) : Except WireFault Unit :=
  if actual = expected then pure () else throw (.unexpectedWireType actual expected)

/-! ### Skipped values -/

/-- Skip a value that is no group. -/
def skipPlain (w : WireType) (bytes : List UInt8) : Except WireFault (NoLonger bytes) :=
  match w with
  | .varint => do
      let (_, ⟨rest, h⟩) ← varint bytes
      pure ⟨rest, Nat.le_of_lt h⟩
  | .fixed64 => Prod.snd <$> raw 8 bytes
  | .fixed32 => Prod.snd <$> raw 4 bytes
  | .delimited => Prod.snd <$> delimited bytes
  | .startGroup | .endGroup => throw .endGroup

/-- Skip the values of the group `tag` and the key that closes it; `levels` remain for the values
inside. -/
def skipGroup (levels tag : Nat) (bytes : List UInt8) : Except WireFault (NoLonger bytes) := do
  let (t, w, ⟨afterKey, hk⟩) ← key bytes
  if w = .endGroup then
    if t = tag then pure ⟨afterKey, Nat.le_of_lt hk⟩ else throw .endGroup
  else
    match levels with
    | 0 => throw .recursionLimit
    | inner + 1 => do
        let ⟨rest, hr⟩ ←
          (if w = .startGroup then skipGroup inner t afterKey else skipPlain w afterKey)
        let ⟨last, hl⟩ ← skipGroup (inner + 1) tag rest
        pure ⟨last, by omega⟩
termination_by bytes.length

/-- Skip the value under an unknown tag. -/
def skip (levels tag : Nat) (w : WireType) (bytes : List UInt8) :
    Except WireFault (NoLonger bytes) :=
  match levels with
  | 0 => throw .recursionLimit
  | inner + 1 => if w = .startGroup then skipGroup inner tag bytes else skipPlain w bytes

/-! ### Values of known components -/

/-- Read numbers until no more than `limit` bytes are left. -/
def packed (limit : Nat) (bytes : List UInt8) :
    Except WireFault (List UInt64 × NoLonger bytes) :=
  if bytes.length ≤ limit then pure ([], ⟨bytes, Nat.le_refl _⟩)
  else do
    let (n, ⟨rest, h⟩) ← varint bytes
    let (ns, ⟨last, hl⟩) ← packed limit rest
    pure (n.toUInt64 :: ns, ⟨last, by omega⟩)
termination_by bytes.length

/-- Read the values of a component that holds no messages. -/
def leaf (slot : Slot) (w : WireType) (bytes : List UInt8) :
    Except WireFault (List WireValue × NoLonger bytes) := do
  match slot with
  | .varints =>
      if w = .delimited then
        let (n, ⟨body, hb⟩) ← size bytes
        let limit := body.length - n
        let (ns, ⟨rest, hr⟩) ← packed limit body
        if rest.length = limit then pure (ns.map .varint, ⟨rest, by omega⟩)
        else throw .lengthExceeded
      else
        expect w .varint
        let (n, ⟨rest, h⟩) ← varint bytes
        pure ([.varint n.toUInt64], ⟨rest, Nat.le_of_lt h⟩)
  | .varint =>
      expect w .varint
      let (n, ⟨rest, h⟩) ← varint bytes
      pure ([.varint n.toUInt64], ⟨rest, Nat.le_of_lt h⟩)
  | .fixed64 =>
      expect w .fixed64
      let (body, rest) ← raw 8 bytes
      pure ([.fixed64 body], rest)
  | .bytes | .message _ =>
      expect w .delimited
      let (body, rest) ← delimited bytes
      pure ([.bytes body], rest)
  | .text =>
      expect w .delimited
      let (body, rest) ← delimited bytes
      match ofUtf8? body with
      | some s => pure ([.text s], rest)
      | none => throw .notUtf8

/-! ### Records -/

/-- Read a message that follows its length; `read` reads its record with the levels that remain and
the number of bytes to leave. -/
def message (levels : Nat) (w : WireType) (bytes : List UInt8)
    (read : (levels limit : Nat) → (body : Shorter bytes) →
      Except DecodeError (Record × NoLonger body.1)) :
    Except DecodeError (List WireValue × NoLonger bytes) := do
  outside (expect w .delimited)
  match levels with
  | 0 => throw { fault := .recursionLimit }
  | below + 1 => do
      let (n, ⟨body, hb⟩) ← outside (size bytes)
      let (entries, ⟨rest, hr⟩) ← read below (body.length - n) ⟨body, hb⟩
      if rest.length = body.length - n then
        pure ([.message entries], ⟨rest, Nat.le_trans hr (Nat.le_of_lt hb)⟩)
      else throw { fault := .lengthExceeded }

/-- Read the record of a message until no more than `limit` bytes are left; `levels` remain for the
messages inside. -/
def record (shape : Shape) (levels limit : Nat) (bytes : List UInt8) :
    Except DecodeError (Record × NoLonger bytes) :=
  if bytes.length ≤ limit then pure ([], ⟨bytes, Nat.le_refl _⟩)
  else do
    let (tag, w, ⟨afterKey, hk⟩) ← outside (key bytes)
    let (values, ⟨rest, hr⟩) ←
      (match shape.component? tag with
        | none => outside (Prod.mk [] <$> skip levels tag w afterKey)
        | some c =>
            inside shape c <|
              match c.slot with
              | .message inner =>
                  message levels w afterKey fun levels limit body => record inner levels limit body
              | slot => outside (leaf slot w afterKey))
    let (entries, ⟨last, hl⟩) ← record shape levels limit rest
    pure (values.map (tag, ·) ++ entries, ⟨last, by omega⟩)
termination_by bytes.length
decreasing_by
  · exact Nat.lt_trans body.2 hk
  · omega

end Reader

namespace Record

/-- How many messages may be open inside the outermost one. -/
def maxLevels : Nat := 100

/-- The record that `bytes` hold as a whole. -/
def decode (shape : Shape) (bytes : List UInt8) : Except DecodeError Record :=
  Prod.fst <$> Reader.record shape maxLevels 0 bytes

end Record

end MessageSchema
