import MessageSchema.Descriptor
import MessageSchema.Wire.Reader

/-! # Requests

A request names the files to generate from and carries a parameter text and the descriptors of all
files.  `Request.toRecord` and `Request.ofRecord` say which component stands under which tag;
components that a request does not keep are dropped when it is read.  Set components are written
in ascending order of their tags. -/

namespace MessageSchema

/-- What a code generator is asked to do. -/
structure Request where
  targets : List String := []
  parameter? : Option String := none
  files : List File := []
deriving DecidableEq, Repr

/-- The parameter text of the request, empty if absent. -/
def Request.parameter (r : Request) : String := r.parameter?.getD ""

/-! ### From a record -/

/-- The enum value that a record holds. -/
def EnumMember.ofRecord (r : Record) : EnumMember :=
  { name? := Record.text? 1 r, number? := Record.int32? 2 r }

/-- The enum that a record holds. -/
def EnumType.ofRecord (r : Record) : EnumType :=
  { name? := Record.text? 1 r, members := (Record.messages 2 r).map EnumMember.ofRecord }

/-- The field that a record holds. -/
def Field.ofRecord (r : Record) : Field :=
  { name? := Record.text? 1 r, label? := Record.int32? 4 r, type? := Record.int32? 5 r,
    typeName? := Record.text? 6 r }

mutual

/-- The message that a value holds. -/
def Message.ofValue : WireValue → Message
  | .message entries =>
      { name? := Record.text? 1 entries
        fields := (Record.messages 2 entries).map Field.ofRecord
        nested := Message.nestedOf entries
        enums := (Record.messages 4 entries).map EnumType.ofRecord }
  | _ => {}

/-- The nested messages among the entries of a record. -/
def Message.nestedOf : List (Nat × WireValue) → List Message
  | [] => []
  | (tag, v) :: rest =>
      if tag = 3 then Message.ofValue v :: Message.nestedOf rest else Message.nestedOf rest

end

/-- The message that a record holds. -/
def Message.ofRecord (r : Record) : Message := Message.ofValue (.message r)

/-- The file that a record holds. -/
def File.ofRecord (r : Record) : File :=
  { name? := Record.text? 1 r, package? := Record.text? 2 r
    messages := (Record.messages 4 r).map Message.ofRecord
    enums := (Record.messages 5 r).map EnumType.ofRecord }

/-- The request that a record holds. -/
def Request.ofRecord (r : Record) : Request :=
  { targets := Record.texts 1 r, parameter? := Record.text? 2 r
    files := (Record.messages 15 r).map File.ofRecord }

/-! ### To a record -/

/-- Inner messages under one tag. -/
def Record.ofMessages (tag : Nat) (rs : List Record) : Record := rs.map fun r => (tag, .message r)

/-- The record of an enum value. -/
def EnumMember.toRecord (m : EnumMember) : Record :=
  Record.ofText? 1 m.name? ++ Record.ofInt32? 2 m.number?

/-- The record of an enum. -/
def EnumType.toRecord (e : EnumType) : Record :=
  Record.ofText? 1 e.name? ++ Record.ofMessages 2 (e.members.map EnumMember.toRecord)

/-- The record of a field. -/
def Field.toRecord (f : Field) : Record :=
  Record.ofText? 1 f.name? ++ Record.ofInt32? 4 f.label? ++ Record.ofInt32? 5 f.type? ++
    Record.ofText? 6 f.typeName?

mutual

/-- The record of a message. -/
def Message.toRecord : Message → Record
  | ⟨name?, fields, nested, enums⟩ =>
      Record.ofText? 1 name? ++ Record.ofMessages 2 (fields.map Field.toRecord) ++
        Message.nestedRecords nested ++ Record.ofMessages 4 (enums.map EnumType.toRecord)

/-- The entries of nested messages. -/
def Message.nestedRecords : List Message → Record
  | [] => []
  | m :: rest => (3, .message m.toRecord) :: Message.nestedRecords rest

end

/-- The record of a file. -/
def File.toRecord (f : File) : Record :=
  Record.ofText? 1 f.name? ++ Record.ofText? 2 f.package? ++
    Record.ofMessages 4 (f.messages.map Message.toRecord) ++
    Record.ofMessages 5 (f.enums.map EnumType.toRecord)

/-- The record of a request. -/
def Request.toRecord (r : Request) : Record :=
  r.targets.map (fun s => (1, .text s)) ++ Record.ofText? 2 r.parameter? ++
    Record.ofMessages 15 (r.files.map File.toRecord)

/-! ### Bytes -/

/-- The bytes of a request. -/
def Request.encode (r : Request) : List UInt8 := Record.encode r.toRecord

/-- The request that `bytes` hold. -/
def Request.decode (bytes : List UInt8) : Except DecodeError Request :=
  Request.ofRecord <$> Record.decode .request bytes

end MessageSchema
