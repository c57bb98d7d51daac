import MessageSchema.Located

/-! # Descriptors

What a compiled schema file declares: messages with fields, nested messages and enums.  Every
component may be left out, and a component that is left out differs from one that is empty, so
names and numbers are stored as options (`name?`, `label?`, …); the accessors without a question
mark read an absent name as the empty text and an absent number as zero.

A field's label and type are numbers of the descriptor format.  `Field.label` reads every number
but those of the other two labels as optional, and `FieldType.ofNumber?` knows eighteen types. -/

namespace MessageSchema

/-- A value of an enum. -/
structure EnumMember where
  name? : Option String := none
  number? : Option Int32 := none
deriving DecidableEq, Repr

/-- An enum with its values in declaration order. -/
structure EnumType where
  name? : Option String := none
  members : List EnumMember := []
deriving DecidableEq, Repr

/-- A field of a message; `typeName?` refers to another type by name. -/
structure Field where
  name? : Option String := none
  label? : Option Int32 := none
  type? : Option Int32 := none
  typeName? : Option String := none
deriving DecidableEq, Repr

/-- A message with the types that are declared inside it. -/
structure Message where
  name? : Option String := none
  fields : List Field := []
  nested : List Message := []
  enums : List EnumType := []
deriving Repr

/-- A file with the types that it declares at the top level. -/
structure File where
  name? : Option String := none
  package? : Option String := none
  messages : List Message := []
  enums : List EnumType := []
deriving Repr

/-! ### Equality -/

mutual

/-- Equality of messages is decided component by component. -/
def Message.decEq : (a b : Message) → Decidable (a = b)
  | ⟨n, f, nested, e⟩, ⟨n', f', nested', e'⟩ =>
      match Message.decEqList nested nested' with
      | isTrue h => decidable_of_iff (n = n' ∧ f = f' ∧ e = e') (by simp [h])
      | isFalse h => isFalse (by simp [h])

/-- Equality of lists of messages. -/
def Message.decEqList : (a b : List Message) → Decidable (a = b)
  | [], [] => isTrue rfl
  | [], _ :: _ => isFalse (by simp)
  | _ :: _, [] => isFalse (by simp)
  | m :: rest, m' :: rest' =>
      match Message.decEq m m', Message.decEqList rest rest' with
      | isTrue h, isTrue h' => isTrue (by simp [h, h'])
      | isFalse h, _ => isFalse (by simp [h])
      | _, isFalse h' => isFalse (by simp [h'])

end

instance : DecidableEq Message := Message.decEq

deriving instance DecidableEq for File

/-! ### Names and numbers with their defaults -/

/-- The name of the value, empty if absent. -/
def EnumMember.name (m : EnumMember) : String := m.name?.getD ""

/-- The number of the value, zero if absent. -/
def EnumMember.number (m : EnumMember) : Int32 := m.number?.getD 0

/-- The name of the enum, empty if absent. -/
def EnumType.name (e : EnumType) : String := e.name?.getD ""

/-- The name of the message, empty if absent. -/
def Message.name (m : Message) : String := m.name?.getD ""

/-- The name of the file, empty if absent. -/
def File.name (f : File) : String := f.name?.getD ""

/-- The package of the file, empty if absent. -/
def File.package (f : File) : String := f.package?.getD ""

/-- The name of the field, empty if absent. -/
def Field.name (f : Field) : String := f.name?.getD ""

/-- The type name of the field, empty if absent. -/
def Field.typeName (f : Field) : String := f.typeName?.getD ""

/-! ### Labels and types -/

/-- How often a field may occur. -/
inductive Label where
  | optional
  | required
  | repeated
deriving DecidableEq, Repr

/-- The label of the field; an absent or unknown number means optional. -/
def Field.label (f : Field) : Label :=
  match f.label?.map Int32.toInt with
  | some 2 => .required
  | some 3 => .repeated
  | _ => .optional

/-- The type of a field, up to differences of width, sign and encoding. -/
inductive FieldType where
  /-- `double`, `float` -/
  | number
  /-- `int64`, `uint64`, `int32`, `fixed64`, `fixed32`, `uint32`, `sfixed32`, `sfixed64`,
  `sint32`, `sint64` -/
  | integer
  /-- `bool` -/
  | boolean
  /-- `string`, `bytes` -/
  | text
  /-- `enum` -/
  | enumeration
  /-- `group`, `message` -/
  | record
deriving DecidableEq, Repr

/-- The type with number `n`, if there is one. -/
def FieldType.ofNumber? (n : Int32) : Option FieldType :=
  match n.toInt with
  | 1 | 2 => some .number
  | 3 | 4 | 5 | 6 | 7 | 13 | 15 | 16 | 17 | 18 => some .integer
  | 8 => some .boolean
  | 9 | 12 => some .text
  | 14 => some .enumeration
  | 10 | 11 => some .record
  | _ => none

/-- The type of the field, absent if its number is absent or unknown. -/
def Field.fieldType? (f : Field) : Option FieldType := f.type?.bind FieldType.ofNumber?

/-! ### Located parts -/

/-- The messages declared directly inside a message. -/
def Located.nested (m : Located Message) : List (Located Message) := m.within Message.nested

/-- The messages declared at the top level of a file. -/
def Located.messages (f : Located File) : List (Located Message) := f.within File.messages

mutual

/-- The message `m` at `place` and every message declared inside it at any depth. -/
def Message.family (place : Place) : Message → List (Located Message)
  | ⟨name?, fields, nested, enums⟩ =>
      ⟨place, ⟨name?, fields, nested, enums⟩⟩ :: Message.familyFrom place 0 nested

/-- The families of a list of messages inside `place`, counted from `start`. -/
def Message.familyFrom (place : Place) (start : Nat) : List Message → List (Located Message)
  | [] => []
  | m :: rest =>
      Message.family (place ++ [start]) m ++ Message.familyFrom place (start + 1) rest

end

/-- A message and every message declared inside it at any depth, each with its place. -/
def Located.family (m : Located Message) : List (Located Message) :=
  Message.family m.place m.item

theorem Message.family_eq (place : Place) (m : Message) :
    m.family place = ⟨place, m⟩ :: Message.familyFrom place 0 m.nested := by
  cases m; rfl

theorem Located.mem_family_self (m : Located Message) : m ∈ m.family := by
  simp [Located.family, Message.family_eq]

theorem Message.mem_familyFrom {place : Place} {start : Nat} {l : List Message}
    {d : Located Message} :
    d ∈ Message.familyFrom place start l ↔ ∃ m ∈ Located.enumerate place start l, d ∈ m.family := by
  induction l generalizing start with
  | nil => simp [Message.familyFrom, Located.enumerate]
  | cons m rest ih => simp [Message.familyFrom, Located.enumerate, Located.family, ih]

theorem Located.mem_family_iff {m d : Located Message} :
    d ∈ m.family ↔ d = m ∨ ∃ n ∈ m.nested, d ∈ n.family := by
  rw [Located.family, Message.family_eq, List.mem_cons, Message.mem_familyFrom]
  rfl

theorem Located.family_subset_of_mem_nested {m n : Located Message} (h : n ∈ m.nested) :
    ∀ d ∈ n.family, d ∈ m.family :=
  fun _ hd => mem_family_iff.mpr (.inr ⟨n, h, hd⟩)

end MessageSchema
