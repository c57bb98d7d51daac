import MessageSchema.Json.Basic
import MessageSchema.Entries

/-! # Schemas

A schema constrains JSON values.  A node has a kind, and what else it carries depends on the
kind: an array has a schema for its items, an object has properties and says whether it admits
others, and a list of admitted values may restrict any node.  No two properties of a node have the
same name.  Schemas hold no references; a node contains all it needs.

`Schema.toJson` writes a node as an object whose entries stand in a fixed order and are left out
when unset or empty, and `Schema.documentText` is the text of a whole document. -/

namespace MessageSchema

/-- A type of JSON values. -/
inductive SimpleType where
  | number
  | integer
  | text
  | boolean
  | object
  | array
deriving DecidableEq, Repr

/-- What a node admits; a union admits what one of its alternatives admits. -/
inductive Kind where
  | simple (type : SimpleType)
  | union (alternatives : List Kind)
deriving Repr

/-- A value listed by a node. -/
inductive EnumItem where
  | name (s : String)
  | number (n : Int32)
deriving DecidableEq, Repr

/-- A node of a schema. -/
structure Schema where
  kind : Kind
  items? : Option Schema := none
  properties : Entries Schema := ∅
  additionalProperties? : Option Bool := none
  enumItems : List EnumItem := []
deriving Repr

/-! ### Equality -/

mutual

/-- Equality of kinds is decided alternative by alternative. -/
def Kind.decEq : (a b : Kind) → Decidable (a = b)
  | .simple t, .simple t' => decidable_of_iff (t = t') (by simp)
  | .union ks, .union ks' =>
      match Kind.decEqList ks ks' with
      | isTrue h => isTrue (by simp [h])
      | isFalse h => isFalse (by simp [h])
  | .simple _, .union _ => isFalse (by simp)
  | .union _, .simple _ => isFalse (by simp)

/-- Equality of lists of kinds. -/
def Kind.decEqList : (a b : List Kind) → Decidable (a = b)
  | [], [] => isTrue rfl
  | [], _ :: _ => isFalse (by simp)
  | _ :: _, [] => isFalse (by simp)
  | k :: rest, k' :: rest' =>
      match Kind.decEq k k', Kind.decEqList rest rest' with
      | isTrue h, isTrue h' => isTrue (by simp [h, h'])
      | isFalse h, _ => isFalse (by simp [h])
      | _, isFalse h' => isFalse (by simp [h'])

end

instance : DecidableEq Kind := Kind.decEq

mutual

/-- Equality of schemas is decided component by component. -/
def Schema.decEq : (a b : Schema) → Decidable (a = b)
  | ⟨k, items?, ⟨rows⟩, a, e⟩, ⟨k', items?', ⟨rows'⟩, a', e'⟩ =>
      match Schema.decEqItems items? items?', Schema.decEqRows rows rows' with
      | isTrue h, isTrue h' =>
          have hps : Entries.mk rows = Entries.mk rows' := Entries.ext_toList h'
          decidable_of_iff (k = k' ∧ a = a' ∧ e = e') (by rw [hps, h]; simp)
      | isFalse h, _ => isFalse (by simp [h])
      | _, isFalse h' => isFalse fun he => h' (congrArg (·.properties.toList) he)

/-- Equality of the schemas for items. -/
def Schema.decEqItems : (a b : Option Schema) → Decidable (a = b)
  | none, none => isTrue rfl
  | none, some _ => isFalse (by simp)
  | some _, none => isFalse (by simp)
  | some s, some s' =>
      match Schema.decEq s s' with
      | isTrue h => isTrue (by simp [h])
      | isFalse h => isFalse (by simp [h])

/-- Equality of properties, row by row. -/
def Schema.decEqRows : {names names' : List String} → (a : Rows Schema names) →
    (b : Rows Schema names') → Decidable (a.toList = b.toList)
  | _, _, .nil, .nil => isTrue rfl
  | _, _, .nil, .cons .. => isFalse (by simp [Rows.toList])
  | _, _, .cons .., .nil => isFalse (by simp [Rows.toList])
  | _, _, .cons n s rest _, .cons n' s' rest' _ =>
      match Schema.decEq s s', Schema.decEqRows rest rest' with
      | isTrue h, isTrue h' => decidable_of_iff (n = n') (by simp [Rows.toList, h, h'])
      | isFalse h, _ => isFalse (by simp [Rows.toList, h])
      | _, isFalse h' => isFalse (by simp [Rows.toList, h'])

end

instance : DecidableEq Schema := Schema.decEq

/-- The name of a type. -/
def SimpleType.name : SimpleType → String
  | number => "number"
  | integer => "integer"
  | text => "string"
  | boolean => "boolean"
  | object => "object"
  | array => "array"

namespace Kind

/-- A text or an integer, the two ways in which an enum value may be written. -/
def textOrInteger : Kind := union [simple .text, simple .integer]

/-- The name of a kind; a union has none. -/
def name? : Kind → Option String
  | simple t => some t.name
  | union _ => none

/-- Whether the kind is that of objects. -/
def isObject (k : Kind) : Bool := k = simple .object

mutual

/-- The entry that states a kind. -/
def entry : Kind → String × Json
  | simple t => ("type", .text t.name)
  | union alternatives => ("oneOf", .list (entries alternatives))

/-- One object for each alternative of a union. -/
def entries : List Kind → List Json
  | [] => []
  | k :: rest => .object [k.entry] :: entries rest

end

end Kind

/-- The JSON value of a listed value. -/
def EnumItem.toJson : EnumItem → Json
  | name s => .text s
  | number n => .number n.toInt

namespace Schema

/-- A node of a kind with nothing else set. -/
def ofKind (kind : Kind) : Schema := { kind }

/-- A node of a type with nothing else set. -/
def ofType (type : SimpleType) : Schema := ofKind (.simple type)

/-- An object node; `additional?` says whether it admits undeclared properties. -/
def object (additional? : Option Bool) : Schema :=
  { ofType .object with additionalProperties? := additional? }

/-- An array node with a schema for its items. -/
def array (items : Schema) : Schema := { ofType .array with items? := some items }

/-! ### Documents -/

mutual

/-- The entries of a node, in their fixed order. -/
def entries : Schema → List (String × Json)
  | ⟨kind, items?, properties, additional?, enumItems⟩ =>
      kind.entry :: itemsEntry items? ++
        (if properties.isEmpty then []
        else [("properties", .object (propertyEntries properties))]) ++
        (match additional? with
          | none => []
          | some allow => [("additionalProperties", .bool allow)]) ++
        (match enumItems with
          | [] => []
          | _ :: _ => [("enum", .list (enumItems.map EnumItem.toJson))])

/-- The entry of the schema for items. -/
def itemsEntry : Option Schema → List (String × Json)
  | none => []
  | some items => [("items", .object items.entries)]

/-- One entry for each property. -/
def propertyEntries : Entries Schema → List (String × Json)
  | ⟨rows⟩ => rowEntries rows

/-- One entry for each row. -/
def rowEntries : {names : List String} → Rows Schema names → List (String × Json)
  | _, .nil => []
  | _, .cons name s rest _ => (name, .object s.entries) :: rowEntries rest

end

/-- The JSON value of a node. -/
def toJson (s : Schema) : Json := .object s.entries

/-- The dialect that every document declares in its first entry. -/
def dialect : String := "http://json-schema.org/draft-04/schema#"

/-- The JSON value of a document: the node with the dialect in front. -/
def documentJson (s : Schema) : Json := .object (("$schema", .text dialect) :: s.entries)

/-- The text of a document. -/
def documentText (s : Schema) : String := s.documentJson.toText .pretty

/-- The text of a node without insignificant characters. -/
def compactText (s : Schema) : String := s.toJson.toText .compact

end Schema

end MessageSchema
