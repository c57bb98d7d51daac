import MessageSchema.Registry.Lookup
import MessageSchema.Schema.Basic

/-! # Inlining of messages

The schema of a message is an object with one property for each field.  A field of message type
takes the schema of the message that it refers to, expanded in place, so the result holds no
references.  References are looked up in the package of the file that declares the top-level
message.

While a message is expanded its place is on the *chain*.  A reference to a message on the chain is
not expanded again: a required field then fails, and any other field keeps an object without
properties.  Places on the chain are pairwise different and all but the first belong to declared
messages, so `Registry.unvisited` decreases from one message to the next inside it and the
expansion ends on every type graph (`unvisited_lt`). -/

namespace MessageSchema

/-! ### Enum values -/

/-- The values of an enum, each by name and then by number. -/
def EnumType.items (e : EnumType) : List EnumItem :=
  e.members.flatMap fun m => [.name m.name, .number m.number]

/-- The schema of an enum that stands alone. -/
def EnumType.toSchema (e : EnumType) : Schema :=
  { Schema.ofKind .textOrInteger with enumItems := e.items }

/-- Whether `typeName` ends with the names of `owner` and of its enum `e`, each after a dot. -/
def Message.namesEnum (owner : Message) (e : EnumType) (typeName : String) : Bool :=
  ("." ++ owner.name ++ "." ++ e.name).toList.isSuffixOf typeName.toList

/-- The values of the enums declared directly in `owner` that `typeName` names. -/
def Message.enumItems (owner : Message) (typeName : String) : List EnumItem :=
  (owner.enums.filter (owner.namesEnum · typeName)).flatMap EnumType.items

/-! ### Fields that refer to no message -/

/-- The schema of one value of a field of `owner`; absent if the values are messages. -/
def Field.leaf? (owner : Message) (f : Field) : FieldType → Option Schema
  | .number => some (.ofType .number)
  | .integer => some (.ofType .integer)
  | .boolean => some (.ofType .boolean)
  | .text => some (.ofType .text)
  | .enumeration =>
      some { Schema.ofKind .textOrInteger with enumItems := owner.enumItems f.typeName }
  | .record => none

/-- An array of values of the kind of `s`.  The admitted values of `s` stay on the array. -/
def Schema.repeated (s : Schema) : Schema :=
  { Schema.array (.ofKind s.kind) with enumItems := s.enumItems }

/-- The schema of a field whose single values have schema `s`. -/
def Label.ofLeaf (l : Label) (s : Schema) : Schema :=
  match l with
  | .optional | .required => s
  | .repeated => s.repeated

/-! ### Fields that refer to a message -/

/-- The schema of a field whose single values have the expanded message schema `s`: an array of
`s`, or an object with the properties of `s`. -/
def Label.ofExpanded (l : Label) (s : Schema) : Schema :=
  match l with
  | .optional => { Schema.object (some true) with properties := s.properties }
  | .required => { Schema.object (some false) with properties := s.properties }
  | .repeated => .array s

/-- What a conversion of one top-level message draws on: the registry, the package in which
references are looked up, and the options. -/
structure Context where
  registry : Registry
  package : PackagePath
  options : Options

/-- How many declarations stand at places that are not on the chain. -/
def Registry.unvisited (r : Registry) (chain : List Place) : Nat :=
  r.declared.countP fun d => !chain.contains d.place

theorem countP_lt_countP {α : Type} {p q : α → Bool} {l : List α} {a : α} (hpq : ∀ x, p x → q x)
    (ha : a ∈ l) (hp : p a = false) (hq : q a = true) : l.countP p < l.countP q := by
  induction l with
  | nil => cases ha
  | cons b l ih =>
      have hle : l.countP p ≤ l.countP q := List.countP_mono_left fun x _ => hpq x
      rcases List.mem_cons.mp ha with rfl | ha
      · rw [List.countP_cons_of_neg (by simp [hp]), List.countP_cons_of_pos hq]
        omega
      · have := ih ha
        simp only [List.countP_cons]
        by_cases hb : p b = true
        · simp only [hb, hpq b hb, if_true]
          omega
        · rw [if_neg hb]
          split <;> omega

theorem Registry.unvisited_lt {r : Registry} {chain : List Place} {t : Located Message}
    (ht : t ∈ r.declared) (hc : t.place ∉ chain) :
    r.unvisited (t.place :: chain) < r.unvisited chain := by
  refine countP_lt_countP (fun x hx => ?_) ht ?_ ?_
  · simp only [List.contains_eq_mem, List.mem_cons, Bool.not_eq_true', decide_eq_false_iff_not,
      not_or] at hx ⊢
    exact hx.2
  · simp
  · simpa using hc

namespace Context

/-- The schema of a field that refers to a message on the chain. -/
def cutSchema (ctx : Context) (owner : Message) (f : Field) : Conversion Schema :=
  match f.label with
  | .required => throw (.recursiveType f.name owner.name f.typeName)
  | .repeated => do
      ExceptT.lift (Logged.emit (.referenceCut f.name owner.name f.typeName))
      pure (.array (.object (some ctx.options.allowAdditionalProperties)))
  | .optional => do
      ExceptT.lift (Logged.emit (.referenceCut f.name owner.name f.typeName))
      pure (.object (some true))

/-- The schema of a field of message type; `expand` makes the schema of a message off the
chain. -/
def referenceSchema (ctx : Context) (chain : List Place) (owner : Message) (f : Field)
    (expand : (t : Located Message) → t ∈ ctx.registry.declared → t.place ∉ chain →
      Conversion Schema) : Conversion Schema := do
  match ← ExceptT.lift (ctx.registry.lookup ctx.package f.typeName).attach with
  | ⟨none, _⟩ => throw (.unresolvedReference f.typeName owner.name)
  | ⟨some t, h⟩ =>
      if hc : t.place ∈ chain then ctx.cutSchema owner f
      else
        let s ← expand t (Registry.mem_declared_of_lookup h) hc
        pure (f.label.ofExpanded s)

/-- The schema of a field of `owner`; `expand` makes the schema of a message off the chain. -/
def fieldSchema (ctx : Context) (chain : List Place) (owner : Message) (f : Field)
    (expand : (t : Located Message) → t ∈ ctx.registry.declared → t.place ∉ chain →
      Conversion Schema) : Conversion Schema :=
  match f.fieldType? with
  | none => throw (.unrecognizedType f.name owner.name f.type?)
  | some type =>
      match f.leaf? owner type with
      | some s => pure (f.label.ofLeaf s)
      | none => ctx.referenceSchema chain owner f expand

/-- The properties that `fields` of `owner` add to `ps`, each made by `convert`.  The first
failure ends the conversion and is reported with the field that failed. -/
def fieldSchemas (owner : Message) (convert : Field → Conversion Schema)
    (ps : Entries Schema) : List Field → Conversion (Entries Schema)
  | [] => pure ps
  | f :: rest => do
      let s ← (convert f).onError fun cause => .fieldFailed cause f.name owner.name
      fieldSchemas owner convert (Entries.insert f.name s ps) rest

/-- The schema of `m` inside messages at the places of `chain`. -/
def expand (ctx : Context) (chain : List Place) (m : Located Message) : Conversion Schema := do
  let properties ← fieldSchemas m.item
    (fun f => ctx.fieldSchema (m.place :: chain) m.item f
      fun t _ _ => ctx.expand (m.place :: chain) t) ∅ m.item.fields
  pure { Schema.object (some ctx.options.allowAdditionalProperties) with properties }
termination_by ctx.registry.unvisited (m.place :: chain)
decreasing_by exact Registry.unvisited_lt ‹_› ‹_›

/-- The schema of a top-level message. -/
def schemaOf (ctx : Context) (m : Located Message) : Conversion Schema := ctx.expand [] m

end Context

end MessageSchema
