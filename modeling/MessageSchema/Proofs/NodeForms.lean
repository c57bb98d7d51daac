import MessageSchema.Proofs.Expansion

/-! # The forms of converted nodes

A schema that a conversion makes has nodes of few forms: a bare scalar, a choice between names and
numbers, an object that says whether it admits undeclared properties, and an array of one of these
three.  What a node carries besides its kind is fixed by its form (`Schema.Form`), and arrays stand
in no array.

Main statement: every node of the schema of a message has one of the forms, and the schema itself is
an object that follows the options (`Context.form_of_hasNode`).  It holds of a message once it holds
of the messages that its fields open, since a field adds no more than an object or an array around
what it opens (`Context.formed_ofExpanded`). -/

namespace MessageSchema

/-- Values of the type are neither objects nor arrays. -/
def SimpleType.IsScalar (t : SimpleType) : Prop := t ≠ .object ∧ t ≠ .array

/-- The values are listed each by name and then by number. -/
inductive EnumItem.Paired : List EnumItem → Prop where
  | nil : Paired []
  | cons (s : String) (n : Int32) {rest : List EnumItem} (h : Paired rest) :
      Paired (.name s :: .number n :: rest)

namespace Schema

/-- A schema has itself as a node, and the nodes of its items and of its properties. -/
inductive HasNode : Schema → Schema → Prop where
  | self (s : Schema) : HasNode s s
  | items {s inner node : Schema} (hi : s.items? = some inner) (h : HasNode inner node) :
      HasNode s node
  | property {s inner node : Schema} {name : String} (hp : (name, inner) ∈ s.properties)
      (h : HasNode inner node) : HasNode s node

/-- The forms of nodes; `allow` is the flag of an object that is an item of an array. -/
inductive Form (allow : Bool) : Schema → Prop where
  | scalar (t : SimpleType) (ht : t.IsScalar) : Form allow (ofType t)
  | choice (items : List EnumItem) (h : EnumItem.Paired items) :
      Form allow { ofKind .textOrInteger with enumItems := items }
  | object (flag : Bool) (ps : Entries Schema) :
      Form allow { Schema.object (some flag) with properties := ps }
  | scalars (t : SimpleType) (ht : t.IsScalar) : Form allow (array (ofType t))
  | choices (items : List EnumItem) (h : EnumItem.Paired items) :
      Form allow { array (ofKind .textOrInteger) with enumItems := items }
  | objects (ps : Entries Schema) :
      Form allow (array { Schema.object (some allow) with properties := ps })

/-- Every node has one of the forms. -/
def Formed (allow : Bool) (s : Schema) : Prop := ∀ node, s.HasNode node → node.Form allow

variable {allow : Bool} {s inner node : Schema} {t : SimpleType} {items : List EnumItem}
variable {ps : Entries Schema}

/-! ### What a form says about the parts of a node -/

theorem Form.isSome_items?_iff (h : node.Form allow) :
    node.items?.isSome ↔ node.kind = .simple .array := by
  cases h with
  | scalar t ht => simpa [ofType, ofKind] using ht.2
  | choice | object | scalars | choices | objects =>
      simp [Schema.object, array, ofType, ofKind, Kind.textOrInteger]

theorem Form.isSome_additionalProperties?_iff (h : node.Form allow) :
    node.additionalProperties?.isSome ↔ node.kind = .simple .object := by
  cases h with
  | scalar t ht => simpa [ofType, ofKind] using ht.1
  | choice | object | scalars | choices | objects =>
      simp [Schema.object, array, ofType, ofKind, Kind.textOrInteger]

theorem Form.kind_of_properties (h : node.Form allow) (hp : node.properties ≠ ∅) :
    node.kind = .simple .object := by
  cases h with
  | object flag ps => rfl
  | scalar | choice | scalars | choices | objects => exact absurd rfl hp

theorem Form.kind_of_items (h : node.Form allow) (hi : node.items? = some inner) :
    inner.kind ≠ .simple .array := by
  cases h with
  | scalar | choice | object => cases hi
  | scalars t ht =>
      obtain rfl := Option.some.inj hi
      simpa [ofType, ofKind] using ht.2
  | choices | objects =>
      obtain rfl := Option.some.inj hi
      simp [Schema.object, ofType, ofKind, Kind.textOrInteger]

/-! ### Schemas whose nodes all have a form -/

theorem formed_of_parts (h : s.Form allow)
    (hi : ∀ inner, s.items? = some inner → inner.Formed allow)
    (hp : ∀ e ∈ s.properties, e.2.Formed allow) : s.Formed allow := by
  intro node hnode
  cases hnode with
  | self => exact h
  | items hinner hbelow => exact hi _ hinner node hbelow
  | property hinner hbelow => exact hp _ hinner node hbelow

theorem Formed.of_property (h : s.Formed allow) {e : String × Schema} (he : e ∈ s.properties) :
    e.2.Formed allow :=
  fun node hnode => h node (.property he hnode)

/-- A node without items and properties is all that its schema has. -/
theorem Form.formed (h : s.Form allow) (hi : s.items? = none) (hp : s.properties = ∅) :
    s.Formed allow := by
  apply formed_of_parts h
  · intro inner hinner
    rw [hi] at hinner
    cases hinner
  · intro e he
    rw [hp] at he
    cases he

theorem Form.formed_array (h : s.Form allow) (hitems : s.items? = some inner)
    (hinner : inner.Formed allow) (hp : s.properties = ∅) : s.Formed allow := by
  apply formed_of_parts h
  · intro inner' hinner'
    rw [hitems] at hinner'
    obtain rfl := Option.some.inj hinner'
    exact hinner
  · intro e he
    rw [hp] at he
    cases he

theorem formed_ofType (ht : t.IsScalar) : (ofType t).Formed allow :=
  (Form.scalar t ht).formed rfl rfl

theorem formed_choice (h : EnumItem.Paired items) :
    ({ ofKind .textOrInteger with enumItems := items } : Schema).Formed allow :=
  (Form.choice items h).formed rfl rfl

theorem formed_object {flag : Bool} (hp : ∀ e ∈ ps, e.2.Formed allow) :
    ({ object (some flag) with properties := ps } : Schema).Formed allow := by
  apply formed_of_parts (Form.object flag ps)
  · intro inner hinner
    cases hinner
  · exact hp

theorem formed_objects (hp : ∀ e ∈ ps, e.2.Formed allow) :
    (array { object (some allow) with properties := ps }).Formed allow :=
  (Form.objects ps).formed_array rfl (formed_object hp) rfl

end Schema

/-! ### Fields that refer to no message -/

theorem EnumItem.Paired.append {a b : List EnumItem} (ha : Paired a) (hb : Paired b) :
    Paired (a ++ b) := by
  induction ha with
  | nil => exact hb
  | cons s n _ ih => exact .cons s n ih

theorem EnumType.paired_items (e : EnumType) : EnumItem.Paired e.items := by
  rw [items]
  induction e.members with
  | nil => exact .nil
  | cons m rest ih => exact .cons m.name m.number ih

theorem Message.paired_enumItems (owner : Message) (typeName : String) :
    EnumItem.Paired (owner.enumItems typeName) := by
  rw [enumItems]
  induction owner.enums.filter (owner.namesEnum · typeName) with
  | nil => exact .nil
  | cons e rest ih => exact e.paired_items.append ih

theorem Label.formed_scalar (l : Label) {t : SimpleType} (ht : t.IsScalar) (allow : Bool) :
    (l.ofLeaf (.ofType t)).Formed allow := by
  cases l with
  | optional | required => exact Schema.formed_ofType ht
  | repeated => exact (Schema.Form.scalars t ht).formed_array rfl (Schema.formed_ofType ht) rfl

/-- A repeated choice keeps its values, and the choice in its items lists none. -/
theorem Label.formed_choice (l : Label) {items : List EnumItem} (h : EnumItem.Paired items)
    (allow : Bool) :
    (l.ofLeaf { Schema.ofKind .textOrInteger with enumItems := items }).Formed allow := by
  cases l with
  | optional | required => exact Schema.formed_choice h
  | repeated =>
      exact (Schema.Form.choices items h).formed_array rfl (Schema.formed_choice .nil) rfl

theorem Field.formed_ofLeaf {owner : Message} {f : Field} {type : FieldType} {s : Schema}
    (h : f.leaf? owner type = some s) (l : Label) (allow : Bool) : (l.ofLeaf s).Formed allow := by
  cases type with
  | number | integer | boolean | text =>
      obtain rfl := Option.some.inj h
      exact l.formed_scalar (by simp [SimpleType.IsScalar]) allow
  | enumeration =>
      obtain rfl := Option.some.inj h
      exact l.formed_choice (owner.paired_enumItems f.typeName) allow
  | record => cases h

/-! ### Fields that refer to a message -/

namespace Context

variable {ctx : Context} {chain : List Place} {m : Located Message} {s : Schema}

theorem formed_cutNode (ctx : Context) (l : Label) :
    (ctx.cutNode l).Formed ctx.options.allowAdditionalProperties := by
  have hnil : ∀ e ∈ (∅ : Entries Schema),
      e.2.Formed ctx.options.allowAdditionalProperties := by
    intro e he
    cases he
  cases l with
  | optional | required => exact Schema.formed_object hnil
  | repeated => exact Schema.formed_objects hnil

/-- A field adds an object or an array around the properties of the message that it opens. -/
theorem formed_ofExpanded (ctx : Context) (l : Label) (ps : Entries Schema)
    (h : (ctx.objectWith ps).Formed ctx.options.allowAdditionalProperties) :
    (l.ofExpanded (ctx.objectWith ps)).Formed ctx.options.allowAdditionalProperties := by
  have hp : ∀ e ∈ ps, e.2.Formed ctx.options.allowAdditionalProperties :=
    fun e he => h.of_property he
  cases l with
  | optional | required => exact Schema.formed_object hp
  | repeated => exact Schema.formed_objects hp

theorem formed_expand (ctx : Context) (chain : List Place) (m : Located Message) :
    ∀ s, (ctx.expand chain m).outcome = .ok s →
      s.Formed ctx.options.allowAdditionalProperties :=
  fun _ => schema_induction (fun _ h => Schema.formed_object h)
    (fun _ f _ _ h => Field.formed_ofLeaf h f.label _) (formed_cutNode ctx)
    (formed_ofExpanded ctx)

/-- Every node of the schema of a message has one of the forms.  So a node has items if and only if
it is an array, and the items are no array; it says whether it admits undeclared properties if and
only if it is an object; and nothing but objects has properties.  The schema itself is an object
that follows the options. -/
theorem form_of_hasNode (hs : (ctx.schemaOf m).outcome = .ok s) :
    (∃ ps, s = { Schema.object (some ctx.options.allowAdditionalProperties) with
      properties := ps }) ∧
    ∀ node, s.HasNode node →
      node.Form ctx.options.allowAdditionalProperties ∧
      (node.items?.isSome ↔ node.kind = .simple .array) ∧
      (node.additionalProperties?.isSome ↔ node.kind = .simple .object) ∧
      (node.properties ≠ ∅ → node.kind = .simple .object) ∧
      ∀ inner, node.items? = some inner → inner.kind ≠ .simple .array := by
  constructor
  · obtain ⟨ps, -, rfl⟩ := outcome_expand_eq_ok_iff.mp hs
    exact ⟨ps, rfl⟩
  · intro node hnode
    have hform := formed_expand ctx [] m s hs node hnode
    exact ⟨hform, hform.isSome_items?_iff, hform.isSome_additionalProperties?_iff,
      hform.kind_of_properties, fun _ hi => hform.kind_of_items hi⟩

/-! ### Paints that are mixed from paints -/

namespace PaintTypes

/-- A paint comes in shades, from cans, and may be mixed from other paints. -/
def paint : Located Message :=
  ⟨[0],
    { name? := some "Paint"
      fields :=
        [{ name? := some "shades", label? := some 3, type? := some 14,
           typeName? := some ".Paint.Shade" },
         { name? := some "mix", label? := some 3, type? := some 11, typeName? := some ".Paint" },
         { name? := some "can", label? := some 2, type? := some 11, typeName? := some "Can" }]
      enums :=
        [{ name? := some "Shade"
           members := [{ name? := some "LIGHT", number? := some 0 },
             { name? := some "DARK", number? := some 1 }] }] }⟩

/-- The shade on the label of a can is an enum of another message. -/
def can : Located Message :=
  ⟨[1],
    { name? := some "Can"
      fields :=
        [{ name? := some "volume", label? := some 2, type? := some 1 },
         { name? := some "label", label? := some 1, type? := some 14,
           typeName? := some ".Paint.Shade" }] }⟩

def context : Context where
  registry := (Registry.empty.insert [] paint).insert [] can
  package := []
  options := ⟨false⟩

/-- The shades, with their values on the array. -/
def shades : Schema :=
  { Schema.array (.ofKind .textOrInteger) with
    enumItems := [.name "LIGHT", .number 0, .name "DARK", .number 1] }

/-- The schema of a paint; the paints of a mix are not expanded again. -/
def schema : Schema :=
  context.objectWith
    [("shades", shades), ("mix", Schema.array (.object (some false))),
      ("can", { Schema.object (some false) with properties :=
        [("volume", Schema.ofType .number), ("label", Schema.ofKind .textOrInteger)] })]

theorem form_of_hasNode_paint :
    (context.schemaOf paint).outcome = .ok schema ∧
      (schema.HasNode shades ∧ shades.Form false ∧
        ∀ inner, shades.items? = some inner → inner.kind ≠ .simple .array) ∧
      (schema.HasNode (.object (some false)) ∧ (Schema.object (some false)).Form false) ∧
      ∃ ps, schema = { Schema.object (some false) with properties := ps } := by
  have hs : (context.schemaOf paint).outcome = .ok schema := by cbv
  obtain ⟨hroot, hnodes⟩ := form_of_hasNode hs
  have hshades : schema.HasNode shades := .property List.mem_cons_self (.self _)
  have hmix : schema.HasNode (.object (some false)) :=
    .property (List.mem_cons_of_mem _ List.mem_cons_self) (.items rfl (.self _))
  obtain ⟨hform, -, -, -, hitems⟩ := hnodes shades hshades
  exact ⟨hs, ⟨hshades, hform, hitems⟩, ⟨hmix, (hnodes _ hmix).1⟩, hroot⟩

end PaintTypes

end Context
end MessageSchema
