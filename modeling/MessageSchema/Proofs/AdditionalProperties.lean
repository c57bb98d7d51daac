import MessageSchema.Proofs.Simulation

/-! # Which objects admit undeclared properties

The options reach the flag of an object only where the object stands for a message as such: at the
top, and as the items of an array.  The object of a field that is not repeated takes over the
properties of the message but not its flag; there the flag says whether the field is optional.

Main statement: two conversions that differ in the options alone fail with the same error or make
schemas that differ in these flags alone, and every other node has the flag of its field, which is
the last field of its name (`Context.additionalProperties_schemaOf`). -/

namespace MessageSchema

/-- The last field of that name. -/
def Message.lastField? (m : Message) (name : String) : Option Field :=
  m.fields.reverse.find? (·.name = name)

/-- Each field is the last one of its name in the message that declares it. -/
def Route.TakesLast (route : Route) : Prop :=
  ∀ step ∈ route, step.owner.item.lastField? step.field.name = some step.field

instance : DecidablePred Route.TakesLast :=
  fun route => inferInstanceAs
    (Decidable (∀ step ∈ route, step.owner.item.lastField? step.field.name = some step.field))

namespace Schema

/-- The node is no object, nothing in it is, and it has no flag. -/
def NoObject (s : Schema) : Prop :=
  s.kind ≠ .simple .object ∧ s.additionalProperties? = none ∧ s.properties = ∅ ∧
    ∀ items, s.items? = some items →
      items = .ofKind items.kind ∧ items.kind ≠ .simple .object

/-- The flags of a node that stands for the field `f`: those of its objects follow the label of the
field, and `allow` in the items of an array. -/
inductive Flagged (allow : Bool) (f : Field) : Schema → Prop where
  | optional (ps : Entries Schema) (hr : f.Refers) (hl : f.label = .optional) :
      Flagged allow f { object (some true) with properties := ps }
  | required (ps : Entries Schema) (hr : f.Refers) (hl : f.label = .required) :
      Flagged allow f { object (some false) with properties := ps }
  | repeated (ps : Entries Schema) (hr : f.Refers) (hl : f.label = .repeated) :
      Flagged allow f (array { object (some allow) with properties := ps })
  | leaf {node : Schema} (hr : ¬ f.Refers) (hn : node.NoObject) : Flagged allow f node

end Schema

/-! ### The flags of one node -/

theorem Field.noObject_ofLeaf {owner : Message} {f : Field} {type : FieldType} {s : Schema}
    (h : f.leaf? owner type = some s) (l : Label) : (l.ofLeaf s).NoObject := by
  cases type <;> cases h <;> cases l <;>
    simp [Schema.NoObject, Label.ofLeaf, Schema.repeated, Schema.array, Schema.ofType,
      Schema.ofKind, Kind.textOrInteger]

namespace Context

variable {ctx : Context} {chain : List Place} {m t : Located Message} {f : Field} {s node : Schema}

theorem flagged_cutNode (hr : f.Refers) (hl : f.label ≠ .required) :
    (ctx.cutNode f.label).Flagged ctx.options.allowAdditionalProperties f := by
  cases h : f.label with
  | optional => exact .optional ∅ hr h
  | required => exact absurd h hl
  | repeated => exact .repeated ∅ hr h

theorem flagged_ofExpanded (hr : f.Refers) (hs : (ctx.expand chain t).outcome = .ok s) :
    (f.label.ofExpanded s).Flagged ctx.options.allowAdditionalProperties f := by
  obtain ⟨ps, -, rfl⟩ := outcome_expand_eq_ok_iff.mp hs
  cases h : f.label with
  | optional => exact .optional ps hr h
  | required => exact .required ps hr h
  | repeated => exact .repeated ps hr h

theorem flagged_fieldIn (hn : (ctx.fieldIn chain m f).outcome = .ok node) :
    node.Flagged ctx.options.allowAdditionalProperties f := by
  cases made_of_outcome_fieldIn hn with
  | leaf type s ht hs =>
      exact .leaf (Field.not_refers_of_leaf? ht hs) (Field.noObject_ofLeaf hs f.label)
  | cut t ht hp hl => exact flagged_cutNode ht.1 hl
  | opens t s ht hp hs => exact flagged_ofExpanded ht.1 hs

/-! ### The flags at the end of a path -/

/-- A path that leads to a node is read off a walk that takes the last field of each name, and the
node has the flags of the field at which the walk ends. -/
theorem exists_flagged_walk {names : List String} (hne : names ≠ [])
    (hs : (ctx.expand chain m).outcome = .ok s) (hnode : s.node? names = some node) :
    node.entered.properties.keys.Nodup ∧
      ∃ route last, ctx.Walk m route ∧ route.TakesLast ∧ route.names = names ∧
        route.getLast? = some last ∧
        node.Flagged ctx.options.allowAdditionalProperties last.field := by
  induction names generalizing chain m s with
  | nil => exact absurd rfl hne
  | cons name rest ih =>
      obtain ⟨first, hget, hrest⟩ := Option.bind_eq_some_iff.mp hnode
      obtain ⟨ps, hps, rfl⟩ := outcome_expand_eq_ok_iff.mp hs
      obtain ⟨f, hlast, hfirst⟩ := (get?_of_outcome_fieldSchemas_last hps).mp hget
      have hf := List.mem_reverse.mp (List.mem_of_find?_eq_some hlast)
      obtain rfl : f.name = name := by simpa using List.find?_some hlast
      obtain ⟨i, hi⟩ := List.getElem?_of_mem hf
      cases rest with
      | nil =>
          obtain rfl := Option.some.inj hrest
          refine ⟨Entries.nodup_keys _, [⟨m, i, f⟩], ⟨m, i, f⟩, .last hi, ?_, rfl, rfl,
            flagged_fieldIn hfirst⟩
          intro step hstep
          obtain rfl := List.mem_singleton.mp hstep
          exact hlast
      | cons next rest =>
          obtain ⟨t, ht, hp⟩ := exists_opens_of_node? hfirst hrest
          obtain ⟨s', hs', hbelow⟩ := exists_expand_of_opens ht hp hfirst
          have hnames : next :: rest ≠ [] := List.cons_ne_nil _ _
          rw [hbelow _ hnames] at hrest
          obtain ⟨hnodup, route, last, hw, htakes, hroute, hend, hflags⟩ := ih hnames hs' hrest
          refine ⟨hnodup, ⟨m, i, f⟩ :: route, last, .step hi ht hw, ?_, ?_, ?_, hflags⟩
          · intro step hstep
            rcases List.mem_cons.mp hstep with rfl | hstep
            · exact hlast
            · exact htakes step hstep
          · show f.name :: route.names = _
            rw [hroute]
          · rw [List.getLast?_cons_of_ne_nil hw.ne_nil]
            exact hend

/-! ### Two conversions that differ in the options -/

theorem outcome_schemaOf_options (r : Registry) (package : PackagePath) (m : Located Message)
    (o o' : Options) :
    ((Context.mk r package o').schemaOf m).outcome =
      Schema.switch o'.allowAdditionalProperties <$>
        ((Context.mk r package o).schemaOf m).outcome :=
  (simulates_options r package o o').outcome_expand rfl fun t t' ht => by rw [ht]

/-- Conversions that differ in the options alone fail with the same error or make the same schema up
to the flags of the outermost object and of the objects that are items of an array, which are those
of the options.  Every node below the top stands for the last field of its name and has the flags of
this field; the properties of a node have different names, so paths of names lead to all nodes. -/
theorem additionalProperties_schemaOf (r : Registry) (package : PackagePath)
    (m : Located Message) :
    (∃ e, ∀ allow, ((Context.mk r package ⟨allow⟩).schemaOf m).outcome = .error e) ∨
    ∃ s : Schema, s.kind = .simple .object ∧
      (∀ allow, ((Context.mk r package ⟨allow⟩).schemaOf m).outcome = .ok (s.switch allow)) ∧
      s.properties.keys.Nodup ∧
      ∀ allow name rest node, (s.switch allow).node? (name :: rest) = some node →
        node.entered.properties.keys.Nodup ∧
        ∃ route last, (Context.mk r package ⟨allow⟩).Walk m route ∧ route.TakesLast ∧
          route.names = name :: rest ∧ route.getLast? = some last ∧
          node.Flagged allow last.field := by
  have hoptions := fun allow => outcome_schemaOf_options r package m ⟨true⟩ ⟨allow⟩
  cases hs : ((Context.mk r package ⟨true⟩).schemaOf m).outcome with
  | error e =>
      left
      refine ⟨e, fun allow => ?_⟩
      rw [hoptions, hs]
      rfl
  | ok s =>
      right
      have hok : ∀ allow,
          ((Context.mk r package ⟨allow⟩).schemaOf m).outcome = .ok (s.switch allow) := by
        intro allow
        rw [hoptions, hs]
        rfl
      refine ⟨s, kind_of_expand hs, hok, s.properties.nodup_keys, ?_⟩
      intro allow name rest node hnode
      exact exists_flagged_walk (List.cons_ne_nil _ _) (hok allow) hnode

/-! ### Repeated and single trees -/

namespace ForestTypes

/-- A field of that label that refers to trees. -/
def treeField (name : String) (label : Int32) : Field :=
  { name? := some name, label? := some label, type? := some 11, typeName? := some ".Tree" }

/-- The parent of a tree is optional, and its children are repeated. -/
def tree : Located Message :=
  ⟨[0], { name? := some "Tree", fields := [treeField "parent" 1, treeField "children" 3] }⟩

/-- A forest has one main tree and any number of others. -/
def forest : Located Message :=
  ⟨[1], { name? := some "Forest", fields := [treeField "main" 2, treeField "others" 3] }⟩

def registry : Registry := (Registry.empty.insert [] tree).insert [] forest

/-- The properties of a tree; no tree in it is expanded again. -/
def treeProperties (allow : Bool) : Entries Schema :=
  [("parent", Schema.object (some true)), ("children", Schema.array (.object (some allow)))]

/-- Of the objects in the schema of a forest, the main tree and the parents of trees do not follow
the options. -/
def schema (allow : Bool) : Schema :=
  { Schema.object (some allow) with properties :=
      [("main", { Schema.object (some false) with properties := treeProperties allow }),
        ("others", Schema.array
          { Schema.object (some allow) with properties := treeProperties allow })] }

theorem additionalProperties_forest :
    ∃ s : Schema,
      (∀ allow, ((Context.mk registry [] ⟨allow⟩).schemaOf forest).outcome =
        .ok (s.switch allow)) ∧
      s.switch true = schema true ∧ s.switch false = schema false ∧
      ∃ route last, (Context.mk registry [] ⟨false⟩).Walk forest route ∧
        route.names = ["main", "children"] ∧ route.getLast? = some last ∧
        (Schema.array (.object (some false))).Flagged false last.field := by
  have htrue : ((Context.mk registry [] ⟨true⟩).schemaOf forest).outcome = .ok (schema true) := by
    cbv
  have hfalse : ((Context.mk registry [] ⟨false⟩).schemaOf forest).outcome =
      .ok (schema false) := by
    cbv
  rcases additionalProperties_schemaOf registry [] forest with ⟨e, he⟩ | ⟨s, -, hok, -, hnodes⟩
  · have := (he true).symm.trans htrue
    cases this
  · have hs : s.switch false = schema false := Except.ok.inj ((hok false).symm.trans hfalse)
    have hnode : (s.switch false).node? ["main", "children"] =
        some (.array (.object (some false))) := by
      rw [hs]
      rfl
    obtain ⟨-, route, last, hw, -, hnames, hlast, hflags⟩ := hnodes false _ _ _ hnode
    exact ⟨s, hok, Except.ok.inj ((hok true).symm.trans htrue), hs, route, last, hw, hnames, hlast,
      hflags⟩

end ForestTypes

end Context
end MessageSchema
