import MessageSchema.Proofs.PackageTexts

/-! # Where references are read

`Context.expandIn` expands a message when every reference is looked up in a package of its own,
chosen by the field and the message that declares it.  A conversion is the expansion that looks up
all references in one package, that of the file with the converted message, whichever file
declares the message with the reference; so it agrees with an expansion by any other choice of
packages in which the references that it meets denote the same
(`Job.outcome_documents_eq_expandIn`).

It does not agree with the choice of the package in which the message with the reference is
declared: a relative name may denote one message there and another one where it is inlined
(`Job.UnitTypes.documents_ne_expandIn_packageOf`). -/

namespace MessageSchema

namespace Context

/-- The schema of `m` inside messages at the places of `chain`, where the type name of each field
is looked up in the package that `scope` gives to the field and the message that declares it. -/
def expandIn (ctx : Context) (scope : Located Message → Field → PackagePath) (chain : List Place)
    (m : Located Message) : Conversion Schema := do
  let properties ← fieldSchemas m.item
    (fun f => { ctx with package := scope m f }.fieldSchema (m.place :: chain) m.item f
      fun t _ _ => ctx.expandIn scope (m.place :: chain) t) ∅ m.item.fields
  pure (ctx.objectWith properties)
termination_by ctx.registry.unvisited (m.place :: chain)
decreasing_by exact Registry.unvisited_lt ‹_› ‹_›

variable {ctx : Context} {m : Located Message}

/-- The references of the messages that fields lead to from `m` denote the same in the packages of
`scope` as in that of the context. -/
def ReadsAlike (ctx : Context) (scope : Located Message → Field → PackagePath)
    (m : Located Message) : Prop :=
  ∀ o, ctx.Reaches m o → ∀ f ∈ o.item.fields, f.Refers →
    (ctx.registry.lookup (scope o f) f.typeName).value =
      (ctx.registry.lookup ctx.package f.typeName).value

theorem outcome_expandIn (ctx : Context) (scope : Located Message → Field → PackagePath)
    (chain : List Place) (m : Located Message) :
    (ctx.expandIn scope chain m).outcome =
      ctx.objectWith <$> (fieldSchemas m.item
        (fun f => { ctx with package := scope m f }.fieldSchema (m.place :: chain) m.item f
          fun t _ _ => ctx.expandIn scope (m.place :: chain) t) ∅ m.item.fields).outcome := by
  rw [expandIn]
  exact Conversion.outcome_bind _ _

/-- Packages in which all references denote the same make the same schema. -/
theorem outcome_expandIn_eq_expand (ctx : Context) (scope : Located Message → Field → PackagePath)
    (chain : List Place) (m : Located Message) :
    ctx.ReadsAlike scope m →
      (ctx.expandIn scope chain m).outcome = (ctx.expand chain m).outcome := by
  induction chain, m using ctx.expand_induction with
  | step chain m ih =>
      intro halike
      rw [outcome_expandIn, outcome_expand]
      congr 1
      apply outcome_fieldSchemas_congr
      intro f hf
      rw [fieldIn]
      apply outcome_fieldSchema_congr
      · rfl
      · exact halike m .refl f hf
      · intro t ht hp
        -- what can be reached from `t` can be reached from `m`
        exact ih f t ht hp fun o ho => halike o (.head ⟨f, hf, ht⟩ ho)

/-- An unresolved reference is one of a message that fields lead to, and it denotes nothing in the
package of the context. -/
theorem exists_unresolved {typeName owner : String}
    (h : (ctx.schemaOf m).outcome = .error (.unresolvedReference typeName owner)) :
    ∃ o f, ctx.Reaches m o ∧ f ∈ o.item.fields ∧ f.Refers ∧ f.typeName = typeName ∧
      o.item.name = owner ∧ (ctx.registry.lookup ctx.package typeName).value = none := by
  have hanswer := ctx.answers_schemaOf m
  rw [h] at hanswer
  obtain ⟨route, ⟨hw, _, last, hlast, hfault⟩, _⟩ := hanswer
  obtain ⟨hreach, hfield, _⟩ := hw.exists_from (List.mem_of_getLast? hlast)
  cases hfault with
  | unresolved hr hnone => exact ⟨last.owner, last.field, hreach, hfield, hr, rfl, rfl, hnone⟩

end Context

namespace Job

/-- The package of the file that declares a message, at the top level or inside another message;
the root if no file declares it. -/
def packageOf (job : Job) (o : Located Message) : PackagePath :=
  match job.files.find? fun f => f.messages.any fun m => o ∈ m.family with
  | some f => PackagePath.ofText f.item.package
  | none => []

/-- What a job sees while it converts a file. -/
def contextOf (job : Job) (f : Located File) : Context where
  registry := .ofHistory job.history
  package := PackagePath.ofText f.item.package
  options := job.options

theorem outcome_documents_contextOf (job : Job) {f : Located File} (hf : f ∈ job.files)
    (hm : f.item.messages ≠ []) (hp : ¬ PackagePath.TwoDots f.item.package) :
    ((Registry.ofHistory job.history).documents job.options f).outcome =
      documentsBy (fun m => ((job.contextOf f).schemaOf m).outcome) f.messages := by
  obtain ⟨e, he, hpackage⟩ := exists_registration hf hm
  rw [Registry.outcome_documents_ofHistory he hpackage hm, if_neg hp]
  rfl

/-- The messages of a file are converted with all references looked up in the package of this file,
whichever file declares the message with the reference.  Any other packages in which the references
denote the same make the same documents, such as any at all for a name with a leading dot.  A
reference is reported as unresolved only if it denotes nothing in the package of this file. -/
theorem outcome_documents_eq_expandIn (job : Job) {f : Located File} (hf : f ∈ job.files)
    (hm : f.item.messages ≠ []) (hp : ¬ PackagePath.TwoDots f.item.package) :
    ((Registry.ofHistory job.history).documents job.options f).outcome =
        documentsBy (fun m => ((job.contextOf f).expandIn
          (fun _ _ => PackagePath.ofText f.item.package) [] m).outcome) f.messages ∧
    (∀ scope : Located Message → Field → PackagePath,
      (∀ m ∈ f.messages, ∀ o, (job.contextOf f).Reaches m o → ∀ g ∈ o.item.fields, g.Refers →
        ((Registry.ofHistory job.history).lookup (scope o g) g.typeName).value =
          ((Registry.ofHistory job.history).lookup
            (PackagePath.ofText f.item.package) g.typeName).value) →
      ((Registry.ofHistory job.history).documents job.options f).outcome =
        documentsBy (fun m => ((job.contextOf f).expandIn scope [] m).outcome) f.messages) ∧
    (∀ (path : PackagePath) (name : String),
      Text.startsWith '.' name = true ∨ path = PackagePath.ofText f.item.package →
        ((Registry.ofHistory job.history).lookup path name).value =
          ((Registry.ofHistory job.history).lookup
            (PackagePath.ofText f.item.package) name).value) ∧
    ∀ typeName owner,
      ((Registry.ofHistory job.history).documents job.options f).outcome =
          .error (.unresolvedReference typeName owner) →
        ∃ m ∈ f.messages, ∃ o g, (job.contextOf f).Reaches m o ∧ g ∈ o.item.fields ∧ g.Refers ∧
          g.typeName = typeName ∧ o.item.name = owner ∧
          ((Registry.ofHistory job.history).lookup
            (PackagePath.ofText f.item.package) typeName).value = none := by
  have houtcome := job.outcome_documents_contextOf hf hm hp
  have halike : ∀ scope : Located Message → Field → PackagePath,
      (∀ m ∈ f.messages, (job.contextOf f).ReadsAlike scope m) →
        ((Registry.ofHistory job.history).documents job.options f).outcome =
          documentsBy (fun m => ((job.contextOf f).expandIn scope [] m).outcome) f.messages := by
    intro scope h
    rw [houtcome]
    apply documentsBy_congr
    intro m hm'
    exact ((job.contextOf f).outcome_expandIn_eq_expand scope [] m (h m hm')).symm
  refine ⟨halike _ ?_, halike, ?_, ?_⟩
  · intro m _ o _ g _ _
    rfl
  · rintro path name (h | rfl)
    · rw [Registry.lookup_of_startsWith _ _ h, Registry.lookup_of_startsWith _ _ h]
    · rfl
  · intro typeName owner h
    rw [houtcome] at h
    obtain ⟨m, hm', hs⟩ := exists_error_of_documentsBy h
    exact ⟨m, hm', Context.exists_unresolved hs⟩

/-! ### A relative name that denotes two messages -/

namespace UnitTypes

/-- The item of an order, in another package. -/
def item : Field := { name? := some "item", type? := some 11, typeName? := some ".stock.Item" }

/-- The unit of an item, by a relative name. -/
def unit : Field := { name? := some "unit", type? := some 11, typeName? := some "Unit" }

/-- A message of one number. -/
def unitType (field : String) : Message :=
  { name? := some "Unit", fields := [{ name? := some field, type? := some 5 }] }

def orderType : Located Message := ⟨[0, 0], { name? := some "Order", fields := [item] }⟩

def itemType : Located Message := ⟨[1, 0], { name? := some "Item", fields := [unit] }⟩

def orders : Located File :=
  ⟨[0], { name? := some "order.proto", package? := some "shop"
          messages := [orderType.item, unitType "price"] }⟩

def items : Located File :=
  ⟨[1], { name? := some "item.proto", package? := some "stock"
          messages := [itemType.item, unitType "weight"] }⟩

def job : Job := .ofFiles [orders.item, items.item] ["order.proto"] {}

/-- An object with one property that need not be there. -/
def objectOf (name : String) (s : Schema) : Schema :=
  { Schema.object (some true) with properties := [(name, s)] }

/-- The schema of an order whose unit has that field. -/
def orderSchema (field : String) : Schema :=
  objectOf "item" (objectOf "unit" (objectOf field (.ofType .integer)))

theorem outcome_schemaOf_orderType :
    ((job.contextOf orders).schemaOf orderType).outcome = .ok (orderSchema "price") := by
  cbv

theorem outcome_documents_orders :
    ((Registry.ofHistory job.history).documents job.options orders).outcome =
      .ok [.ofSchema "Order" (orderSchema "price"),
        .ofSchema "Unit" (objectOf "price" (.ofType .integer))] := by
  have hunit : ((job.contextOf orders).schemaOf ⟨[0, 1], unitType "price"⟩).outcome =
      .ok (objectOf "price" (.ofType .integer)) := by
    cbv
  have hf : orders ∈ job.files := List.mem_cons_self
  rw [outcome_documents_contextOf job hf (List.cons_ne_nil _ _) (by decide),
    show orders.messages = [orderType, ⟨[0, 1], unitType "price"⟩] from rfl, documentsBy_cons,
    documentsBy_cons, outcome_schemaOf_orderType, hunit]
  rfl

/-- The unit of an item is a message of the package of the item, but the document of an order holds
the message of that name in the package of the order. -/
theorem documents_ne_expandIn_packageOf :
    (∀ f ∈ job.files, ¬ PackagePath.TwoDots f.item.package) ∧
      (job.history.map fun e => (PackagePath.ofText e.package, e.message.item.name)).Nodup ∧
      job.run.value.documents = [.ofSchema "Order" (orderSchema "price"),
        .ofSchema "Unit" (objectOf "price" (.ofType .integer))] ∧
      (job.contextOf orders).Resolves item itemType ∧ job.packageOf itemType = ["stock"] ∧
      ((Registry.ofHistory job.history).lookup ["stock"] unit.typeName).value =
        some ⟨[1, 1], unitType "weight"⟩ ∧
      ((job.contextOf orders).schemaOf orderType).outcome = .ok (orderSchema "price") ∧
      ((job.contextOf orders).expandIn (fun o _ => job.packageOf o) [] orderType).outcome =
        .ok (orderSchema "weight") ∧
      orderSchema "price" ≠ orderSchema "weight" := by
  refine ⟨by decide, by decide, ?_, ⟨⟨11, rfl, .inr rfl⟩, by decide⟩, by decide, by decide,
    outcome_schemaOf_orderType, by cbv, by decide⟩
  rw [value_run, show job.requested = [orders] from rfl, value_documents_cons,
    outcome_documents_orders]
  rfl

/-- The documents of orders are those with all references looked up in the package of orders. -/
theorem documents_orders_eq_expandIn :
    orders ∈ job.files ∧ orders.item.messages ≠ [] ∧
      ¬ PackagePath.TwoDots orders.item.package ∧
      ((Registry.ofHistory job.history).documents job.options orders).outcome =
        documentsBy (fun m => ((job.contextOf orders).expandIn
          (fun _ _ => PackagePath.ofText "shop") [] m).outcome) orders.messages := by
  have hf : orders ∈ job.files := List.mem_cons_self
  have hm : orders.item.messages ≠ [] := List.cons_ne_nil _ _
  have hp : ¬ PackagePath.TwoDots orders.item.package := by decide
  exact ⟨hf, hm, hp, (outcome_documents_eq_expandIn job hf hm hp).1⟩

end UnitTypes

end Job

end MessageSchema
