import MessageSchema.Proofs.Readings
import MessageSchema.Proofs.Unfolding

/-! # Conversions that read references alike

Two conversions proceed in step when the messages that they meet can be paired: paired messages have
the same contents, the pairing keeps different messages apart, and the references of paired messages
lead to paired messages or nowhere in both (`Context.Simulates`).  The registries, the packages and
the places of the messages may then be others, and so may the options: the schemas are the same up
to the flags that follow the options, which are those of the outermost object and of the objects
that are items of an array (`Schema.switch`).

Main statements: paired messages have the same outcome up to these flags
(`Context.Simulates.outcome_expand`), and a conversion depends on the registry and the package
through nothing but the references of the messages that it can reach
(`Context.schemaOf_depends_on_references`). -/

namespace MessageSchema

/-! ### The flags that follow the options -/

namespace Schema

/-- The node, saying that it admits undeclared properties or that it does not. -/
def admitting (allow : Bool) (s : Schema) : Schema := { s with additionalProperties? := some allow }

mutual

/-- The schema with all objects in it that are the items of an array admitting undeclared
properties, or none of them. -/
def switchItems (allow : Bool) : Schema → Schema
  | ⟨kind, items?, ⟨rows⟩, additional?, enumItems⟩ =>
      ⟨kind, switchItems? allow items?, ⟨switchRows allow rows⟩, additional?, enumItems⟩

/-- The same for the items of an array, which count themselves if they are objects. -/
def switchItems? (allow : Bool) : Option Schema → Option Schema
  | none => none
  | some s =>
      some (if s.kind.isObject then (s.switchItems allow).admitting allow else s.switchItems allow)

/-- The same for the properties of an object. -/
def switchRows (allow : Bool) : {names : List String} → Rows Schema names → Rows Schema names
  | _, .nil => .nil
  | _, .cons name s rest hnew => .cons name (s.switchItems allow) (switchRows allow rest) hnew

end

/-- The schema with itself and all objects in it that are the items of an array admitting
undeclared properties, or none of them. -/
def switch (allow : Bool) (s : Schema) : Schema := (s.switchItems allow).admitting allow

theorem switchRows_eq (allow : Bool) {names : List String} (rows : Rows Schema names) :
    switchRows allow rows = rows.map (switchItems allow) := by
  induction rows with
  | nil => rfl
  | cons name s rest hnew ih => rw [switchRows, ih, Rows.map]

theorem properties_switch (allow : Bool) (s : Schema) :
    (s.switch allow).properties = Entries.mapValues (switchItems allow) s.properties := by
  obtain ⟨kind, items?, ⟨rows⟩, additional?, enumItems⟩ := s
  exact congrArg (Entries.mk ·) (switchRows_eq allow rows)

theorem switchItems_array (allow : Bool) {s : Schema} (h : s.kind = .simple .object) :
    (array s).switchItems allow = array (s.switch allow) := by
  have hitems : switchItems? allow (some s) = some (s.switch allow) := by
    simp [switchItems?, switch, h, Kind.isObject]
  show ({ ofType .array with items? := switchItems? allow (some s) } : Schema) = _
  rw [hitems, array]

theorem switchItems_object (allow : Bool) (additional? : Option Bool) (ps : Entries Schema) :
    ({ object additional? with properties := ps } : Schema).switchItems allow =
      { object additional? with properties := Entries.mapValues (switchItems allow) ps } := by
  rw [Entries.mapValues, ← switchRows_eq]
  rfl

end Schema

/-- No flag of a node without messages follows the options. -/
theorem Field.switchItems_ofLeaf {owner : Message} {f : Field} {type : FieldType} {s : Schema}
    (h : f.leaf? owner type = some s) (l : Label) (allow : Bool) :
    (l.ofLeaf s).switchItems allow = l.ofLeaf s := by
  cases type <;> cases h <;> cases l <;> rfl

theorem Label.switchItems_ofExpanded (l : Label) {s : Schema} (h : s.kind = .simple .object)
    (allow : Bool) : (l.ofExpanded s).switchItems allow = l.ofExpanded (s.switch allow) := by
  cases l with
  | optional | required =>
      rw [ofExpanded, ofExpanded, Schema.switchItems_object, Schema.properties_switch]
  | repeated => exact Schema.switchItems_array allow h

/-! ### Conversions in step -/

namespace Context

section switch
variable (ctx ctx' : Context)

theorem switchItems_cutNode (l : Label) :
    (ctx.cutNode l).switchItems ctx'.options.allowAdditionalProperties = ctx'.cutNode l := by
  cases l <;> rfl

theorem switch_objectWith (ps : Entries Schema) :
    (ctx.objectWith ps).switch ctx'.options.allowAdditionalProperties =
      ctx'.objectWith
        (Entries.mapValues (Schema.switchItems ctx'.options.allowAdditionalProperties) ps) := by
  rw [objectWith, Schema.switch, Schema.switchItems_object]
  rfl

/-- What is done to the outcome for each field is done to the properties. -/
theorem outcome_fieldSchemas_map {owner : Message} {convert convert' : Field → Conversion Schema}
    {fields : List Field} {g : Schema → Schema} (ps : Entries Schema)
    (h : ∀ f ∈ fields, (convert' f).outcome = g <$> (convert f).outcome) :
    (fieldSchemas owner convert' (Entries.mapValues g ps) fields).outcome =
      Entries.mapValues g <$> (fieldSchemas owner convert ps fields).outcome := by
  induction fields generalizing ps with
  | nil => rfl
  | cons f rest ih =>
      rw [outcome_fieldSchemas_cons, outcome_fieldSchemas_cons, h f List.mem_cons_self]
      cases (convert f).outcome with
      | error e => rfl
      | ok s =>
          show (fieldSchemas owner convert' (Entries.insert f.name (g s) (Entries.mapValues g ps))
            rest).outcome = _
          rw [Entries.insert_mapValues]
          exact ih _ fun f' hf' => h f' (List.mem_cons_of_mem _ hf')

end switch

/-- Messages of two conversions are paired so that paired messages have the same contents, different
messages are paired with different ones, and the references of paired messages lead to paired
messages or nowhere in both. -/
structure Simulates (ctx ctx' : Context) (pairs : Located Message → Located Message → Prop) :
    Prop where
  item : ∀ {d d'}, pairs d d' → d'.item = d.item
  place : ∀ {d d' e e'}, pairs d d' → pairs e e' → (d'.place = e'.place ↔ d.place = e.place)
  lookup : ∀ {d d'}, pairs d d' → ∀ f ∈ d.item.fields, f.Refers →
    Option.Rel pairs (ctx.registry.lookup ctx.package f.typeName).value
      (ctx'.registry.lookup ctx'.package f.typeName).value

/-- The places of two chains agree on paired messages. -/
def SameChain (pairs : Located Message → Located Message → Prop) (chain chain' : List Place) :
    Prop :=
  ∀ t t', pairs t t' → (t'.place ∈ chain' ↔ t.place ∈ chain)

/-- The options make no difference to the references that are followed. -/
theorem simulates_options (r : Registry) (package : PackagePath) (o o' : Options) :
    Simulates ⟨r, package, o⟩ ⟨r, package, o'⟩ fun d d' => d' = d where
  item h := congrArg Located.item h
  place hd he := by rw [hd, he]
  lookup := by
    intro d d' _ f _ _
    cases (r.lookup package f.typeName).value with
    | none => exact .none
    | some t => exact .some rfl

namespace Simulates

variable {ctx ctx' : Context} {pairs : Located Message → Located Message → Prop}
variable {chain chain' : List Place} {m m' t : Located Message} {f : Field}

theorem sameChain_cons (h : Simulates ctx ctx' pairs) (hm : pairs m m')
    (hc : SameChain pairs chain chain') :
    SameChain pairs (m.place :: chain) (m'.place :: chain') := by
  intro t t' ht
  rw [List.mem_cons, List.mem_cons, h.place ht hm, hc t t' ht]

theorem exists_resolves (h : Simulates ctx ctx' pairs) (hm : pairs m m') (hf : f ∈ m.item.fields)
    (ht : ctx.Resolves f t) : ∃ t', pairs t t' ∧ ctx'.Resolves f t' := by
  have hl := h.lookup hm f hf ht.1
  rw [ht.2] at hl
  cases ht' : (ctx'.registry.lookup ctx'.package f.typeName).value with
  | none =>
      rw [ht'] at hl
      cases hl
  | some t' =>
      rw [ht'] at hl
      cases hl with
      | some hp => exact ⟨t', hp, ht.1, ht'⟩

theorem fault (h : Simulates ctx ctx' pairs) (hm : pairs m m') (hc : SameChain pairs chain chain')
    (hf : f ∈ m.item.fields) {e : ConversionError} (hfault : ctx.Fault chain m.item f e) :
    ctx'.Fault chain' m.item f e := by
  cases hfault with
  | unrecognized hk => exact .unrecognized hk
  | unresolved hr hnone =>
      have hl := h.lookup hm f hf hr
      rw [hnone] at hl
      cases hnone' : (ctx'.registry.lookup ctx'.package f.typeName).value with
      | none => exact .unresolved hr hnone'
      | some t' =>
          rw [hnone'] at hl
          cases hl
  | @recursive t ht hl hp =>
      obtain ⟨t', htt', ht'⟩ := h.exists_resolves hm hf ht
      exact .recursive ht' hl ((hc t t' htt').mpr hp)

/-- The schemas of a field of paired messages are the same up to the flags that follow the options,
if those of the messages that the field opens are. -/
theorem outcome_fieldIn (h : Simulates ctx ctx' pairs) (hm : pairs m m')
    (hc : SameChain pairs chain chain') (hf : f ∈ m.item.fields)
    (hopen : ∀ t t', pairs t t' → ctx.Resolves f t → t.place ∉ m.place :: chain →
      (ctx'.expand (m'.place :: chain') t').outcome =
        Schema.switch ctx'.options.allowAdditionalProperties <$>
          (ctx.expand (m.place :: chain) t).outcome) :
    (ctx'.fieldIn chain' m' f).outcome =
      Schema.switchItems ctx'.options.allowAdditionalProperties <$>
        (ctx.fieldIn chain m f).outcome := by
  have hc' := h.sameChain_cons hm hc
  rw [fieldIn, fieldIn, h.item hm]
  cases ctx.course (m.place :: chain) m.item f with
  | fault e he =>
      rw [outcome_fieldSchema_of_fault he, outcome_fieldSchema_of_fault (h.fault hm hc' hf he)]
      rfl
  | leaf type s ht hs =>
      rw [outcome_fieldSchema_of_leaf ht hs, outcome_fieldSchema_of_leaf ht hs]
      exact congrArg Except.ok (Field.switchItems_ofLeaf hs f.label _).symm
  | cut t ht hp hl =>
      obtain ⟨t', htt', ht'⟩ := h.exists_resolves hm hf ht
      rw [outcome_fieldSchema_of_cut ht hp hl,
        outcome_fieldSchema_of_cut ht' ((hc' t t' htt').mpr hp) hl]
      exact congrArg Except.ok (switchItems_cutNode ctx ctx' f.label).symm
  | opens t ht hp =>
      obtain ⟨t', htt', ht'⟩ := h.exists_resolves hm hf ht
      rw [outcome_fieldSchema_of_opens ht hp,
        outcome_fieldSchema_of_opens ht' (fun hp' => hp ((hc' t t' htt').mp hp')),
        hopen t t' htt' ht hp]
      cases hs : (ctx.expand (m.place :: chain) t).outcome with
      | error e => rfl
      | ok s =>
          exact congrArg Except.ok (f.label.switchItems_ofExpanded (kind_of_expand hs) _).symm

/-- Paired messages inside chains that agree have the same outcome up to the flags that follow the
options. -/
theorem outcome_expand (h : Simulates ctx ctx' pairs) (hm : pairs m m')
    (hc : SameChain pairs chain chain') :
    (ctx'.expand chain' m').outcome =
      Schema.switch ctx'.options.allowAdditionalProperties <$> (ctx.expand chain m).outcome := by
  induction chain, m using ctx.expand_induction generalizing chain' m' with
  | step chain m ih =>
      have hfields : (fieldSchemas m.item (ctx'.fieldIn chain' m') ∅ m.item.fields).outcome =
          Entries.mapValues (Schema.switchItems ctx'.options.allowAdditionalProperties) <$>
            (fieldSchemas m.item (ctx.fieldIn chain m) ∅ m.item.fields).outcome := by
        apply outcome_fieldSchemas_map ∅
        intro f hf
        apply h.outcome_fieldIn hm hc hf
        intro t t' htt' ht hp
        exact ih f t ht hp htt' (h.sameChain_cons hm hc)
      rw [Context.outcome_expand, Context.outcome_expand, h.item hm, hfields]
      cases (fieldSchemas m.item (ctx.fieldIn chain m) ∅ m.item.fields).outcome with
      | error e => rfl
      | ok ps => exact congrArg Except.ok (switch_objectWith ctx ctx' ps).symm

/-- With the same options the outcome is the same. -/
theorem outcome_expand_eq (h : Simulates ctx ctx' pairs) (hm : pairs m m')
    (hc : SameChain pairs chain chain') (ho : ctx'.options = ctx.options) :
    (ctx'.expand chain' m').outcome = (ctx.expand chain m).outcome := by
  have hself : (ctx.expand chain m).outcome = _ :=
    (simulates_options ctx.registry ctx.package ctx.options ctx.options).outcome_expand rfl
      fun t t' ht => by rw [ht]
  rw [h.outcome_expand hm hc, ho]
  exact hself.symm

end Simulates

/-! ### What a conversion depends on -/

/-- The references of the messages that fields lead to from `m` denote the same in two contexts. -/
def SameReferences (ctx ctx' : Context) (m : Located Message) : Prop :=
  ∀ d, ctx.Reaches m d → ∀ f ∈ d.item.fields, f.Refers →
    (ctx'.registry.lookup ctx'.package f.typeName).value =
      (ctx.registry.lookup ctx.package f.typeName).value

variable {ctx ctx' : Context} {m : Located Message}

/-- Every message that can be reached is paired with itself. -/
theorem SameReferences.simulates (h : ctx.SameReferences ctx' m) :
    ctx.Simulates ctx' fun d d' => d' = d ∧ ctx.Reaches m d where
  item hd := congrArg Located.item hd.1
  place hd he := by rw [hd.1, he.1]
  lookup := by
    rintro d d' ⟨rfl, hd⟩ f hf hr
    rw [h d' hd f hf hr]
    cases ht : (ctx.registry.lookup ctx.package f.typeName).value with
    | none => exact .none
    | some t => exact .some ⟨rfl, hd.tail ⟨f, hf, hr, ht⟩⟩

theorem SameReferences.outcome_schemaOf (h : ctx.SameReferences ctx' m)
    (ho : ctx'.options = ctx.options) : (ctx'.schemaOf m).outcome = (ctx.schemaOf m).outcome := by
  apply h.simulates.outcome_expand_eq ⟨rfl, .refl⟩ _ ho
  intro t t' ht
  rw [ht.1]

/-- A conversion depends on the registry and the package only through the references that it can
reach: where these denote the same, the outcome is the same.  So the package plays no part if all
of them begin with a dot, and further registrations play none if they change none of them. -/
theorem schemaOf_depends_on_references (ctx : Context) (m : Located Message) :
    (∀ ctx' : Context, ctx'.options = ctx.options → ctx.SameReferences ctx' m →
      (ctx'.schemaOf m).outcome = (ctx.schemaOf m).outcome) ∧
    ((∀ d, ctx.Reaches m d → ∀ f ∈ d.item.fields, f.Refers →
        Text.startsWith '.' f.typeName = true) →
      ∀ package, (({ ctx with package } : Context).schemaOf m).outcome =
        (ctx.schemaOf m).outcome) ∧
    ∀ more : History,
      ctx.SameReferences { ctx with registry := (ctx.registry.registerEach more).value } m →
        (({ ctx with registry := (ctx.registry.registerEach more).value } : Context).schemaOf
          m).outcome = (ctx.schemaOf m).outcome := by
  refine ⟨fun ctx' ho h => h.outcome_schemaOf ho, ?_, fun more h => h.outcome_schemaOf rfl⟩
  intro hdot package
  have hsame : ctx.SameReferences { ctx with package } m := by
    intro d hd f hf hr
    have hs := hdot d hd f hf hr
    rw [Registry.lookup_of_startsWith _ _ hs, Registry.lookup_of_startsWith _ _ hs]
  exact hsame.outcome_schemaOf rfl

/-! ### A reference with a leading dot -/

namespace ChapterTypes

/-- The parts of a chapter are chapters. -/
def parts : Field :=
  { name? := some "parts", label? := some 3, type? := some 11, typeName? := some ".Chapter" }

def chapter : Located Message := ⟨[0], { name? := some "Chapter", fields := [parts] }⟩

def context : Context where
  registry := Registry.empty.insert [] chapter
  package := []
  options := {}

/-- Another message of the name, in a package of its own. -/
def other : Located Message := ⟨[1], { name? := some "Chapter" }⟩

/-- A package where the name without the dot denotes the other message. -/
def context' : Context where
  registry := (Registry.empty.insert ["law"] other).insert [] chapter
  package := ["law"]
  options := {}

theorem eq_of_reaches {d : Located Message} (h : context.Reaches chapter d) : d = chapter := by
  have hmem := List.mem_cons.mpr h.eq_or_mem_declared
  have hdeclared : context.registry.declared = [chapter] := by decide
  simpa [hdeclared] using hmem

/-- A chapter has the same schema in each of the packages and registries. -/
theorem schemaOf_chapter :
    context.SameReferences context' chapter ∧
      (context'.schemaOf chapter).outcome = (context.schemaOf chapter).outcome ∧
      (({ context with package := ["law"] } : Context).schemaOf chapter).outcome =
        (context.schemaOf chapter).outcome ∧
      (({ context with
          registry := (context.registry.registerEach [⟨"law", other⟩]).value } : Context).schemaOf
        chapter).outcome = (context.schemaOf chapter).outcome := by
  have hfields : ∀ d, context.Reaches chapter d → ∀ f ∈ d.item.fields, f = parts := by
    intro d hd f hf
    obtain rfl := eq_of_reaches hd
    exact List.mem_singleton.mp hf
  have hsame : ∀ ctx' : Context,
      (ctx'.registry.lookup ctx'.package ".Chapter").value = some chapter →
        context.SameReferences ctx' chapter := by
    intro ctx' h d hd f hf _
    obtain rfl := hfields d hd f hf
    exact h.trans (by decide)
  obtain ⟨hcontext, hpackage, hmore⟩ := schemaOf_depends_on_references context chapter
  refine ⟨hsame _ (by decide), hcontext context' rfl (hsame _ (by decide)), ?_, ?_⟩
  · apply hpackage
    intro d hd f hf _
    obtain rfl := hfields d hd f hf
    decide
  · exact hmore _ (hsame _ (by decide))

end ChapterTypes

end Context
end MessageSchema
