import MessageSchema.Proofs.TypeGraph
import Mathlib.Data.List.Nodup

/-! # The expansion, field by field

A field takes one of four courses when it is converted inside messages at given places: it has a
fault, it holds no message, it is cut because its message is being inlined, or it opens a message
(`Context.course`).  Each course has one equation for the outcome of the conversion, so that the
schema of a field is of one of three sorts (`Context.made_of_outcome_fieldIn`), and the outcome for
a list of fields follows from the outcomes for its fields: the first failure counts
(`Context.outcome_fieldSchemas_eq_error_iff`), and without failure every field makes its property
(`Context.outcome_fieldSchemas_eq_ok_iff`).

`Context.expand_induction` is the induction on which the statements about whole conversions rest:
what holds of a message whenever it holds of all messages that its fields open holds of every
message.  For a property of the schemas alone it takes the form of `Context.schema_induction`. -/

namespace MessageSchema
namespace Context

/-- The courses that the conversion of a field of `owner` can take inside messages at the places
`inlined`. -/
inductive Course (ctx : Context) (inlined : List Place) (owner : Message) (f : Field) : Prop where
  | fault (e : ConversionError) (h : ctx.Fault inlined owner f e)
  | leaf (type : FieldType) (s : Schema) (ht : f.fieldType? = some type)
      (hs : f.leaf? owner type = some s)
  | cut (t : Located Message) (ht : ctx.Resolves f t) (hp : t.place ∈ inlined)
      (hl : f.label ≠ .required)
  | opens (t : Located Message) (ht : ctx.Resolves f t) (hp : t.place ∉ inlined)

theorem course (ctx : Context) (inlined : List Place) (owner : Message) (f : Field) :
    ctx.Course inlined owner f := by
  cases htype : f.fieldType? with
  | none => exact .fault _ (.unrecognized (Field.fieldType?_eq_none_iff.mp htype))
  | some type =>
      cases hs : f.leaf? owner type with
      | some s => exact .leaf type s htype hs
      | none =>
          obtain rfl := Field.leaf?_eq_none_iff.mp hs
          have hr := Field.fieldType?_eq_record_iff.mp htype
          cases hlookup : (ctx.registry.lookup ctx.package f.typeName).value with
          | none => exact .fault _ (.unresolved hr hlookup)
          | some t =>
              by_cases hp : t.place ∈ inlined
              · by_cases hl : f.label = .required
                · exact .fault _ (.recursive ⟨hr, hlookup⟩ hl hp)
                · exact .cut t ⟨hr, hlookup⟩ hp hl
              · exact .opens t ⟨hr, hlookup⟩ hp

/-! ### The outcome for one field -/

section field
variable {ctx : Context} {inlined : List Place} {owner : Message} {f : Field}
variable {k : Located Message → Conversion Schema} {t : Located Message}

/-- The proofs that a lookup carries with its value play no part in the conversion. -/
theorem lift_attach_bind {α β : Type} (x : Logged α) {g : { a : α // x.value = a } → Conversion β}
    {g' : α → Conversion β} (h : ∀ a, g a = g' a.1) :
    (ExceptT.lift x.attach >>= g) = ExceptT.lift x >>= g' := by
  obtain rfl : g = fun a => g' a.1 := funext h
  rfl

theorem fieldSchema_of_refers (h : f.Refers) :
    ctx.fieldSchema inlined owner f (fun t _ _ => k t) =
      ExceptT.lift (ctx.registry.lookup ctx.package f.typeName) >>= fun
        | none => throw (.unresolvedReference f.typeName owner.name)
        | some t =>
            if t.place ∈ inlined then ctx.cutSchema owner f
            else k t >>= fun s => pure (f.label.ofExpanded s) := by
  rw [fieldSchema, Field.fieldType?_eq_record_iff.mpr h]
  apply lift_attach_bind
  rintro ⟨_ | t, _⟩
  · rfl
  · by_cases hp : t.place ∈ inlined <;> simp [hp]

theorem outcome_fieldSchema_of_fault {e : ConversionError} (h : ctx.Fault inlined owner f e) :
    (ctx.fieldSchema inlined owner f (fun t _ _ => k t)).outcome = .error e := by
  cases h with
  | unrecognized hk =>
      rw [fieldSchema, Field.fieldType?_eq_none_iff.mpr hk]
      rfl
  | unresolved hr hl =>
      rw [fieldSchema_of_refers hr, Conversion.outcome_bind, Conversion.outcome_lift, hl]
      rfl
  | recursive ht hl hp =>
      rw [fieldSchema_of_refers ht.1, Conversion.outcome_bind, Conversion.outcome_lift, ht.2]
      simp only [bind, Except.bind, if_pos hp, cutSchema, hl]
      rfl

theorem outcome_fieldSchema_of_leaf {type : FieldType} {s : Schema}
    (ht : f.fieldType? = some type) (hs : f.leaf? owner type = some s) :
    (ctx.fieldSchema inlined owner f (fun t _ _ => k t)).outcome = .ok (f.label.ofLeaf s) := by
  simp only [fieldSchema, ht, hs]
  rfl

/-- The schema that stands for a message that is not expanded again. -/
def cutNode (ctx : Context) : Label → Schema
  | .repeated => .array (.object (some ctx.options.allowAdditionalProperties))
  | .optional | .required => .object (some true)

theorem cutNode_congr {ctx' : Context} (ho : ctx'.options = ctx.options) (l : Label) :
    ctx'.cutNode l = ctx.cutNode l := by
  cases l with
  | repeated => rw [cutNode.eq_def, ho]; rfl
  | optional | required => rfl

theorem outcome_fieldSchema_of_cut (ht : ctx.Resolves f t) (hp : t.place ∈ inlined)
    (hl : f.label ≠ .required) :
    (ctx.fieldSchema inlined owner f (fun t _ _ => k t)).outcome = .ok (ctx.cutNode f.label) := by
  rw [fieldSchema_of_refers ht.1, Conversion.outcome_bind, Conversion.outcome_lift, ht.2]
  simp only [bind, Except.bind, if_pos hp, cutSchema]
  cases h : f.label with
  | required => exact absurd h hl
  | optional => rfl
  | repeated => rfl

theorem outcome_fieldSchema_of_opens (ht : ctx.Resolves f t) (hp : t.place ∉ inlined) :
    (ctx.fieldSchema inlined owner f (fun t _ _ => k t)).outcome =
      f.label.ofExpanded <$> (k t).outcome := by
  rw [fieldSchema_of_refers ht.1, Conversion.outcome_bind, Conversion.outcome_lift, ht.2]
  simp only [bind, Except.bind, if_neg hp]
  exact Conversion.outcome_bind (k t) fun s => pure (f.label.ofExpanded s)

/-- The outcome for a field depends on the context only through the options and the lookup of its
type name, and on the expansion only at the message that the field opens. -/
theorem outcome_fieldSchema_congr {ctx' : Context} {k' : Located Message → Conversion Schema}
    (ho : ctx'.options = ctx.options)
    (hl : f.Refers → (ctx'.registry.lookup ctx'.package f.typeName).value =
      (ctx.registry.lookup ctx.package f.typeName).value)
    (hk : ∀ t, ctx.Resolves f t → t.place ∉ inlined → (k' t).outcome = (k t).outcome) :
    (ctx'.fieldSchema inlined owner f (fun t _ _ => k' t)).outcome =
      (ctx.fieldSchema inlined owner f (fun t _ _ => k t)).outcome := by
  have hr : ∀ t, ctx.Resolves f t → ctx'.Resolves f t :=
    fun t ht => ⟨ht.1, (hl ht.1).trans ht.2⟩
  cases ctx.course inlined owner f with
  | fault e h =>
      rw [outcome_fieldSchema_of_fault h, outcome_fieldSchema_of_fault (h.of_lookup_eq hl)]
  | leaf type s ht hs => rw [outcome_fieldSchema_of_leaf ht hs, outcome_fieldSchema_of_leaf ht hs]
  | cut t ht hp hlabel =>
      rw [outcome_fieldSchema_of_cut ht hp hlabel, outcome_fieldSchema_of_cut (hr t ht) hp hlabel,
        cutNode_congr ho]
  | opens t ht hp =>
      rw [outcome_fieldSchema_of_opens ht hp, outcome_fieldSchema_of_opens (hr t ht) hp,
        hk t ht hp]

end field

/-! ### The outcome for a list of fields -/

section fields
variable {owner : Message} {convert : Field → Conversion Schema}

theorem outcome_fieldSchemas_cons (ps : Entries Schema) (f : Field) (rest : List Field) :
    (fieldSchemas owner convert ps (f :: rest)).outcome =
      (convert f).outcome >>= fun s =>
        (fieldSchemas owner convert (Entries.insert f.name s ps) rest).outcome := by
  rw [fieldSchemas, Conversion.outcome_bind, Conversion.outcome_onError]

theorem outcome_fieldSchemas_congr {convert' : Field → Conversion Schema} {ps : Entries Schema}
    {fields : List Field} (h : ∀ f ∈ fields, (convert' f).outcome = (convert f).outcome) :
    (fieldSchemas owner convert' ps fields).outcome =
      (fieldSchemas owner convert ps fields).outcome := by
  induction fields generalizing ps with
  | nil => rfl
  | cons f rest ih =>
      rw [outcome_fieldSchemas_cons, outcome_fieldSchemas_cons, h f List.mem_cons_self]
      congr 1
      funext s
      exact ih fun g hg => h g (List.mem_cons_of_mem _ hg)

/-- A list of fields fails with the error of the first field that fails. -/
theorem outcome_fieldSchemas_eq_error_iff {ps : Entries Schema} {fields : List Field}
    {e : ConversionError} :
    (fieldSchemas owner convert ps fields).outcome = .error e ↔
      ∃ (i : Nat) (f : Field), fields[i]? = some f ∧ (convert f).outcome = .error e ∧
        ∀ j < i, ∀ g, fields[j]? = some g → ∃ s, (convert g).outcome = .ok s := by
  induction fields generalizing ps with
  | nil => simp [fieldSchemas]
  | cons f rest ih =>
      rw [outcome_fieldSchemas_cons]
      cases hf : (convert f).outcome with
      | error e' =>
          show (Except.error e' : Except ConversionError (Entries Schema)) = .error e ↔ _
          constructor
          · intro h
            obtain rfl := Except.error.inj h
            refine ⟨0, f, rfl, hf, ?_⟩
            intro j hj
            omega
          · rintro ⟨i, g, hg, he, hbefore⟩
            cases i with
            | zero =>
                obtain rfl := Option.some.inj hg
                rw [hf] at he
                rw [Except.error.inj he]
            | succ i =>
                obtain ⟨s, hs⟩ := hbefore 0 (by omega) f rfl
                rw [hf] at hs
                cases hs
      | ok s =>
          refine Iff.trans ih ?_
          constructor
          · rintro ⟨i, g, hg, he, hbefore⟩
            refine ⟨i + 1, g, hg, he, ?_⟩
            intro j hj g' hg'
            cases j with
            | zero =>
                obtain rfl := Option.some.inj hg'
                exact ⟨s, hf⟩
            | succ j => exact hbefore j (by omega) g' hg'
          · rintro ⟨i, g, hg, he, hbefore⟩
            cases i with
            | zero =>
                obtain rfl := Option.some.inj hg
                rw [hf] at he
                cases he
            | succ i => exact ⟨i, g, hg, he, fun j hj => hbefore (j + 1) (by omega)⟩

theorem exists_ok_of_outcome_fieldSchemas {ps qs : Entries Schema} {fields : List Field}
    (h : (fieldSchemas owner convert ps fields).outcome = .ok qs) :
    ∀ f ∈ fields, ∃ s, (convert f).outcome = .ok s := by
  induction fields generalizing ps with
  | nil =>
      intro f hf
      cases hf
  | cons g rest ih =>
      rw [outcome_fieldSchemas_cons] at h
      cases hg : (convert g).outcome with
      | error e =>
          rw [hg] at h
          cases h
      | ok s =>
          rw [hg] at h
          intro f hf
          rcases List.mem_cons.mp hf with rfl | hf
          · exact ⟨s, hg⟩
          · exact ih h f hf

theorem outcome_fieldSchemas_of_ok {ps : Entries Schema} {fields : List Field}
    {value : Field → Schema} (h : ∀ f ∈ fields, (convert f).outcome = .ok (value f)) :
    (fieldSchemas owner convert ps fields).outcome =
      .ok (Entries.insertAll ps (fields.map fun f => (f.name, value f))) := by
  induction fields generalizing ps with
  | nil => rfl
  | cons g rest ih =>
      rw [outcome_fieldSchemas_cons, h g List.mem_cons_self]
      exact ih fun f hf => h f (List.mem_cons_of_mem _ hf)

/-- Without failure the properties are the schemas of the fields, inserted in order. -/
theorem outcome_fieldSchemas_eq_ok_iff {ps qs : Entries Schema} {fields : List Field} :
    (fieldSchemas owner convert ps fields).outcome = .ok qs ↔
      ∃ value : Field → Schema, (∀ f ∈ fields, (convert f).outcome = .ok (value f)) ∧
        qs = Entries.insertAll ps (fields.map fun f => (f.name, value f)) := by
  constructor
  · intro h
    have hvalue : ∀ f, ∃ s, f ∈ fields → (convert f).outcome = .ok s := by
      intro f
      by_cases hf : f ∈ fields
      · obtain ⟨s, hs⟩ := exists_ok_of_outcome_fieldSchemas h f hf
        exact ⟨s, fun _ => hs⟩
      · exact ⟨.ofType .object, fun hf' => absurd hf' hf⟩
    have hv : ∀ f ∈ fields, (convert f).outcome = .ok (hvalue f).choose :=
      fun f => (hvalue f).choose_spec
    exact ⟨_, hv, Except.ok.inj (h.symm.trans (outcome_fieldSchemas_of_ok hv))⟩
  · rintro ⟨value, hv, rfl⟩
    exact outcome_fieldSchemas_of_ok hv

/-- Each property is the schema of the last field of its name. -/
theorem get?_of_outcome_fieldSchemas_last {ps : Entries Schema} {fields : List Field}
    {name : String} {s : Schema} (h : (fieldSchemas owner convert ∅ fields).outcome = .ok ps) :
    Entries.get? name ps = some s ↔
      ∃ f, fields.reverse.find? (·.name = name) = some f ∧ (convert f).outcome = .ok s := by
  obtain ⟨value, hv, rfl⟩ := outcome_fieldSchemas_eq_ok_iff.mp h
  have hname : (fun e : String × Schema => decide (e.1 = name)) ∘ (fun f => (f.name, value f)) =
      fun f => decide (f.name = name) := rfl
  rw [Entries.get?_insertAll, ← List.map_reverse, List.find?_map, hname]
  cases hf : fields.reverse.find? (·.name = name) with
  | none => simp
  | some f =>
      have hconvert := hv f (List.mem_reverse.mp (List.mem_of_find?_eq_some hf))
      simp [hconvert]

/-- Every property is the schema of a field of its name. -/
theorem exists_field_of_mem {ps : Entries Schema} {fields : List Field} {name : String}
    {s : Schema} (h : (fieldSchemas owner convert ∅ fields).outcome = .ok ps)
    (hmem : (name, s) ∈ ps) : ∃ f ∈ fields, f.name = name ∧ (convert f).outcome = .ok s := by
  obtain ⟨f, hlast, hf⟩ :=
    (get?_of_outcome_fieldSchemas_last h).mp (Entries.get?_eq_some_iff.mpr hmem)
  refine ⟨f, List.mem_reverse.mp (List.mem_of_find?_eq_some hlast), ?_, hf⟩
  simpa using List.find?_some hlast

/-- If the fields have different names, each property is the schema of the field of its name. -/
theorem get?_of_outcome_fieldSchemas {ps : Entries Schema} {fields : List Field} {name : String}
    {s : Schema} (h : (fieldSchemas owner convert ∅ fields).outcome = .ok ps)
    (hn : (fields.map Field.name).Nodup) :
    Entries.get? name ps = some s ↔
      ∃ f ∈ fields, f.name = name ∧ (convert f).outcome = .ok s := by
  have hlast : ∀ f, fields.reverse.find? (·.name = name) = some f ↔ f ∈ fields ∧ f.name = name := by
    intro f
    rw [find?_eq_some_iff_of_unique, List.mem_reverse, decide_eq_true_eq]
    intro g hg g' hg' hname hname'
    rw [decide_eq_true_eq] at hname hname'
    exact List.inj_on_of_nodup_map hn (List.mem_reverse.mp hg) (List.mem_reverse.mp hg')
      (hname.trans hname'.symm)
  simp only [get?_of_outcome_fieldSchemas_last h, hlast, and_assoc]

end fields

/-! ### The outcome for a message -/

section message
variable {ctx : Context} {chain : List Place} {m : Located Message}

/-- The schema of a field of `m` while `m` is expanded inside messages at the places of `chain`. -/
def fieldIn (ctx : Context) (chain : List Place) (m : Located Message) (f : Field) :
    Conversion Schema :=
  ctx.fieldSchema (m.place :: chain) m.item f fun t _ _ => ctx.expand (m.place :: chain) t

/-- An object with the properties of a message that is expanded for its own sake. -/
def objectWith (ctx : Context) (properties : Entries Schema) : Schema :=
  { Schema.object (some ctx.options.allowAdditionalProperties) with properties }

theorem expand_eq (ctx : Context) (chain : List Place) (m : Located Message) :
    ctx.expand chain m =
      fieldSchemas m.item (ctx.fieldIn chain m) ∅ m.item.fields >>= fun properties =>
        pure (ctx.objectWith properties) := by
  rw [expand]
  rfl

theorem outcome_expand (ctx : Context) (chain : List Place) (m : Located Message) :
    (ctx.expand chain m).outcome =
      ctx.objectWith <$> (fieldSchemas m.item (ctx.fieldIn chain m) ∅ m.item.fields).outcome := by
  rw [expand_eq]
  exact Conversion.outcome_bind _ _

theorem outcome_expand_eq_error_iff {e : ConversionError} :
    (ctx.expand chain m).outcome = .error e ↔
      (fieldSchemas m.item (ctx.fieldIn chain m) ∅ m.item.fields).outcome = .error e := by
  rw [outcome_expand]
  cases (fieldSchemas m.item (ctx.fieldIn chain m) ∅ m.item.fields).outcome <;>
    simp [Functor.map, Except.map]

theorem outcome_expand_eq_ok_iff {s : Schema} :
    (ctx.expand chain m).outcome = .ok s ↔
      ∃ ps, (fieldSchemas m.item (ctx.fieldIn chain m) ∅ m.item.fields).outcome = .ok ps ∧
        s = ctx.objectWith ps := by
  rw [outcome_expand]
  cases (fieldSchemas m.item (ctx.fieldIn chain m) ∅ m.item.fields).outcome <;>
    simp [Functor.map, Except.map, eq_comm]

/-- If a field that opens a message converts, so does the message. -/
theorem exists_ok_of_opens {f : Field} {t : Located Message} {node : Schema}
    (ht : ctx.Resolves f t) (hp : t.place ∉ m.place :: chain)
    (hn : (ctx.fieldIn chain m f).outcome = .ok node) :
    ∃ s, (ctx.expand (m.place :: chain) t).outcome = .ok s ∧ node = f.label.ofExpanded s := by
  rw [fieldIn, outcome_fieldSchema_of_opens ht hp] at hn
  cases hs : (ctx.expand (m.place :: chain) t).outcome with
  | error e =>
      rw [hs] at hn
      cases hn
  | ok s =>
      rw [hs] at hn
      exact ⟨s, rfl, (Except.ok.inj hn).symm⟩

/-- What the schema of a field of `m` can be: that of one without messages, what stands for a
message that is not expanded again, or that of the expanded message. -/
inductive Made (ctx : Context) (chain : List Place) (m : Located Message) (f : Field) :
    Schema → Prop where
  | leaf (type : FieldType) (s : Schema) (ht : f.fieldType? = some type)
      (hs : f.leaf? m.item type = some s) : Made ctx chain m f (f.label.ofLeaf s)
  | cut (t : Located Message) (ht : ctx.Resolves f t) (hp : t.place ∈ m.place :: chain)
      (hl : f.label ≠ .required) : Made ctx chain m f (ctx.cutNode f.label)
  | opens (t : Located Message) (s : Schema) (ht : ctx.Resolves f t)
      (hp : t.place ∉ m.place :: chain) (hs : (ctx.expand (m.place :: chain) t).outcome = .ok s) :
      Made ctx chain m f (f.label.ofExpanded s)

theorem made_of_outcome_fieldIn {f : Field} {node : Schema}
    (hn : (ctx.fieldIn chain m f).outcome = .ok node) : ctx.Made chain m f node := by
  cases ctx.course (m.place :: chain) m.item f with
  | fault e he =>
      rw [fieldIn, outcome_fieldSchema_of_fault he] at hn
      cases hn
  | leaf type s ht hs =>
      rw [fieldIn, outcome_fieldSchema_of_leaf ht hs] at hn
      obtain rfl := Except.ok.inj hn
      exact .leaf type s ht hs
  | cut t ht hp hl =>
      rw [fieldIn, outcome_fieldSchema_of_cut ht hp hl] at hn
      obtain rfl := Except.ok.inj hn
      exact .cut t ht hp hl
  | opens t ht hp =>
      obtain ⟨s, hs, rfl⟩ := exists_ok_of_opens ht hp hn
      exact .opens t s ht hp hs

/-- To prove something of all messages inside all chains, prove it of a message from the same for
the messages that its fields open. -/
theorem expand_induction (ctx : Context) {P : List Place → Located Message → Prop}
    (step : ∀ chain m,
      (∀ f t, ctx.Resolves f t → t.place ∉ m.place :: chain → P (m.place :: chain) t) → P chain m)
    (chain : List Place) (m : Located Message) : P chain m := by
  induction h : ctx.registry.unvisited (m.place :: chain) using Nat.strongRecOn
    generalizing chain m with
  | _ n ih =>
      apply step
      intro f t ht hp
      have hlt := Registry.unvisited_lt ht.mem_declared hp
      exact ih _ (h ▸ hlt) _ t rfl

/-- To prove something of the schemas of all messages, prove it of the three sorts that the schema
of a field can be, and of an object from the same for its properties. -/
theorem schema_induction {P : Schema → Prop}
    (object : ∀ ps : Entries Schema, (∀ e ∈ ps, P e.2) → P (ctx.objectWith ps))
    (leaf : ∀ (owner : Message) (f : Field) (type : FieldType) (s : Schema),
      f.leaf? owner type = some s → P (f.label.ofLeaf s))
    (cut : ∀ l : Label, P (ctx.cutNode l))
    (opened : ∀ (l : Label) (ps : Entries Schema), P (ctx.objectWith ps) →
      P (l.ofExpanded (ctx.objectWith ps)))
    {s : Schema} (hs : (ctx.expand chain m).outcome = .ok s) : P s := by
  induction chain, m using ctx.expand_induction generalizing s with
  | step chain m ih =>
      obtain ⟨ps, hps, rfl⟩ := outcome_expand_eq_ok_iff.mp hs
      apply object ps
      rintro ⟨name, node⟩ hmem
      obtain ⟨f, -, -, hf⟩ := exists_field_of_mem hps hmem
      cases made_of_outcome_fieldIn hf with
      | leaf type s ht hleaf => exact leaf m.item f type s hleaf
      | cut t ht hp hl => exact cut f.label
      | opens t s ht hp hopened =>
          have h := ih f t ht hp hopened
          obtain ⟨qs, -, rfl⟩ := outcome_expand_eq_ok_iff.mp hopened
          exact opened f.label qs h

end message

end Context
end MessageSchema
