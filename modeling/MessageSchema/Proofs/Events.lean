import MessageSchema.Proofs.Expansion

/-! # The events of an expansion

A lookup emits events of its own three kinds only (`Registry.emits_lookup`).  Besides these, the
conversion of a field emits the event of a reference that is cut, or what the expansion of the
message emits that the field opens (`Context.mem_events_fieldSchema`), and a list of fields adds the
report of the field that failed (`Context.mem_events_fieldSchemas`).  The log of a list of fields is
that of its fields one after the other, up to the first one that fails
(`Context.events_fieldSchemas_append`). -/

namespace MessageSchema

/-! ### What lookups emit -/

namespace Event

/-- What an event shows: its level, its text and its data. -/
def shown (e : Event) : Level × String × List (String × Datum) := (e.level, e.text, e.data)

/-- The event is of one of the three kinds that lookups emit. -/
def OfLookup : Event → Prop
  | compoundName .. | noPackageNorMessage .. | noNestedMessage .. => True
  | _ => False

/-- The event is of one of the kinds that conversions of messages emit. -/
def OfConversion : Event → Prop
  | compoundName .. | noPackageNorMessage .. | noNestedMessage .. | referenceCut ..
  | fieldFailed .. => True
  | _ => False

theorem OfLookup.level {e : Event} (h : e.OfLookup) : e.level = .debug := by
  cases e <;> trivial

theorem OfLookup.level_ne_error {e : Event} (h : e.OfLookup) : e.level ≠ .error := by
  rw [h.level]
  exact Level.noConfusion

theorem OfLookup.ofConversion {e : Event} (h : e.OfLookup) : e.OfConversion := by
  cases e <;> trivial

end Event

namespace Logged

variable {α β : Type} {P : Event → Prop}

/-- All events are as `P` says. -/
def Emits (x : Logged α) (P : Event → Prop) : Prop := ∀ e ∈ x.events, P e

theorem emits_pure (a : α) : (pure a : Logged α).Emits P := by
  intro e he
  cases he

theorem emits_emit {e : Event} (h : P e) : (emit e).Emits P := by
  intro e' he'
  obtain rfl := List.mem_singleton.mp he'
  exact h

theorem Emits.bind {x : Logged α} {f : α → Logged β} (hx : x.Emits P) (hf : ∀ a, (f a).Emits P) :
    (x >>= f).Emits P := by
  intro e he
  rw [events_bind] at he
  rcases List.mem_append.mp he with he | he
  · exact hx e he
  · exact hf _ e he

end Logged

theorem Located.emits_descend (m : Located Message) (names : List String) :
    (m.descend names).Emits Event.OfLookup := by
  induction names generalizing m with
  | nil => exact Logged.emits_pure _
  | cons name rest ih =>
      rw [descend]
      split
      · exact ih _
      · exact (Logged.emits_emit trivial).bind fun _ => Logged.emits_pure _

namespace Scope

theorem emits_resolve (s : Scope) (names : List String) :
    (s.resolve names).Emits Event.OfLookup := by
  fun_induction resolve s names with
  | case1 => exact Logged.emits_pure _
  | case2 s name => exact Logged.emits_pure _
  | case3 s segment next rest ih =>
      refine (Logged.emits_emit trivial).bind fun _ => Logged.Emits.bind ?_ ?_
      · split
        next inner _ => exact ih inner
        next => exact Logged.emits_pure _
      · intro viaPackage
        split
        next => exact Logged.emits_pure _
        next =>
          split
          next m _ => exact m.emits_descend _
          next => exact (Logged.emits_emit trivial).bind fun _ => Logged.emits_pure _

theorem emits_firstHit (names : List String) (scopes : List Scope) :
    (firstHit names scopes).Emits Event.OfLookup := by
  induction scopes with
  | nil => exact Logged.emits_pure _
  | cons s rest ih =>
      refine (s.emits_resolve names).bind ?_
      intro hit
      split
      · exact Logged.emits_pure _
      · exact ih

end Scope

namespace Registry

theorem emits_lookupBelow (r : Registry) (path : PackagePath) (name : String) :
    (r.lookupBelow path name).Emits Event.OfLookup := by
  rw [lookupBelow]
  split
  · exact Scope.emits_resolve _ _
  · exact Logged.emits_pure _

theorem emits_lookup (r : Registry) (path : PackagePath) (name : String) :
    (r.lookup path name).Emits Event.OfLookup := by
  rw [lookup]
  split
  · exact r.emits_lookupBelow _ _
  · exact Scope.emits_firstHit _ _

/-- A lookup leaves no trace at any level but the lowest. -/
theorem filter_level_lookup (r : Registry) (path : PackagePath) (name : String) {l : Level}
    (hl : l ≠ .debug) : (r.lookup path name).events.filter (·.level = l) = [] := by
  rw [List.filter_eq_nil_iff]
  intro e he
  rw [(r.emits_lookup path name e he).level, decide_eq_true_eq]
  exact hl.symm

end Registry

namespace Context

/-! ### The events of one field -/

section field
variable {ctx : Context} {inlined : List Place} {owner : Message} {f : Field}
variable {k : Located Message → Conversion Schema}

/-- A field that refers to no message is converted without events and whatever the messages around
it are. -/
theorem exists_fieldSchema_of_not_refers (ctx : Context) (owner : Message) (h : ¬ f.Refers) :
    ∃ x : Except ConversionError Schema, ∀ inlined (k : Located Message → Conversion Schema),
      ctx.fieldSchema inlined owner f (fun t _ _ => k t) = ExceptT.mk (pure x) := by
  cases htype : f.fieldType? with
  | none =>
      refine ⟨.error (.unrecognizedType f.name owner.name f.type?), fun inlined k => ?_⟩
      rw [fieldSchema, htype]
      rfl
  | some type =>
      cases hs : f.leaf? owner type with
      | some s =>
          refine ⟨.ok (f.label.ofLeaf s), fun inlined k => ?_⟩
          simp only [fieldSchema, htype, hs]
          rfl
      | none =>
          obtain rfl := Field.leaf?_eq_none_iff.mp hs
          exact absurd (Field.fieldType?_eq_record_iff.mp htype) h

/-- A field that opens a message emits what its lookup and the expansion of the message emit. -/
theorem events_fieldSchema_of_opens {t : Located Message} (ht : ctx.Resolves f t)
    (hp : t.place ∉ inlined) :
    (ctx.fieldSchema inlined owner f (fun t _ _ => k t)).events =
      (ctx.registry.lookup ctx.package f.typeName).events ++ (k t).events := by
  rw [fieldSchema_of_refers ht.1, Conversion.events_bind, Conversion.events_lift,
    Conversion.outcome_lift, ht.2]
  simp only [if_neg hp, Conversion.events_bind]
  cases (k t).outcome <;> simp

/-- A field whose reference is cut emits what its lookup emits and the report of the cut. -/
theorem events_fieldSchema_of_cut {t : Located Message} (ht : ctx.Resolves f t)
    (hp : t.place ∈ inlined) (hl : f.label ≠ .required) :
    (ctx.fieldSchema inlined owner f (fun t _ _ => k t)).events =
      (ctx.registry.lookup ctx.package f.typeName).events ++
        [.referenceCut f.name owner.name f.typeName] := by
  rw [fieldSchema_of_refers ht.1, Conversion.events_bind, Conversion.events_lift,
    Conversion.outcome_lift, ht.2]
  simp only [if_pos hp, cutSchema]
  cases h : f.label with
  | required => exact absurd h hl
  | optional | repeated => rfl

/-- A reference that is cut is reported, unless its field is required. -/
theorem mem_events_cutSchema {e : Event} (he : e ∈ (ctx.cutSchema owner f).events) :
    f.label ≠ .required ∧ e = .referenceCut f.name owner.name f.typeName := by
  rw [cutSchema] at he
  cases hl : f.label with
  | required =>
      rw [hl] at he
      cases he
  | repeated | optional =>
      rw [hl] at he
      exact ⟨by decide, List.mem_singleton.mp he⟩

/-- Besides the events of its lookup, a field emits that its reference is cut, or what the expansion
of the message emits that it opens. -/
theorem mem_events_fieldSchema {e : Event}
    (he : e ∈ (ctx.fieldSchema inlined owner f (fun t _ _ => k t)).events) :
    e.OfLookup ∨ ∃ t, ctx.Resolves f t ∧
      (t.place ∈ inlined ∧ f.label ≠ .required ∧ e = .referenceCut f.name owner.name f.typeName ∨
        t.place ∉ inlined ∧ e ∈ (k t).events) := by
  by_cases hr : f.Refers
  · rw [fieldSchema_of_refers hr, Conversion.events_bind, Conversion.events_lift,
      Conversion.outcome_lift] at he
    rcases List.mem_append.mp he with he | he
    · exact .inl (ctx.registry.emits_lookup _ _ e he)
    · cases hl : (ctx.registry.lookup ctx.package f.typeName).value with
      | none =>
          rw [hl] at he
          cases he
      | some t =>
          refine .inr ⟨t, ⟨hr, hl⟩, ?_⟩
          simp only [hl] at he
          by_cases hp : t.place ∈ inlined
          · rw [if_pos hp] at he
            exact .inl ⟨hp, mem_events_cutSchema he⟩
          · rw [if_neg hp, Conversion.events_bind] at he
            refine .inr ⟨hp, ?_⟩
            revert he
            cases (k t).outcome <;> simp
  · obtain ⟨x, hx⟩ := exists_fieldSchema_of_not_refers ctx owner hr
    rw [hx] at he
    cases he

/-- A field with a fault emits no more than its lookup. -/
theorem ofLookup_of_fault {cause : ConversionError} {e : Event}
    (h : ctx.Fault inlined owner f cause)
    (he : e ∈ (ctx.fieldSchema inlined owner f (fun t _ _ => k t)).events) : e.OfLookup := by
  rcases mem_events_fieldSchema he with he | ⟨t, ht, ⟨-, hl, -⟩ | ⟨hp, -⟩⟩
  · exact he
  · exact absurd (h.recursion ht).1 hl
  · exact absurd (h.recursion ht).2 hp

/-- A field without messages emits nothing. -/
theorem events_fieldSchema_of_leaf {type : FieldType} {s : Schema}
    (ht : f.fieldType? = some type) (hs : f.leaf? owner type = some s) :
    (ctx.fieldSchema inlined owner f (fun t _ _ => k t)).events = [] := by
  simp only [fieldSchema, ht, hs]
  rfl

end field

/-! ### The events of a list of fields -/

/-- Fields that convert emit their events one after the other, and leave the end of the log to the
fields after them. -/
theorem events_fieldSchemas_append {owner : Message} {convert : Field → Conversion Schema}
    {before : List Field} (h : ∀ f ∈ before, ∃ s, (convert f).outcome = .ok s)
    (ps : Entries Schema) (rest : List Field) :
    ∃ qs, (fieldSchemas owner convert ps (before ++ rest)).events =
      (before.flatMap fun f => (convert f).events) ++
        (fieldSchemas owner convert qs rest).events := by
  induction before generalizing ps with
  | nil => exact ⟨ps, rfl⟩
  | cons f before ih =>
      obtain ⟨s, hs⟩ := h f List.mem_cons_self
      obtain ⟨qs, hqs⟩ := ih (fun g hg => h g (List.mem_cons_of_mem _ hg))
        (Entries.insert f.name s ps)
      refine ⟨qs, ?_⟩
      rw [List.cons_append, fieldSchemas, Conversion.events_bind, Conversion.events_onError,
        Conversion.outcome_onError, hs, List.flatMap_cons]
      simp only [hqs, List.append_nil, List.append_assoc]

theorem events_fieldSchemas_of_ok {owner : Message} {convert : Field → Conversion Schema}
    {fields : List Field} (h : ∀ f ∈ fields, ∃ s, (convert f).outcome = .ok s)
    (ps : Entries Schema) :
    (fieldSchemas owner convert ps fields).events =
      fields.flatMap fun f => (convert f).events := by
  obtain ⟨qs, hqs⟩ := events_fieldSchemas_append h ps []
  rw [List.append_nil] at hqs
  rw [hqs]
  exact List.append_nil _

/-- A list of fields ends its log with what the field emits that fails and the report of the
failure. -/
theorem events_fieldSchemas_of_error {owner : Message} {convert : Field → Conversion Schema}
    {fields : List Field} {i : Nat} {f : Field} {cause : ConversionError}
    (hf : fields[i]? = some f) (hbefore : ∀ g ∈ fields.take i, ∃ s, (convert g).outcome = .ok s)
    (hcause : (convert f).outcome = .error cause) (ps : Entries Schema) :
    (fieldSchemas owner convert ps fields).events =
      ((fields.take i).flatMap fun g => (convert g).events) ++
        ((convert f).events ++ [.fieldFailed cause f.name owner.name]) := by
  obtain ⟨hi, rfl⟩ := List.getElem?_eq_some_iff.mp hf
  have hsplit : fields = fields.take i ++ fields[i] :: fields.drop (i + 1) := by
    rw [← List.drop_eq_getElem_cons hi, List.take_append_drop]
  obtain ⟨qs, hqs⟩ := events_fieldSchemas_append hbefore ps (fields[i] :: fields.drop (i + 1))
  rw [← hsplit, fieldSchemas, Conversion.events_bind, Conversion.events_onError,
    Conversion.outcome_onError, hcause] at hqs
  simpa using hqs

/-- A list of fields emits what its fields emit and reports the field that failed. -/
theorem mem_events_fieldSchemas {owner : Message} {convert : Field → Conversion Schema}
    {ps : Entries Schema} {fields : List Field} {e : Event}
    (he : e ∈ (fieldSchemas owner convert ps fields).events) :
    ∃ f ∈ fields, e ∈ (convert f).events ∨
      ∃ cause, (convert f).outcome = .error cause ∧ e = .fieldFailed cause f.name owner.name := by
  induction fields generalizing ps with
  | nil => cases he
  | cons f rest ih =>
      rw [fieldSchemas, Conversion.events_bind, Conversion.events_onError,
        Conversion.outcome_onError] at he
      cases hf : (convert f).outcome with
      | error cause =>
          refine ⟨f, List.mem_cons_self, ?_⟩
          simpa [hf] using he
      | ok s =>
          simp only [hf, List.append_nil] at he
          rcases List.mem_append.mp he with he | he
          · exact ⟨f, List.mem_cons_self, .inl he⟩
          · obtain ⟨g, hg, hge⟩ := ih he
            exact ⟨g, List.mem_cons_of_mem _ hg, hge⟩

/-- The expansion of a message emits what its fields emit. -/
theorem events_expand (ctx : Context) (chain : List Place) (m : Located Message) :
    (ctx.expand chain m).events =
      (fieldSchemas m.item (ctx.fieldIn chain m) ∅ m.item.fields).events := by
  rw [expand_eq, Conversion.events_bind]
  cases (fieldSchemas m.item (ctx.fieldIn chain m) ∅ m.item.fields).outcome with
  | ok ps => exact List.append_nil _
  | error e => exact List.append_nil _

theorem ofConversion_of_mem_events_expand {ctx : Context} {e : Event} (chain : List Place)
    (m : Located Message) : e ∈ (ctx.expand chain m).events → e.OfConversion := by
  induction chain, m using ctx.expand_induction with
  | step chain m ih =>
      intro he
      rw [events_expand] at he
      obtain ⟨f, -, he | ⟨cause, -, rfl⟩⟩ := mem_events_fieldSchemas he
      · rcases mem_events_fieldSchema he with he | ⟨t, ht, ⟨-, -, rfl⟩ | ⟨hp, he⟩⟩
        · exact he.ofConversion
        · trivial
        · exact ih f t ht hp he
      · trivial

end Context
end MessageSchema
