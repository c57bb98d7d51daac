import MessageSchema.Inlining
import Mathlib.Logic.Relation

/-! # The graph of message types

A field of message type leads from the message that declares it to the message that it refers to,
as the package of a context sees it (`Context.Resolves`).  A *walk* takes such fields one after the
other and ends with a field of any type; it is *simple* if no message declares two of its fields.
Messages are told apart by their places, since two messages at different places are different even
when they are equal.

`Context.Fault` lists the causes for which a field cannot be converted inside given messages, and
`Context.Flaw` the simple walks that end with such a field.  Main statement: a walk is known by the
indices of its fields, and so is the cause for which it is a flaw (`Context.Flaw.eq_of_indices`). -/

namespace MessageSchema

/-! ### Type numbers -/

/-- The type number of the field is one of the eighteen known ones. -/
def Field.Known (f : Field) : Prop := ∃ n, f.type? = some n ∧ 1 ≤ n.toInt ∧ n.toInt ≤ 18

/-- The type number of the field is that of groups or that of messages. -/
def Field.Refers (f : Field) : Prop := ∃ n, f.type? = some n ∧ (n.toInt = 10 ∨ n.toInt = 11)

theorem FieldType.ofNumber?_eq_none_iff {n : Int32} :
    ofNumber? n = none ↔ ¬ (1 ≤ n.toInt ∧ n.toInt ≤ 18) := by
  rw [ofNumber?]
  split <;> simp_all
  omega

theorem FieldType.ofNumber?_eq_record_iff {n : Int32} :
    ofNumber? n = some .record ↔ n.toInt = 10 ∨ n.toInt = 11 := by
  rw [ofNumber?]
  split <;> simp_all

theorem Field.fieldType?_eq_none_iff {f : Field} : f.fieldType? = none ↔ ¬ f.Known := by
  cases h : f.type? with
  | none => simp [fieldType?, Known, h]
  | some n => simp [fieldType?, Known, h, FieldType.ofNumber?_eq_none_iff]

theorem Field.fieldType?_eq_record_iff {f : Field} :
    f.fieldType? = some .record ↔ f.Refers := by
  cases h : f.type? with
  | none => simp [fieldType?, Refers, h]
  | some n => simp [fieldType?, Refers, h, FieldType.ofNumber?_eq_record_iff]

theorem Field.Refers.known {f : Field} (h : f.Refers) : f.Known := by
  obtain ⟨n, hn, h⟩ := h
  exact ⟨n, hn, by omega, by omega⟩

theorem Field.leaf?_eq_none_iff {owner : Message} {f : Field} {type : FieldType} :
    f.leaf? owner type = none ↔ type = .record := by
  cases type <;> simp [leaf?]

theorem Field.known_of_fieldType? {f : Field} {type : FieldType} (h : f.fieldType? = some type) :
    f.Known := by
  by_cases hk : f.Known
  · exact hk
  · rw [fieldType?_eq_none_iff.mpr hk] at h
    cases h

theorem Field.not_refers_of_leaf? {owner : Message} {f : Field} {type : FieldType} {s : Schema}
    (ht : f.fieldType? = some type) (hs : f.leaf? owner type = some s) : ¬ f.Refers := by
  intro hr
  rw [fieldType?_eq_record_iff.mpr hr] at ht
  obtain rfl := Option.some.inj ht
  cases hs

/-! ### Walks -/

/-- A field together with the message that declares it and its index there. -/
structure Step where
  owner : Located Message
  index : Nat
  field : Field

/-- Steps in the order in which they are taken. -/
abbrev Route := List Step

namespace Route

/-- The places of the messages that declare the fields. -/
def places (route : Route) : List Place := route.map (·.owner.place)

/-- The indices of the fields. -/
def indices (route : Route) : List Nat := route.map (·.index)

/-- The names of the fields. -/
def names (route : Route) : List String := route.map (·.field.name)

/-- No message declares two of the fields. -/
def Simple (route : Route) : Prop := route.places.Nodup

instance : DecidablePred Simple :=
  fun route => inferInstanceAs (Decidable route.places.Nodup)

/-- The route comes before another one in the order of declaration: its index is smaller at the
first step where the indices differ, or it ends where the other goes on. -/
def Precedes (route route' : Route) : Prop := List.Lex (· < ·) route.indices route'.indices

theorem Precedes.asymm {route route' : Route} (h : route.Precedes route') :
    ¬ route'.Precedes route :=
  List.lt_asymm h

/-- Routes that begin with two fields are in the order of these fields, or of the routes after the
same field. -/
theorem precedes_cons_iff {step step' : Step} {route route' : Route} :
    Precedes (step :: route) (step' :: route') ↔
      step.index < step'.index ∨ step.index = step'.index ∧ route.Precedes route' :=
  List.cons_lt_cons_iff

/-- The messages of a walk and those around it are the same before and after its first step. -/
theorem places_perm (m : Located Message) (i : Nat) (f : Field) (rest : Route)
    (chain : List Place) :
    (rest.places ++ m.place :: chain).Perm (places (⟨m, i, f⟩ :: rest) ++ chain) :=
  List.perm_middle

end Route

namespace Context

/-- The field refers to a message, and its type name leads to `t`. -/
def Resolves (ctx : Context) (f : Field) (t : Located Message) : Prop :=
  f.Refers ∧ (ctx.registry.lookup ctx.package f.typeName).value = some t

/-- Some field of `d` leads to `t`. -/
def Leads (ctx : Context) (d t : Located Message) : Prop :=
  ∃ f ∈ d.item.fields, ctx.Resolves f t

/-- Fields lead from `m` to `d`. -/
def Reaches (ctx : Context) : Located Message → Located Message → Prop :=
  Relation.ReflTransGen ctx.Leads

/-- A walk from a message: each field but the last leads to the message that declares the next. -/
inductive Walk (ctx : Context) : Located Message → Route → Prop where
  | last {m : Located Message} {i : Nat} {f : Field} (hf : m.item.fields[i]? = some f) :
      Walk ctx m [⟨m, i, f⟩]
  | step {m t : Located Message} {i : Nat} {f : Field} {rest : Route}
      (hf : m.item.fields[i]? = some f) (ht : ctx.Resolves f t) (hw : Walk ctx t rest) :
      Walk ctx m (⟨m, i, f⟩ :: rest)

/-- A cause for which a field of `owner` cannot be converted inside messages at the places
`inlined`. -/
inductive Fault (ctx : Context) (inlined : List Place) (owner : Message) (f : Field) :
    ConversionError → Prop where
  | unrecognized (h : ¬ f.Known) :
      Fault ctx inlined owner f (.unrecognizedType f.name owner.name f.type?)
  | unresolved (h : f.Refers)
      (hl : (ctx.registry.lookup ctx.package f.typeName).value = none) :
      Fault ctx inlined owner f (.unresolvedReference f.typeName owner.name)
  | recursive {t : Located Message} (h : ctx.Resolves f t) (hl : f.label = .required)
      (hp : t.place ∈ inlined) :
      Fault ctx inlined owner f (.recursiveType f.name owner.name f.typeName)

/-- A simple walk from `m` whose last field cannot be converted inside the messages on it. -/
def Flaw (ctx : Context) (m : Located Message) (route : Route) (e : ConversionError) : Prop :=
  ctx.Walk m route ∧ route.Simple ∧
    ∃ last, route.getLast? = some last ∧ ctx.Fault route.places last.owner.item last.field e

/-- A walk from `m` that avoids `chain` and all of whose messages are different, and of whose last
step `P` holds inside these messages and those of `chain`. -/
def EndsInside (ctx : Context) (P : List Place → Step → Prop) (chain : List Place)
    (m : Located Message) (route : Route) : Prop :=
  ctx.Walk m route ∧ (route.places ++ chain).Nodup ∧
    ∃ last, route.getLast? = some last ∧ P (route.places ++ chain) last

variable {ctx : Context} {m t : Located Message} {f : Field} {route route' : Route}

theorem Resolves.unique {t' : Located Message} (h : ctx.Resolves f t) (h' : ctx.Resolves f t') :
    t = t' :=
  Option.some.inj (h.2.symm.trans h'.2)

theorem Resolves.mem_declared (h : ctx.Resolves f t) : t ∈ ctx.registry.declared :=
  Registry.mem_declared_of_lookup h.2

/-- Fields lead nowhere but to messages of the registry. -/
theorem Reaches.eq_or_mem_declared (h : ctx.Reaches m t) : t = m ∨ t ∈ ctx.registry.declared := by
  induction h with
  | refl => exact .inl rfl
  | tail _ hl =>
      obtain ⟨f, _, ht⟩ := hl
      exact .inr ht.mem_declared

theorem Walk.ne_nil (h : ctx.Walk m route) : route ≠ [] := by
  cases h <;> exact List.cons_ne_nil _ _

theorem Walk.names_ne_nil (h : ctx.Walk m route) : route.names ≠ [] := by
  intro hnil
  exact h.ne_nil (List.map_eq_nil_iff.mp hnil)

theorem Walk.place_mem (h : ctx.Walk m route) : m.place ∈ route.places := by
  cases h <;> exact List.mem_cons_self

theorem Walk.place_not_mem {chain : List Place} (h : ctx.Walk m route)
    (hn : (route.places ++ chain).Nodup) : m.place ∉ chain := by
  intro hc
  exact (List.nodup_append.mp hn).2.2 _ h.place_mem _ hc rfl

/-- Fields lead from the first message of a walk to the message of each of its steps, and from there
the walk goes on. -/
theorem Walk.exists_from (h : ctx.Walk m route) {step : Step} (hs : step ∈ route) :
    ctx.Reaches m step.owner ∧ step.field ∈ step.owner.item.fields ∧
      ∃ before rest, route = before ++ step :: rest ∧ ctx.Walk step.owner (step :: rest) := by
  induction h with
  | @last m i f hf =>
      obtain rfl := List.mem_singleton.mp hs
      exact ⟨.refl, List.mem_of_getElem? hf, [], [], rfl, .last hf⟩
  | @step m t i f rest hf ht hw ih =>
      rcases List.mem_cons.mp hs with rfl | hs
      · exact ⟨.refl, List.mem_of_getElem? hf, [], rest, rfl, .step hf ht hw⟩
      · obtain ⟨hreach, hfield, before, rest', rfl, hpart⟩ := ih hs
        have hlead : ctx.Leads m t := ⟨f, List.mem_of_getElem? hf, ht⟩
        exact ⟨.head hlead hreach, hfield, ⟨m, i, f⟩ :: before, rest', rfl, hpart⟩

/-- The way to a message can be put in front of a walk from it. -/
theorem Reaches.exists_walk (h : ctx.Reaches m t) (hw : ctx.Walk t route) :
    ∃ before, ctx.Walk m (before ++ route) := by
  induction h using Relation.ReflTransGen.head_induction_on with
  | refl => exact ⟨[], hw⟩
  | @head d c hlead _ ih =>
      obtain ⟨f, hf, hc⟩ := hlead
      obtain ⟨i, hi⟩ := List.getElem?_of_mem hf
      obtain ⟨before, hbefore⟩ := ih
      exact ⟨⟨d, i, f⟩ :: before, .step hi hc hbefore⟩

section endsInside
variable {P : List Place → Step → Prop} {chain : List Place} {i : Nat} {rest : Route}

/-- The first step of a walk makes no difference to its end, except that its message counts among
those around the rest of the walk. -/
theorem endsInside_step
    (hP : ∀ inlined inlined' step, (∀ p, p ∈ inlined ↔ p ∈ inlined') → P inlined step →
      P inlined' step)
    (hf : m.item.fields[i]? = some f) (ht : ctx.Resolves f t) (hw : ctx.Walk t rest) :
    ctx.EndsInside P chain m (⟨m, i, f⟩ :: rest) ↔ ctx.EndsInside P (m.place :: chain) t rest := by
  have hperm := Route.places_perm m i f rest chain
  have hlast : (⟨m, i, f⟩ :: rest : Route).getLast? = rest.getLast? :=
    List.getLast?_cons_of_ne_nil hw.ne_nil
  constructor
  · rintro ⟨_, hn, last, hl, hend⟩
    exact ⟨hw, hperm.nodup_iff.mpr hn, last, hlast.symm.trans hl,
      hP _ _ _ (fun _ => hperm.mem_iff.symm) hend⟩
  · rintro ⟨_, hn, last, hl, hend⟩
    exact ⟨.step hf ht hw, hperm.nodup_iff.mp hn, last, hlast.trans hl,
      hP _ _ _ (fun _ => hperm.mem_iff) hend⟩

/-- A walk ends at its first step or inside the message that its first field leads to. -/
theorem endsInside_iff
    (hP : ∀ inlined inlined' step, (∀ p, p ∈ inlined ↔ p ∈ inlined') → P inlined step →
      P inlined' step)
    (hm : (m.place :: chain).Nodup) :
    ctx.EndsInside P chain m route ↔
      ∃ i f rest, route = ⟨m, i, f⟩ :: rest ∧ m.item.fields[i]? = some f ∧
        (rest = [] ∧ P (m.place :: chain) ⟨m, i, f⟩ ∨
          ∃ t, ctx.Resolves f t ∧ ctx.EndsInside P (m.place :: chain) t rest) := by
  constructor
  · intro h
    have hw := h.1
    cases hw with
    | @last _ i f hf =>
        obtain ⟨_, _, last, hlast, hend⟩ := h
        obtain rfl := Option.some.inj hlast
        exact ⟨i, f, [], rfl, hf, .inl ⟨rfl, hend⟩⟩
    | @step _ t i f rest hf ht hw =>
        exact ⟨i, f, rest, rfl, hf, .inr ⟨t, ht, (endsInside_step hP hf ht hw).mp h⟩⟩
  · rintro ⟨i, f, rest, rfl, hf, ⟨rfl, hend⟩ | ⟨t, ht, h⟩⟩
    · exact ⟨.last hf, hm, _, rfl, hend⟩
    · exact (endsInside_step hP hf ht h.1).mpr h

end endsInside

theorem Walk.eq_of_indices (h : ctx.Walk m route) (h' : ctx.Walk m route')
    (hi : route.indices = route'.indices) : route = route' := by
  induction h generalizing route' with
  | last hf =>
      cases h' with
      | last hf' =>
          obtain ⟨rfl, -⟩ := List.cons.inj hi
          obtain rfl := Option.some.inj (hf.symm.trans hf')
          rfl
      | step _ _ hw' =>
          have := (List.cons.inj hi).2
          exact absurd (List.map_eq_nil_iff.mp this.symm) hw'.ne_nil
  | step hf ht hw ih =>
      cases h' with
      | last _ =>
          have := (List.cons.inj hi).2
          exact absurd (List.map_eq_nil_iff.mp this) hw.ne_nil
      | step hf' ht' hw' =>
          obtain ⟨rfl, hrest⟩ := List.cons.inj hi
          obtain rfl := Option.some.inj (hf.symm.trans hf')
          obtain rfl := ht.unique ht'
          rw [ih hw' hrest]

theorem Fault.unique {inlined : List Place} {owner : Message} {e e' : ConversionError}
    (h : ctx.Fault inlined owner f e) (h' : ctx.Fault inlined owner f e') : e = e' := by
  cases h with
  | unrecognized hk =>
      cases h' with
      | unrecognized => rfl
      | unresolved hr => exact absurd hr.known hk
      | recursive hr => exact absurd hr.1.known hk
  | unresolved hr hl =>
      cases h' with
      | unrecognized hk => exact absurd hr.known hk
      | unresolved => rfl
      | recursive ht =>
          rw [ht.2] at hl
          cases hl
  | recursive ht =>
      cases h' with
      | unrecognized hk => exact absurd ht.1.known hk
      | unresolved _ hl =>
          rw [ht.2] at hl
          cases hl
      | recursive => rfl

theorem Fault.congr {inlined inlined' : List Place} {owner : Message} {e : ConversionError}
    (hp : ∀ p, p ∈ inlined ↔ p ∈ inlined') (h : ctx.Fault inlined owner f e) :
    ctx.Fault inlined' owner f e := by
  cases h with
  | unrecognized hk => exact .unrecognized hk
  | unresolved hr hl => exact .unresolved hr hl
  | recursive ht hl hm => exact .recursive ht hl ((hp _).mp hm)

/-- A fault remains where the type name of the field is looked up with the same result. -/
theorem Fault.of_lookup_eq {ctx' : Context} {inlined : List Place} {owner : Message}
    {e : ConversionError} (h : ctx.Fault inlined owner f e)
    (hl : f.Refers → (ctx'.registry.lookup ctx'.package f.typeName).value =
      (ctx.registry.lookup ctx.package f.typeName).value) : ctx'.Fault inlined owner f e := by
  cases h with
  | unrecognized hk => exact .unrecognized hk
  | unresolved hr hnone => exact .unresolved hr ((hl hr).trans hnone)
  | recursive ht hlabel hp => exact .recursive ⟨ht.1, (hl ht.1).trans ht.2⟩ hlabel hp

/-- A field that leads to a message has no other fault than recursion. -/
theorem Fault.recursion {inlined : List Place} {owner : Message} {e : ConversionError}
    (h : ctx.Fault inlined owner f e) (ht : ctx.Resolves f t) :
    f.label = .required ∧ t.place ∈ inlined := by
  cases h with
  | unrecognized hk => exact absurd ht.1.known hk
  | unresolved _ hl =>
      rw [ht.2] at hl
      cases hl
  | recursive ht' hl hp =>
      obtain rfl := ht.unique ht'
      exact ⟨hl, hp⟩

/-- A field without messages of a known type has no fault. -/
theorem Fault.not_leaf? {inlined : List Place} {owner : Message} {e : ConversionError}
    {type : FieldType} {s : Schema} (h : ctx.Fault inlined owner f e)
    (ht : f.fieldType? = some type) : f.leaf? owner type ≠ some s := by
  intro hs
  cases h with
  | unrecognized hk => exact hk (Field.known_of_fieldType? ht)
  | unresolved hr => exact Field.not_refers_of_leaf? ht hs hr
  | recursive hr => exact Field.not_refers_of_leaf? ht hs hr.1

/-- Flaws with the same indices are the same, with the same cause. -/
theorem Flaw.eq_of_indices {e e' : ConversionError} (h : ctx.Flaw m route e)
    (h' : ctx.Flaw m route' e') (hi : route.indices = route'.indices) :
    route = route' ∧ e = e' := by
  obtain ⟨hw, _, last, hlast, hf⟩ := h
  obtain ⟨hw', _, last', hlast', hf'⟩ := h'
  obtain rfl := hw.eq_of_indices hw' hi
  obtain rfl := Option.some.inj (hlast.symm.trans hlast')
  exact ⟨rfl, hf.unique hf'⟩

end Context

end MessageSchema
