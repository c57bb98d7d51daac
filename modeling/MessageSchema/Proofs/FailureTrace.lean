import MessageSchema.Proofs.Events
import MessageSchema.Proofs.FirstFlaw

/-! # What a failing conversion reports

A failure is handed outward from the field where it arises, and every message on the way reports the
field in which it failed.  What converts reports no error (`Context.level_ne_error_of_expand`), so
the reports are the end of the log, and they name the steps of the first flaw from the last one to
the first (`Context.exists_traced_of_schemaOf`). -/

namespace MessageSchema

/-- The reports of a failure on its way outward: of the fields of a route, the last one first. -/
def Route.trace (route : Route) (cause : ConversionError) : List Event :=
  route.reverse.map fun step => .fieldFailed cause step.field.name step.owner.item.name

/-- The events end with the reports of a failure on its way outward and hold no other error. -/
def Route.Traced (route : Route) (cause : ConversionError) (events : List Event) : Prop :=
  ∃ before, events = before ++ route.trace cause ∧ ∀ event ∈ before, event.level ≠ .error

namespace Route

variable {route : Route} {cause : ConversionError} {events : List Event}

theorem trace_cons (step : Step) (rest : Route) (cause : ConversionError) :
    trace (step :: rest) cause =
      trace rest cause ++ [.fieldFailed cause step.field.name step.owner.item.name] := by
  simp [trace]

theorem traced_nil (h : ∀ event ∈ events, event.level ≠ .error) : Traced [] cause events :=
  ⟨events, (List.append_nil _).symm, h⟩

theorem Traced.prepend {earlier : List Event} (h : route.Traced cause events)
    (he : ∀ event ∈ earlier, event.level ≠ .error) : route.Traced cause (earlier ++ events) := by
  obtain ⟨before, rfl, hbefore⟩ := h
  refine ⟨earlier ++ before, (List.append_assoc ..).symm, ?_⟩
  intro event hevent
  rcases List.mem_append.mp hevent with hevent | hevent
  · exact he event hevent
  · exact hbefore event hevent

/-- The message of a step adds its report behind those from inside it. -/
theorem Traced.cons (h : route.Traced cause events) (step : Step) :
    Traced (step :: route) cause
      (events ++ [.fieldFailed cause step.field.name step.owner.item.name]) := by
  obtain ⟨before, rfl, hbefore⟩ := h
  refine ⟨before, ?_, hbefore⟩
  rw [trace_cons, List.append_assoc]

end Route

namespace Context

variable {ctx : Context} {chain : List Place} {m : Located Message} {f : Field} {route : Route}
variable {e : ConversionError}

/-! ### Success -/

/-- A field that converts reports no error, if no message does that it opens. -/
theorem level_ne_error_of_opens {s : Schema}
    (hinside : ∀ t, ctx.Resolves f t → t.place ∉ m.place :: chain →
      (∃ s, (ctx.expand (m.place :: chain) t).outcome = .ok s) →
        ∀ event ∈ (ctx.expand (m.place :: chain) t).events, event.level ≠ .error)
    (hs : (ctx.fieldIn chain m f).outcome = .ok s) :
    ∀ event ∈ (ctx.fieldIn chain m f).events, event.level ≠ .error := by
  intro event hevent
  rcases mem_events_fieldSchema hevent with hlookup | ⟨t, ht, ⟨-, -, rfl⟩ | ⟨hp, hevent⟩⟩
  · exact hlookup.level_ne_error
  · exact Level.noConfusion
  · obtain ⟨s', hs', -⟩ := exists_ok_of_opens ht hp hs
    exact hinside t ht hp ⟨s', hs'⟩ event hevent

/-- A message that converts reports no error. -/
theorem level_ne_error_of_expand (ctx : Context) (chain : List Place) (m : Located Message) :
    (∃ s, (ctx.expand chain m).outcome = .ok s) →
      ∀ event ∈ (ctx.expand chain m).events, event.level ≠ .error := by
  induction chain, m using ctx.expand_induction with
  | step chain m ih =>
      rintro ⟨s, hs⟩ event hevent
      obtain ⟨ps, hps, -⟩ := outcome_expand_eq_ok_iff.mp hs
      have hok := exists_ok_of_outcome_fieldSchemas hps
      rw [events_expand, events_fieldSchemas_of_ok hok] at hevent
      obtain ⟨f, hf, hevent⟩ := List.mem_flatMap.mp hevent
      obtain ⟨node, hnode⟩ := hok f hf
      exact level_ne_error_of_opens (ih f) hnode event hevent

theorem level_ne_error_of_fieldIn {s : Schema} (hs : (ctx.fieldIn chain m f).outcome = .ok s) :
    ∀ event ∈ (ctx.fieldIn chain m f).events, event.level ≠ .error :=
  level_ne_error_of_opens (fun t _ _ => level_ne_error_of_expand ctx _ t) hs

/-! ### Failure -/

/-- A flaw of a message inside a chain before which none comes. -/
def FirstFlawInside (ctx : Context) (chain : List Place) (m : Located Message) (route : Route)
    (e : ConversionError) : Prop :=
  ctx.FlawInside chain m route e ∧
    ∀ route' e', ctx.FlawInside chain m route' e' →
      route'.indices = route.indices ∨ route.Precedes route'

/-- The fields before the first flaw have none, and it is a fault of its first field or the first
flaw of the message that this field opens. -/
theorem FirstFlawInside.exists_field (hm : (m.place :: chain).Nodup)
    (h : ctx.FirstFlawInside chain m route e) :
    ∃ i f rest, route = ⟨m, i, f⟩ :: rest ∧ m.item.fields[i]? = some f ∧
      (∀ j < i, ∀ g, m.item.fields[j]? = some g →
        ∀ rest' e', ¬ ctx.FieldFlaw chain m g rest' e') ∧
      (rest = [] ∧ ctx.Fault (m.place :: chain) m.item f e ∨
        ∃ t, ctx.Resolves f t ∧ t.place ∉ m.place :: chain ∧
          ctx.FirstFlawInside (m.place :: chain) t rest e) := by
  obtain ⟨hflaw, hfirst⟩ := h
  obtain ⟨i, f, rest, rfl, hf, hfield⟩ := (flawInside_iff hm).mp hflaw
  have hlater : ∀ j g rest' e', m.item.fields[j]? = some g →
      ctx.FieldFlaw chain m g rest' e' →
        Route.indices (⟨m, j, g⟩ :: rest') = Route.indices (⟨m, i, f⟩ :: rest) ∨
          Route.Precedes (⟨m, i, f⟩ :: rest) (⟨m, j, g⟩ :: rest') :=
    fun j g rest' e' hg hflaw' =>
      hfirst _ e' ((flawInside_iff hm).mpr ⟨j, g, rest', rfl, hg, hflaw'⟩)
  refine ⟨i, f, rest, rfl, hf, ?_, ?_⟩
  · intro j hj g hg rest' e' hflaw'
    rcases hlater j g rest' e' hg hflaw' with hi | hlt
    · have hji : j = i := (List.cons.inj hi).1
      omega
    · have hij : i < j ∨ i = j ∧ _ := Route.precedes_cons_iff.mp hlt
      omega
  · cases hfield with
    | here h => exact .inl ⟨rfl, h⟩
    | @inside t _ _ ht h =>
        refine .inr ⟨t, ht, h.1.place_not_mem h.2.1, h, ?_⟩
        intro rest' e' hflaw'
        rcases hlater i f rest' e' hf (.inside ht hflaw') with hi | hlt
        · exact .inl (List.cons.inj hi).2
        · rcases Route.precedes_cons_iff.mp hlt with hlt | ⟨-, hlt⟩
          · exact absurd hlt (Nat.lt_irrefl i)
          · exact .inr hlt

/-- A field without flaws converts. -/
theorem exists_ok_of_not_fieldFlaw (hm : (m.place :: chain).Nodup)
    (h : ∀ rest e, ¬ ctx.FieldFlaw chain m f rest e) :
    ∃ s, (ctx.fieldIn chain m f).outcome = .ok s := by
  have hanswer := answers_fieldIn ctx chain m f fun t _ hp =>
    answers_expand ctx (m.place :: chain) t (List.nodup_cons.mpr ⟨hp, hm⟩)
  refine hanswer.exists_ok_iff.mpr ?_
  rintro ⟨rest, e, hflaw⟩
  exact h rest e hflaw

/-- A field with the first flaw fails with it, and its log ends with the reports from inside it. -/
theorem traced_fieldIn {rest : Route}
    (hinside : ∀ t, ctx.Resolves f t → t.place ∉ m.place :: chain →
      ctx.FirstFlawInside (m.place :: chain) t rest e →
        (ctx.expand (m.place :: chain) t).outcome = .error e ∧
          rest.Traced e (ctx.expand (m.place :: chain) t).events)
    (h : rest = [] ∧ ctx.Fault (m.place :: chain) m.item f e ∨
      ∃ t, ctx.Resolves f t ∧ t.place ∉ m.place :: chain ∧
        ctx.FirstFlawInside (m.place :: chain) t rest e) :
    (ctx.fieldIn chain m f).outcome = .error e ∧ rest.Traced e (ctx.fieldIn chain m f).events := by
  rcases h with ⟨rfl, hfault⟩ | ⟨t, ht, hp, hfirst⟩
  · refine ⟨outcome_fieldSchema_of_fault hfault, Route.traced_nil ?_⟩
    intro event hevent
    exact (ofLookup_of_fault hfault hevent).level_ne_error
  · obtain ⟨hout, htraced⟩ := hinside t ht hp hfirst
    constructor
    · rw [fieldIn, outcome_fieldSchema_of_opens ht hp, hout]
      rfl
    · rw [fieldIn, events_fieldSchema_of_opens ht hp]
      apply htraced.prepend
      intro event hevent
      exact (ctx.registry.emits_lookup _ _ event hevent).level_ne_error

/-- A message whose fields before the index `i` convert fails with the field at `i`, and its log
ends with what that field emits and with its report. -/
theorem traced_expand_of_fieldIn {i : Nat} {rest : Route} (hf : m.item.fields[i]? = some f)
    (hearlier : ∀ j < i, ∀ g, m.item.fields[j]? = some g →
      ∃ s, (ctx.fieldIn chain m g).outcome = .ok s)
    (hout : (ctx.fieldIn chain m f).outcome = .error e)
    (htraced : rest.Traced e (ctx.fieldIn chain m f).events) :
    (ctx.expand chain m).outcome = .error e ∧
      Route.Traced (⟨m, i, f⟩ :: rest) e (ctx.expand chain m).events := by
  have hok : ∀ g ∈ m.item.fields.take i, ∃ s, (ctx.fieldIn chain m g).outcome = .ok s := by
    intro g hg
    obtain ⟨j, hj, rfl⟩ := List.mem_take_iff_getElem.mp hg
    exact hearlier j (by omega) _ (List.getElem?_eq_getElem (by omega))
  constructor
  · exact outcome_expand_eq_error_iff.mpr
      (outcome_fieldSchemas_eq_error_iff.mpr ⟨i, f, hf, hout, hearlier⟩)
  · rw [events_expand, events_fieldSchemas_of_error hf hok hout]
    apply (htraced.cons ⟨m, i, f⟩).prepend
    intro event hevent
    obtain ⟨g, hg, hevent⟩ := List.mem_flatMap.mp hevent
    obtain ⟨s, hs⟩ := hok g hg
    exact level_ne_error_of_fieldIn hs event hevent

/-- A message fails with its first flaw, and its log ends with the reports of the steps to it. -/
theorem traced_expand (hm : (m.place :: chain).Nodup) (h : ctx.FirstFlawInside chain m route e) :
    (ctx.expand chain m).outcome = .error e ∧ route.Traced e (ctx.expand chain m).events := by
  induction route generalizing chain m with
  | nil => exact absurd rfl h.1.1.ne_nil
  | cons step rest ih =>
      obtain ⟨i, f, _, heq, hf, hearlier, hstep⟩ := h.exists_field hm
      obtain ⟨rfl, rfl⟩ := List.cons.inj heq
      obtain ⟨hout, htraced⟩ := traced_fieldIn
        (fun t _ hp hfirst => ih (List.nodup_cons.mpr ⟨hp, hm⟩) hfirst) hstep
      refine traced_expand_of_fieldIn hf ?_ hout htraced
      intro j hj g hg
      exact exists_ok_of_not_fieldFlaw hm (hearlier j hj g hg)

/-- A conversion fails with its first flaw, and its log ends with the reports of the steps to it. -/
theorem exists_traced_of_schemaOf (h : (ctx.schemaOf m).outcome = .error e) :
    ∃ route, ctx.Flaw m route e ∧
      (∀ route' e', ctx.Flaw m route' e' → route' = route ∨ route.Precedes route') ∧
      route.Traced e (ctx.schemaOf m).events := by
  obtain ⟨route, hflaw, hfirst⟩ := ((answers_schemaOf ctx m).eq_error_iff e).mp h
  have hinside : ctx.FirstFlawInside [] m route e := by
    refine ⟨flawInside_nil.mpr hflaw, ?_⟩
    intro route' e' hflaw'
    exact (hfirst route' e' (flawInside_nil.mp hflaw')).imp_left (congrArg Route.indices)
  have hm : [m.place].Nodup := List.nodup_singleton _
  exact ⟨route, hflaw, hfirst, (traced_expand hm hinside).2⟩

end Context
end MessageSchema
