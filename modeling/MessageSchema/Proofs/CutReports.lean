import MessageSchema.Proofs.Composition

/-! # The reports of cut references

A reference that is cut is the end of a simple walk: its field, which is not required, leads back to
a message of the walk.  The conversion of a message comes along every such walk once, in the order
of declaration, and reports the cut at its end.

That the reports are complete is proved with the expansion: the walks of a message are those of its
fields, field after field (`Context.reported_expand`).  So a conversion is silent if and only if no
cycle can be reached; for a cycle need not be simple nor begin at the message, but every walk that
leads back to itself passes the end of a simple one (`Context.Walk.exists_return`).

Main statement: `Context.warnings_enumerate_cuts`. -/

namespace MessageSchema

/-- The report that the reference of the field is cut. -/
def Step.cutReport (step : Step) : Event :=
  .referenceCut step.field.name step.owner.item.name step.field.typeName

/-- The report of a cut at the end of a route. -/
def Route.cutReport? (route : Route) : Option Event := route.getLast?.map Step.cutReport

/-- The events report the cuts of the routes that `cut` holds of, once each, in the order of
declaration. -/
def Reported (cut : Route → Prop) (warnings : List Event) : Prop :=
  ∃ routes : List Route, routes.Pairwise Route.Precedes ∧ (∀ route, route ∈ routes ↔ cut route) ∧
    warnings.map some = routes.map Route.cutReport?

theorem Reported.congr {cut cut' : Route → Prop} {warnings : List Event}
    (h : ∀ route, cut route ↔ cut' route) (hr : Reported cut warnings) :
    Reported cut' warnings := by
  obtain rfl : cut = cut' := funext fun route => propext (h route)
  exact hr

theorem Reported.eq_nil_iff {cut : Route → Prop} {warnings : List Event}
    (h : Reported cut warnings) : warnings = [] ↔ ¬ ∃ route, cut route := by
  obtain ⟨routes, -, hroutes, hreports⟩ := h
  have hlength : warnings.length = routes.length := by simpa using congrArg List.length hreports
  rw [← List.length_eq_zero_iff, hlength, List.length_eq_zero_iff, List.eq_nil_iff_forall_not_mem,
    not_exists]
  simp only [hroutes]

namespace Context

variable {ctx : Context} {chain : List Place} {m t : Located Message} {f : Field}
variable {route : Route}

/-- The field is not required and leads back to one of the messages at the places `inlined`. -/
def Returns (ctx : Context) (inlined : List Place) (f : Field) : Prop :=
  f.label ≠ .required ∧ ∃ t, ctx.Resolves f t ∧ t.place ∈ inlined

/-- A simple walk from `m` whose last field is not required and leads back to a message on it. -/
def Cut (ctx : Context) (m : Located Message) (route : Route) : Prop :=
  ctx.Walk m route ∧ route.Simple ∧
    ∃ last, route.getLast? = some last ∧ ctx.Returns route.places last.field

/-- The walk from `m` avoids `chain`, all of its messages are different, and its last field is not
required and leads back to one of these messages or into the chain. -/
def CutInside (ctx : Context) (chain : List Place) (m : Located Message) (route : Route) : Prop :=
  ctx.EndsInside (fun inlined step => ctx.Returns inlined step.field) chain m route

theorem cutInside_nil : ctx.CutInside [] m route ↔ ctx.Cut m route := by
  rw [CutInside, EndsInside, List.append_nil]
  rfl

theorem Returns.congr {inlined inlined' : List Place} (hp : ∀ p, p ∈ inlined ↔ p ∈ inlined')
    (h : ctx.Returns inlined f) : ctx.Returns inlined' f := by
  obtain ⟨hl, t, ht, hmem⟩ := h
  exact ⟨hl, t, ht, (hp _).mp hmem⟩

/-- The ways in which a field of `m` comes to a cut: by itself, or inside the message that it
opens. -/
def FieldCut (ctx : Context) (chain : List Place) (m : Located Message) (f : Field)
    (rest : Route) : Prop :=
  rest = [] ∧ ctx.Returns (m.place :: chain) f ∨
    ∃ t, ctx.Resolves f t ∧ ctx.CutInside (m.place :: chain) t rest

theorem cutInside_iff (hm : (m.place :: chain).Nodup) :
    ctx.CutInside chain m route ↔
      ∃ i f rest, route = ⟨m, i, f⟩ :: rest ∧ m.item.fields[i]? = some f ∧
        ctx.FieldCut chain m f rest :=
  endsInside_iff (fun _ _ _ => Returns.congr) hm

/-! ### The warnings of one field -/

/-- The warnings among the events of a conversion. -/
def warnings {α : Type} (x : Conversion α) : List Event := x.events.filter (·.level = .warn)

theorem warnings_fieldIn_of_cut (ht : ctx.Resolves f t) (hp : t.place ∈ m.place :: chain)
    (hl : f.label ≠ .required) (i : Nat) :
    warnings (ctx.fieldIn chain m f) = [Step.cutReport ⟨m, i, f⟩] := by
  rw [warnings, fieldIn, events_fieldSchema_of_cut ht hp hl, List.filter_append,
    Registry.filter_level_lookup _ _ _ (by decide)]
  rfl

theorem warnings_fieldIn_of_opens (ht : ctx.Resolves f t) (hp : t.place ∉ m.place :: chain) :
    warnings (ctx.fieldIn chain m f) = warnings (ctx.expand (m.place :: chain) t) := by
  rw [warnings, fieldIn, events_fieldSchema_of_opens ht hp, List.filter_append,
    Registry.filter_level_lookup _ _ _ (by decide)]
  rfl

/-- The routes on which a field comes to a cut, without the field itself, and the reports of their
cuts. -/
theorem exists_rests_fieldIn {node : Schema} (hnode : (ctx.fieldIn chain m f).outcome = .ok node)
    (hopen : ∀ t, ctx.Resolves f t → t.place ∉ m.place :: chain →
      (∃ s, (ctx.expand (m.place :: chain) t).outcome = .ok s) →
        Reported (ctx.CutInside (m.place :: chain) t)
          (warnings (ctx.expand (m.place :: chain) t))) :
    ∃ rests : List Route, rests.Pairwise Route.Precedes ∧
      (∀ rest, rest ∈ rests ↔ ctx.FieldCut chain m f rest) ∧
      ∀ i, (warnings (ctx.fieldIn chain m f)).map some =
        rests.map fun rest => Route.cutReport? (⟨m, i, f⟩ :: rest) := by
  cases ctx.course (m.place :: chain) m.item f with
  | fault e h =>
      rw [fieldIn, outcome_fieldSchema_of_fault h] at hnode
      cases hnode
  | leaf type s ht hs =>
      refine ⟨[], .nil, ?_, ?_⟩
      · intro rest
        refine iff_of_false List.not_mem_nil ?_
        rintro (⟨-, -, t, hr, -⟩ | ⟨t, hr, -⟩) <;> exact Field.not_refers_of_leaf? ht hs hr.1
      · intro i
        rw [warnings, fieldIn, events_fieldSchema_of_leaf ht hs]
        rfl
  | cut t ht hp hl =>
      refine ⟨[[]], List.pairwise_singleton _ _, ?_, ?_⟩
      · intro rest
        rw [List.mem_singleton]
        constructor
        · rintro rfl
          exact .inl ⟨rfl, hl, t, ht, hp⟩
        · rintro (⟨hrest, -⟩ | ⟨t', ht', hinside⟩)
          · exact hrest
          · obtain rfl := ht.unique ht'
            exact absurd hp (hinside.1.place_not_mem hinside.2.1)
      · intro i
        rw [warnings_fieldIn_of_cut ht hp hl i]
        rfl
  | opens t ht hp =>
      obtain ⟨s, hs, -⟩ := exists_ok_of_opens ht hp hnode
      obtain ⟨routes, hsorted, hroutes, hreports⟩ := hopen t ht hp ⟨s, hs⟩
      have hcut : ∀ rest, rest ∈ routes ↔ ctx.FieldCut chain m f rest := by
        intro rest
        rw [hroutes]
        constructor
        · exact fun hinside => .inr ⟨t, ht, hinside⟩
        · rintro (⟨-, -, t', ht', hp'⟩ | ⟨t', ht', hinside⟩)
          · obtain rfl := ht.unique ht'
            exact absurd hp' hp
          · obtain rfl := ht.unique ht'
            exact hinside
      refine ⟨routes, hsorted, hcut, fun i => ?_⟩
      rw [warnings_fieldIn_of_opens ht hp, hreports]
      apply List.map_congr_left
      intro rest hrest
      rw [Route.cutReport?, Route.cutReport?,
        List.getLast?_cons_of_ne_nil ((hroutes rest).mp hrest).1.ne_nil]

/-! ### The warnings of a message -/

theorem warnings_expand (hok : ∀ f ∈ m.item.fields, ∃ s, (ctx.fieldIn chain m f).outcome = .ok s) :
    warnings (ctx.expand chain m) =
      m.item.fields.flatMap fun f => warnings (ctx.fieldIn chain m f) := by
  rw [warnings, events_expand, events_fieldSchemas_of_ok hok, List.filter_flatMap]
  rfl

/-- The routes of all fields, field after field, are in the order of declaration. -/
theorem pairwise_precedes_flatMap {fields : List Field} {rests : Field → List Route}
    (h : ∀ f ∈ fields, (rests f).Pairwise Route.Precedes) :
    (fields.zipIdx.flatMap fun e => (rests e.1).map (⟨m, e.2, e.1⟩ :: ·)).Pairwise
      Route.Precedes := by
  rw [List.pairwise_flatMap]
  constructor
  · rintro ⟨f, i⟩ hf
    rw [List.pairwise_map]
    refine (h f (List.mem_of_getElem? (List.mem_zipIdx_iff_getElem?.mp hf))).imp ?_
    intro rest rest' hlt
    exact Route.precedes_cons_iff.mpr (.inr ⟨rfl, hlt⟩)
  · rw [List.pairwise_iff_getElem]
    intro i j hi hj hij route hroute route' hroute'
    obtain ⟨rest, -, rfl⟩ := List.mem_map.mp hroute
    obtain ⟨rest', -, rfl⟩ := List.mem_map.mp hroute'
    refine Route.precedes_cons_iff.mpr (.inl ?_)
    simpa using hij

/-- A message that converts reports the cuts of its walks. -/
theorem reported_expand (ctx : Context) (chain : List Place) (m : Located Message) :
    (m.place :: chain).Nodup → (∃ s, (ctx.expand chain m).outcome = .ok s) →
      Reported (ctx.CutInside chain m) (warnings (ctx.expand chain m)) := by
  induction chain, m using ctx.expand_induction with
  | step chain m ih =>
      rintro hm ⟨s, hs⟩
      obtain ⟨ps, hps, -⟩ := outcome_expand_eq_ok_iff.mp hs
      have hok := exists_ok_of_outcome_fieldSchemas hps
      have hrests : ∀ f, ∃ rests : List Route, f ∈ m.item.fields →
          rests.Pairwise Route.Precedes ∧ (∀ rest, rest ∈ rests ↔ ctx.FieldCut chain m f rest) ∧
          ∀ i, (warnings (ctx.fieldIn chain m f)).map some =
            rests.map fun rest => Route.cutReport? (⟨m, i, f⟩ :: rest) := by
        intro f
        by_cases hf : f ∈ m.item.fields
        · obtain ⟨node, hnode⟩ := hok f hf
          obtain ⟨rests, hr⟩ := exists_rests_fieldIn hnode fun t ht hp =>
            ih f t ht hp (List.nodup_cons.mpr ⟨hp, hm⟩)
          exact ⟨rests, fun _ => hr⟩
        · exact ⟨[], fun hf' => absurd hf' hf⟩
      choose rests hrests using hrests
      refine ⟨m.item.fields.zipIdx.flatMap fun e => (rests e.1).map (⟨m, e.2, e.1⟩ :: ·),
        pairwise_precedes_flatMap fun f hf => (hrests f hf).1, ?_, ?_⟩
      · intro route
        rw [cutInside_iff hm, List.mem_flatMap]
        constructor
        · rintro ⟨⟨f, i⟩, he, hroute⟩
          have hf := List.mem_zipIdx_iff_getElem?.mp he
          obtain ⟨rest, hrest, rfl⟩ := List.mem_map.mp hroute
          exact ⟨i, f, rest, rfl, hf, ((hrests f (List.mem_of_getElem? hf)).2.1 rest).mp hrest⟩
        · rintro ⟨i, f, rest, rfl, hf, hcut⟩
          refine ⟨⟨f, i⟩, List.mem_zipIdx_iff_getElem?.mpr hf, List.mem_map_of_mem ?_⟩
          exact ((hrests f (List.mem_of_getElem? hf)).2.1 rest).mpr hcut
      · have hfields :
            m.item.fields.flatMap (fun f => (warnings (ctx.fieldIn chain m f)).map some) =
              m.item.fields.zipIdx.flatMap fun e =>
                (warnings (ctx.fieldIn chain m e.1)).map some := by
          conv_lhs => rw [← List.zipIdx_map_fst 0 m.item.fields, List.flatMap_map]
        rw [warnings_expand hok, List.map_flatMap, hfields, List.map_flatMap]
        apply List.flatMap_congr
        rintro ⟨f, i⟩ he
        have hf := List.mem_of_getElem? (List.mem_zipIdx_iff_getElem?.mp he)
        rw [(hrests f hf).2.2 i, List.map_map]
        rfl

/-! ### Walks that lead back to themselves -/

/-- A walk that leads back to itself or into the chain passes the end of a simple one that does. -/
theorem Walk.exists_return {last : Step} (hw : ctx.Walk m route) (hm : (m.place :: chain).Nodup)
    (hlast : route.getLast? = some last) (ht : ctx.Resolves last.field t)
    (hp : t.place ∈ route.places ++ chain) :
    ∃ route', ctx.EndsInside
      (fun inlined step => ∃ t, ctx.Resolves step.field t ∧ t.place ∈ inlined) chain m route' := by
  induction hw generalizing chain with
  | last hf =>
      obtain rfl := Option.some.inj hlast
      exact ⟨_, .last hf, hm, _, rfl, t, ht, hp⟩
  | @step m c i f rest hf hc hw ih =>
      by_cases hback : c.place ∈ m.place :: chain
      · exact ⟨[⟨m, i, f⟩], .last hf, hm, _, rfl, c, hc, hback⟩
      · rw [List.getLast?_cons_of_ne_nil hw.ne_nil] at hlast
        obtain ⟨rest', hrest'⟩ := ih (List.nodup_cons.mpr ⟨hback, hm⟩) hlast
          ((Route.places_perm m i f rest chain).mem_iff.mpr hp)
        refine ⟨⟨m, i, f⟩ :: rest', (endsInside_step ?_ hf hc hrest'.1).mpr hrest'⟩
        rintro inlined inlined' step hmem ⟨t, ht, hp⟩
        exact ⟨t, ht, (hmem _).mp hp⟩

/-- If a message converts, a cut on a walk from it is the same as a cycle that it reaches. -/
theorem acyclic_iff_not_cut {s : Schema} (hs : (ctx.schemaOf m).outcome = .ok s) :
    ctx.Acyclic m ↔ ¬ ∃ route, ctx.Cut m route := by
  constructor
  · rintro hacyclic ⟨route, hw, hn, last, hlast, -, t, ht, hp⟩
    obtain ⟨d, part, hreach, hcycle, -⟩ := hw.exists_cycle hn hlast ht hp
    exact hacyclic d hreach part hcycle
  · rintro hnone d hreach part ⟨hpart, last, t, hlast, ht, hp⟩
    obtain ⟨before, hw⟩ := hreach.exists_walk hpart
    have hlast' : (before ++ part).getLast? = some last := by
      rw [List.getLast?_append_of_ne_nil _ hpart.ne_nil, hlast]
    have hback : t.place ∈ Route.places (before ++ part) ++ [] := by
      rw [hp, List.append_nil, Route.places, List.map_append]
      exact List.mem_append_right _ hpart.place_mem
    obtain ⟨route, hw', hn, last', hend, t', ht', hp'⟩ :=
      hw.exists_return (List.nodup_singleton _) hlast' ht hback
    rw [List.append_nil] at hn hp'
    -- a required field that leads back would be a flaw
    have hl : last'.field.label ≠ .required := by
      intro hl
      have hanswer := ctx.answers_schemaOf m
      rw [hs] at hanswer
      exact hanswer route _ ⟨hw', hn, last', hend, .recursive ht' hl hp'⟩
    exact hnone ⟨route, hw', hn, last', hend, hl, t', ht', hp'⟩

/-- The warnings of a conversion that succeeds are, in order, one for each simple walk whose last
field is not required and leads back to a message on the walk: walks are in the order of
declaration, and the warning names the last field, the message that declares it, and its type name.
So there is no warning if and only if no cycle can be reached from the message. -/
theorem warnings_enumerate_cuts {s : Schema} (hs : (ctx.schemaOf m).outcome = .ok s) :
    (∃ routes : List Route, routes.Pairwise Route.Precedes ∧
      (∀ route, route ∈ routes ↔ ctx.Cut m route) ∧
      List.Forall₂ (fun route event => ∃ last, route.getLast? = some last ∧
        event.shown = (.warn, "recursive message type is not expanded again",
          [("field", .quoted last.field.name), ("message", .quoted last.owner.item.name),
            ("type_name", .quoted last.field.typeName)]))
        routes ((ctx.schemaOf m).events.filter (·.level = .warn))) ∧
    ((∀ event ∈ (ctx.schemaOf m).events, event.level ≠ .warn) ↔ ctx.Acyclic m) := by
  have hreported := (reported_expand ctx [] m (List.nodup_singleton _) ⟨s, hs⟩).congr
    fun _ => cutInside_nil
  constructor
  · obtain ⟨routes, hsorted, hroutes, hreports⟩ := hreported
    refine ⟨routes, hsorted, hroutes, ?_⟩
    have hforall : List.Forall₂ (fun x y => x = y) (routes.map Route.cutReport?)
        ((warnings (ctx.schemaOf m)).map some) := by
      rw [List.forall₂_eq_eq_eq]
      exact hreports.symm
    rw [List.forall₂_map_left_iff, List.forall₂_map_right_iff] at hforall
    refine hforall.imp ?_
    intro route event hevent
    obtain ⟨last, hlast, rfl⟩ := Option.map_eq_some_iff.mp hevent
    exact ⟨last, hlast, rfl⟩
  · rw [acyclic_iff_not_cut hs, ← hreported.eq_nil_iff, warnings, List.filter_eq_nil_iff]
    simp only [decide_eq_true_eq]
    rfl

/-- A link converts although it leads back to itself by its page: there is one walk on which the
link is cut, and it is reported. -/
theorem LinkTypes.cuts_link :
    (∃ route, (∀ route', context.Cut link route' ↔ route' = route) ∧
      (context.schemaOf link).events.filter (·.level = .warn) =
        [.referenceCut "next" "Page" ".Link"]) ∧
    ¬ context.Acyclic link := by
  have hwarnings : (context.schemaOf link).events.filter (·.level = .warn) =
      [.referenceCut "next" "Page" ".Link"] := by cbv
  have hs : (context.schemaOf link).outcome = .ok (context.objectWith
      [("source", { Schema.object (some false) with
        properties := [("next", Schema.object (some true))] })]) := by cbv
  obtain ⟨⟨routes, -, hroutes, hreports⟩, hsilent⟩ := warnings_enumerate_cuts hs
  rw [hwarnings] at hreports
  obtain ⟨route, rfl⟩ := List.length_eq_one_iff.mp hreports.length_eq
  refine ⟨⟨route, ?_, hwarnings⟩, ?_⟩
  · intro route'
    rw [← hroutes, List.mem_singleton]
  · rw [← hsilent]
    intro hnone
    have hmem : Event.referenceCut "next" "Page" ".Link" ∈
        (context.schemaOf link).events.filter (·.level = .warn) := by
      rw [hwarnings]
      exact List.mem_singleton.mpr rfl
    exact hnone _ (List.mem_of_mem_filter hmem) rfl

end Context
end MessageSchema
