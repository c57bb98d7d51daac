import MessageSchema.Proofs.Expansion

/-! # When a conversion fails

A conversion fails exactly when a simple walk from its message ends with a field that cannot be
converted, and it fails with the cause of the first such walk in the order of declaration: walks
are compared by the indices of their fields, earlier fields first
(`Context.outcome_schemaOf_first_flaw`).

The guard against recursion makes the conversion of an inner message depend on the chain of
messages around it.  `Context.FlawInside` is the notion of a flaw for a message inside a chain:
the walk avoids the chain, and what the chain holds counts as inlined. -/

namespace MessageSchema
namespace Context

variable {ctx : Context} {chain : List Place} {m t : Located Message} {f : Field}

/-- A walk from `m` that avoids `chain` and all of whose messages are different, and whose last
field cannot be converted inside these messages and those of `chain`. -/
def FlawInside (ctx : Context) (chain : List Place) (m : Located Message) (route : Route)
    (e : ConversionError) : Prop :=
  ctx.Walk m route ∧ (route.places ++ chain).Nodup ∧
    ∃ last, route.getLast? = some last ∧
      ctx.Fault (route.places ++ chain) last.owner.item last.field e

theorem flawInside_nil {route : Route} {e : ConversionError} :
    ctx.FlawInside [] m route e ↔ ctx.Flaw m route e := by
  rw [FlawInside, List.append_nil]
  rfl

/-- The ways in which a field of `m` fails: by itself, or inside the message that it opens. -/
inductive FieldFlaw (ctx : Context) (chain : List Place) (m : Located Message) (f : Field) :
    Route → ConversionError → Prop where
  | here {e : ConversionError} (h : ctx.Fault (m.place :: chain) m.item f e) :
      FieldFlaw ctx chain m f [] e
  | inside {t : Located Message} {route : Route} {e : ConversionError} (ht : ctx.Resolves f t)
      (h : ctx.FlawInside (m.place :: chain) t route e) : FieldFlaw ctx chain m f route e

/-- A flaw of a message is a flaw of one of its fields. -/
theorem flawInside_iff {route : Route} {e : ConversionError} (hm : (m.place :: chain).Nodup) :
    ctx.FlawInside chain m route e ↔
      ∃ i f rest, route = ⟨m, i, f⟩ :: rest ∧ m.item.fields[i]? = some f ∧
        ctx.FieldFlaw chain m f rest e := by
  show ctx.EndsInside (fun inlined step => ctx.Fault inlined step.owner.item step.field e) chain m
    route ↔ _
  rw [endsInside_iff (fun _ _ _ hp h => h.congr hp) hm]
  constructor
  · rintro ⟨i, f, rest, rfl, hf, ⟨rfl, h⟩ | ⟨t, ht, h⟩⟩
    · exact ⟨i, f, [], rfl, hf, .here h⟩
    · exact ⟨i, f, rest, rfl, hf, .inside ht h⟩
  · rintro ⟨i, f, rest, rfl, hf, hflaw⟩
    cases hflaw with
    | here h => exact ⟨i, f, [], rfl, hf, .inl ⟨rfl, h⟩⟩
    | inside ht h => exact ⟨i, f, rest, rfl, hf, .inr ⟨_, ht, h⟩⟩

/-! ### The first flaw counts -/

/-- The outcome is a success if there is no flaw, and else the cause of the first flaw. -/
def Answers {α : Type} (flaw : Route → ConversionError → Prop) :
    Except ConversionError α → Prop
  | .ok _ => ∀ route e, ¬ flaw route e
  | .error e =>
      ∃ route, flaw route e ∧
        ∀ route' e', flaw route' e' → route'.indices = route.indices ∨ route.Precedes route'

theorem Answers.map {α β : Type} {flaw : Route → ConversionError → Prop}
    {x : Except ConversionError α} (g : α → β) (h : Answers flaw x) : Answers flaw (g <$> x) := by
  cases x with
  | ok a => exact h
  | error e => exact h

theorem Answers.congr {α : Type} {flaw flaw' : Route → ConversionError → Prop}
    {x : Except ConversionError α} (hf : ∀ route e, flaw route e ↔ flaw' route e)
    (h : Answers flaw x) : Answers flaw' x := by
  obtain rfl : flaw = flaw' := by
    funext route e
    exact propext (hf route e)
  exact h

theorem Answers.exists_ok_iff {α : Type} {flaw : Route → ConversionError → Prop}
    {x : Except ConversionError α} (h : Answers flaw x) :
    (∃ a, x = .ok a) ↔ ¬ ∃ route e, flaw route e := by
  cases x with
  | ok a =>
      refine ⟨?_, fun _ => ⟨a, rfl⟩⟩
      rintro _ ⟨route, e, hflaw⟩
      exact h route e hflaw
  | error e =>
      obtain ⟨route, hflaw, _⟩ := h
      constructor
      · rintro ⟨a, ha⟩
        cases ha
      · intro hnone
        exact absurd ⟨route, e, hflaw⟩ hnone

theorem Answers.eq_error_iff {α : Type} {x : Except ConversionError α}
    (h : Answers (ctx.Flaw m) x) (e : ConversionError) :
    x = .error e ↔ ∃ route, ctx.Flaw m route e ∧
      ∀ route' e', ctx.Flaw m route' e' → route' = route ∨ route.Precedes route' := by
  cases x with
  | ok a =>
      constructor
      · intro he
        cases he
      · rintro ⟨route, hflaw, _⟩
        exact absurd hflaw (h route e)
  | error cause =>
      obtain ⟨route, hflaw, hfirst⟩ := h
      constructor
      · intro he
        obtain rfl := Except.error.inj he
        refine ⟨route, hflaw, ?_⟩
        intro route' e' hflaw'
        exact (hfirst route' e' hflaw').imp_left fun hi => (hflaw'.eq_of_indices hflaw hi).1
      · -- of two first flaws neither precedes the other
        rintro ⟨route', hflaw', hfirst'⟩
        rcases hfirst route' e hflaw' with hi | hlt
        · rw [(hflaw'.eq_of_indices hflaw hi).2]
        · rcases hfirst' route cause hflaw with rfl | hlt'
          · exact absurd hlt hlt.asymm
          · exact absurd hlt' hlt.asymm

/-- A field is answered if the messages that it can open are. -/
theorem answers_fieldIn (ctx : Context) (chain : List Place) (m : Located Message) (f : Field)
    (hopen : ∀ t, ctx.Resolves f t → t.place ∉ m.place :: chain →
      Answers (ctx.FlawInside (m.place :: chain) t) (ctx.expand (m.place :: chain) t).outcome) :
    Answers (ctx.FieldFlaw chain m f) (ctx.fieldIn chain m f).outcome := by
  cases ctx.course (m.place :: chain) m.item f with
  | fault e h =>
      rw [fieldIn, outcome_fieldSchema_of_fault h]
      refine ⟨[], .here h, ?_⟩
      intro route' e' _
      cases route' with
      | nil => exact .inl rfl
      | cons _ _ => exact .inr .nil
  | leaf type s ht hs =>
      rw [fieldIn, outcome_fieldSchema_of_leaf ht hs]
      intro route e hflaw
      cases hflaw with
      | here h => exact h.not_leaf? ht hs
      | inside hr _ => exact Field.not_refers_of_leaf? ht hs hr.1
  | cut t ht hp hl =>
      rw [fieldIn, outcome_fieldSchema_of_cut ht hp hl]
      intro route e hflaw
      cases hflaw with
      | here h => exact hl (h.recursion ht).1
      | inside ht' h =>
          obtain rfl := ht.unique ht'
          exact h.1.place_not_mem h.2.1 hp
  | opens t ht hp =>
      rw [fieldIn, outcome_fieldSchema_of_opens ht hp]
      refine Answers.map _ ((hopen t ht hp).congr fun route e => ⟨.inside ht, ?_⟩)
      intro hflaw
      cases hflaw with
      | here h => exact absurd (h.recursion ht).2 hp
      | inside ht' h =>
          obtain rfl := ht.unique ht'
          exact h

/-- A message is answered if its fields are. -/
theorem answers_expand_of_fields (hm : (m.place :: chain).Nodup)
    (hfields : ∀ f, Answers (ctx.FieldFlaw chain m f) (ctx.fieldIn chain m f).outcome) :
    Answers (ctx.FlawInside chain m) (ctx.expand chain m).outcome := by
  cases hout : (ctx.expand chain m).outcome with
  | error e =>
      obtain ⟨i, f, hf, he, hbefore⟩ :=
        outcome_fieldSchemas_eq_error_iff.mp (outcome_expand_eq_error_iff.mp hout)
      have hanswer := hfields f
      rw [he] at hanswer
      obtain ⟨rest, hflaw, hfirst⟩ := hanswer
      refine ⟨⟨m, i, f⟩ :: rest, (flawInside_iff hm).mpr ⟨i, f, rest, rfl, hf, hflaw⟩, ?_⟩
      intro route' e' hflaw'
      obtain ⟨j, g, rest', rfl, hg, hgflaw⟩ := (flawInside_iff hm).mp hflaw'
      -- the flaws of the fields before `i` are excluded, since these fields succeed
      rcases Nat.lt_trichotomy i j with hij | rfl | hji
      · exact .inr (.rel hij)
      · obtain rfl := Option.some.inj (hf.symm.trans hg)
        rcases hfirst rest' e' hgflaw with heq | hlt
        · exact .inl (congrArg (i :: ·) heq)
        · exact .inr (.cons hlt)
      · obtain ⟨s, hs⟩ := hbefore j hji g hg
        have hnone := hfields g
        rw [hs] at hnone
        exact absurd hgflaw (hnone rest' e')
  | ok s =>
      intro route e hflaw
      obtain ⟨i, f, rest, rfl, hf, hfflaw⟩ := (flawInside_iff hm).mp hflaw
      obtain ⟨ps, hps, -⟩ := outcome_expand_eq_ok_iff.mp hout
      obtain ⟨_, hs⟩ := exists_ok_of_outcome_fieldSchemas hps f (List.mem_of_getElem? hf)
      have hnone := hfields f
      rw [hs] at hnone
      exact hnone rest e hfflaw

/-- Inside every chain, the conversion of a message off the chain is answered by its flaws. -/
theorem answers_expand (ctx : Context) (chain : List Place) (m : Located Message) :
    (m.place :: chain).Nodup → Answers (ctx.FlawInside chain m) (ctx.expand chain m).outcome := by
  induction chain, m using ctx.expand_induction with
  | step chain m ih =>
      intro hm
      apply answers_expand_of_fields hm
      intro f
      apply answers_fieldIn
      intro t ht hp
      exact ih f t ht hp (List.nodup_cons.mpr ⟨hp, hm⟩)

theorem answers_schemaOf (ctx : Context) (m : Located Message) :
    Answers (ctx.Flaw m) (ctx.schemaOf m).outcome :=
  (answers_expand ctx [] m (by simp)).congr fun _ _ => flawInside_nil

/-- A conversion succeeds if and only if no simple walk from its message has a flaw, and otherwise
fails with the cause of the flaw that comes first in the order of declaration. -/
theorem outcome_schemaOf_first_flaw (ctx : Context) (m : Located Message) :
    ((∃ s, (ctx.schemaOf m).outcome = .ok s) ↔ ¬ ∃ route e, ctx.Flaw m route e) ∧
    ∀ e, (ctx.schemaOf m).outcome = .error e ↔
      ∃ route, ctx.Flaw m route e ∧
        ∀ route' e', ctx.Flaw m route' e' → route' = route ∨ route.Precedes route' :=
  ⟨(answers_schemaOf ctx m).exists_ok_iff, (answers_schemaOf ctx m).eq_error_iff⟩

end Context
end MessageSchema
