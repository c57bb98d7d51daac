import MessageSchema.Proofs.AdditionalProperties
import MessageSchema.Proofs.Cycles
import MessageSchema.Proofs.Depth
import MessageSchema.Proofs.Events

/-! # Inlining is compositional

The chain of messages around a message matters to its expansion only through the messages that
fields lead to from it (`Context.expand_congr`).  So a message from which no field leads to the
chain has one schema, which stands wherever the message is referred to, however often.

`Context.expandFreely` is the expansion without the guard against recursion, by recursion on a depth
and with a conversion given beforehand for calls that come too deep.  If no cycle can be reached
from a message, the messages in expansion are different even without the guard, so the free
expansion does not come deeper than the number of messages in the registry and is the conversion of
the message (`Context.expandFreely_eq_expand`).

Main statement: a message from which no field leads to the chain is expanded as if it stood alone,
so that every reference to it takes over its own schema; and where no cycle can be reached the guard
makes no difference (`Context.expand_compositional`). -/

namespace MessageSchema
namespace Context

variable {ctx : Context} {chain chain' inlined inlined' : List Place} {owner : Message} {f : Field}
variable {m d t r : Located Message} {s : Schema} {route : Route}

/-! ### What the chain matters to -/

theorem lift_bind_congr {α β : Type} {x : Logged α} {g g' : α → Conversion β}
    (h : g x.value = g' x.value) : (ExceptT.lift x >>= g) = ExceptT.lift x >>= g' := by
  show ExceptT.run _ = ExceptT.run _
  rw [ExceptT.run_bind_lift, ExceptT.run_bind_lift]
  show Logged.mk (g x.value).run.value (x.events ++ (g x.value).run.events) = _
  rw [h]
  rfl

/-- The conversion of a field depends on the messages around it only as far as the message is among
them to which the field leads. -/
theorem fieldSchema_congr {k k' : Located Message → Conversion Schema}
    (hp : ∀ t, ctx.Resolves f t → (t.place ∈ inlined ↔ t.place ∈ inlined'))
    (hk : ∀ t, ctx.Resolves f t → t.place ∉ inlined → k t = k' t) :
    ctx.fieldSchema inlined owner f (fun t _ _ => k t) =
      ctx.fieldSchema inlined' owner f (fun t _ _ => k' t) := by
  by_cases hr : f.Refers
  · rw [fieldSchema_of_refers hr, fieldSchema_of_refers hr]
    apply lift_bind_congr
    cases hl : (ctx.registry.lookup ctx.package f.typeName).value with
    | none => rfl
    | some t =>
        have ht : ctx.Resolves f t := ⟨hr, hl⟩
        by_cases hc : t.place ∈ inlined
        · simp only [if_pos hc, if_pos ((hp t ht).mp hc)]
        · simp only [if_neg hc, if_neg fun h => hc ((hp t ht).mpr h), hk t ht hc]
  · obtain ⟨x, hx⟩ := exists_fieldSchema_of_not_refers ctx owner hr
    rw [hx, hx]

theorem fieldSchemas_congr {convert convert' : Field → Conversion Schema} {ps : Entries Schema}
    {fields : List Field} (h : ∀ f ∈ fields, convert f = convert' f) :
    fieldSchemas owner convert ps fields = fieldSchemas owner convert' ps fields := by
  induction fields generalizing ps with
  | nil => rfl
  | cons f rest ih =>
      rw [fieldSchemas, fieldSchemas, h f List.mem_cons_self]
      congr 1
      funext s
      exact ih fun g hg => h g (List.mem_cons_of_mem _ hg)

/-- Expansions inside two chains are the same if the chains agree on all messages to which fields
lead. -/
theorem expand_congr (h : ∀ d, ctx.Reaches m d → (d.place ∈ chain ↔ d.place ∈ chain')) :
    ctx.expand chain m = ctx.expand chain' m := by
  induction chain, m using ctx.expand_induction generalizing chain' with
  | step chain m ih =>
      have hcons : ∀ d, ctx.Reaches m d →
          (d.place ∈ m.place :: chain ↔ d.place ∈ m.place :: chain') := by
        intro d hd
        rw [List.mem_cons, List.mem_cons, h d hd]
      rw [expand_eq, expand_eq]
      congr 1
      apply fieldSchemas_congr
      intro f hf
      have hreach : ∀ t, ctx.Resolves f t → ∀ d, ctx.Reaches t d → ctx.Reaches m d :=
        fun t ht d hd => .head ⟨f, hf, ht⟩ hd
      apply fieldSchema_congr
      · intro t ht
        exact hcons t (hreach t ht t .refl)
      · intro t ht hp
        exact ih f t ht hp fun d hd => hcons d (hreach t ht d hd)

/-- A message from which no field leads to the chain is expanded as if it stood alone. -/
theorem expand_eq_schemaOf (h : ∀ d, ctx.Reaches r d → d.place ∉ chain) :
    ctx.expand chain r = ctx.schemaOf r :=
  expand_congr fun d hd => iff_of_false (h d hd) List.not_mem_nil

theorem outcome_fieldIn_of_avoids (hr : ctx.Resolves f r)
    (h : ∀ d, ctx.Reaches r d → d.place ∉ m.place :: chain) :
    (ctx.fieldIn chain m f).outcome = f.label.ofExpanded <$> (ctx.schemaOf r).outcome := by
  rw [fieldIn, outcome_fieldSchema_of_opens hr (h r .refl), expand_eq_schemaOf h]

theorem events_fieldIn_of_avoids (hr : ctx.Resolves f r)
    (h : ∀ d, ctx.Reaches r d → d.place ∉ m.place :: chain) :
    (ctx.fieldIn chain m f).events =
      (ctx.registry.lookup ctx.package f.typeName).events ++ (ctx.schemaOf r).events := by
  rw [fieldIn, events_fieldSchema_of_opens hr (h r .refl), expand_eq_schemaOf h]

/-! ### Standalone schemas inside a document -/

/-- The last field of a name stands in the schema as the property of that name. -/
theorem exists_property_of_lastField? (hs : (ctx.expand chain m).outcome = .ok s)
    (hf : m.item.lastField? f.name = some f) :
    ∃ node, (ctx.fieldIn chain m f).outcome = .ok node ∧
      Entries.get? f.name s.entered.properties = some node := by
  obtain ⟨ps, hps, rfl⟩ := outcome_expand_eq_ok_iff.mp hs
  have hmem : f ∈ m.item.fields := List.mem_reverse.mp (List.mem_of_find?_eq_some hf)
  obtain ⟨node, hnode⟩ := exists_ok_of_outcome_fieldSchemas hps f hmem
  exact ⟨node, hnode, (get?_of_outcome_fieldSchemas_last hps).mpr ⟨f, hf, hnode⟩⟩

/-- At the end of a walk that avoids the chain stands the schema of the message to which its last
field leads, if no field leads from there to the walk or to the chain. -/
theorem Walk.exists_schemaOf {last : Step} (hw : ctx.Walk m route)
    (hs : (ctx.expand chain m).outcome = .ok s) (hn : (route.places ++ chain).Nodup)
    (htakes : route.TakesLast) (hlast : route.getLast? = some last)
    (hr : ctx.Resolves last.field r)
    (h : ∀ d, ctx.Reaches r d → d.place ∉ route.places ++ chain) :
    ∃ sr, (ctx.schemaOf r).outcome = .ok sr ∧
      s.node? route.names = some (last.field.label.ofExpanded sr) := by
  induction hw generalizing chain s with
  | @last m i f hf =>
      obtain rfl := Option.some.inj hlast
      obtain ⟨node, hnode, hget⟩ := exists_property_of_lastField? hs (htakes _ List.mem_cons_self)
      have hschema : (ctx.fieldIn chain m f).outcome = _ := outcome_fieldIn_of_avoids hr h
      rw [hnode] at hschema
      cases hsr : (ctx.schemaOf r).outcome with
      | error e =>
          rw [hsr] at hschema
          cases hschema
      | ok sr =>
          rw [hsr] at hschema
          obtain rfl := Except.ok.inj hschema
          refine ⟨sr, rfl, ?_⟩
          show (Entries.get? f.name s.entered.properties).bind (·.node? []) = _
          rw [hget]
          rfl
  | @step m t i f rest hf ht hw ih =>
      have hperm := Route.places_perm m i f rest chain
      have hn' := hperm.nodup_iff.mpr hn
      rw [List.getLast?_cons_of_ne_nil hw.ne_nil] at hlast
      obtain ⟨first, hfirst, hget⟩ := exists_property_of_lastField? hs (htakes _ List.mem_cons_self)
      obtain ⟨s', hs', hbelow⟩ := exists_expand_of_opens ht (hw.place_not_mem hn') hfirst
      obtain ⟨sr, hsr, hnode⟩ := ih hs' hn' (fun step h => htakes step (List.mem_cons_of_mem _ h))
        hlast fun d hd hp => h d hd (hperm.mem_iff.mp hp)
      refine ⟨sr, hsr, ?_⟩
      show (Entries.get? f.name s.entered.properties).bind (·.node? (Route.names rest)) = _
      rw [hget, Option.bind_some, hbelow _ hw.names_ne_nil]
      exact hnode

/-! ### Expansion without the guard -/

/-- No cycle can be reached from the message. -/
def Acyclic (ctx : Context) (m : Located Message) : Prop :=
  ∀ d, ctx.Reaches m d → ∀ route, ¬ ctx.Cycle d route

theorem exists_walk_of_leads (h : ctx.Reaches d m) (ht : ctx.Leads m t) :
    ∃ route last, ctx.Walk d route ∧ route.getLast? = some last ∧ ctx.Resolves last.field t := by
  obtain ⟨f, hf, ht⟩ := ht
  obtain ⟨i, hi⟩ := List.getElem?_of_mem hf
  obtain ⟨before, hw⟩ := h.exists_walk (.last hi)
  exact ⟨before ++ [⟨m, i, f⟩], ⟨m, i, f⟩, hw, List.getLast?_concat .., ht⟩

/-- Without cycles, no field leads back to the place of a message from which fields lead to it. -/
theorem Acyclic.place_ne (h : ctx.Acyclic m) (hd : ctx.Reaches m d) (hr : ctx.Reaches d r)
    (ht : ctx.Leads r t) : t.place ≠ d.place := by
  intro hp
  obtain ⟨route, last, hw, hlast, ht⟩ := exists_walk_of_leads hr ht
  exact h d hd route ⟨hw, last, t, hlast, ht, hp⟩

/-- Fields that lead to places of smaller rank make no cycle. -/
theorem acyclic_of_rank (rank : Place → Nat)
    (h : ∀ d t, ctx.Reaches m d → ctx.Leads d t → rank t.place < rank d.place) :
    ctx.Acyclic m := by
  rintro d hd route ⟨hw, last, t, hlast, ht, hp⟩
  obtain ⟨hreach, hfield, -⟩ := hw.exists_from (List.mem_of_getLast? hlast)
  have hle : ∀ c, ctx.Reaches d c → rank c.place ≤ rank d.place := by
    intro c hc
    induction hc with
    | refl => exact Nat.le_refl _
    | tail hdc hlead ih => exact Nat.le_trans (Nat.le_of_lt (h _ _ (hd.trans hdc) hlead)) ih
  have hlt := h last.owner t (hd.trans hreach) ⟨last.field, hfield, ht⟩
  rw [hp] at hlt
  exact Nat.lt_irrefl _ (Nat.lt_of_lt_of_le hlt (hle last.owner hreach))

/-- The schema of `m`, made by calls that nest at most `depth` deep and do not look at the messages
in expansion.  A call that comes deeper ends in `otherwise`. -/
def expandFreely (ctx : Context) (otherwise : Conversion Schema) :
    Nat → Located Message → Conversion Schema
  | 0, _ => otherwise
  | depth + 1, m => do
      let properties ← fieldSchemas m.item
        (fun f => ctx.fieldSchema [] m.item f fun t _ _ => ctx.expandFreely otherwise depth t)
        ∅ m.item.fields
      pure (ctx.objectWith properties)

/-- The free expansion of a message inside messages that lead to it, below a message from which no
cycle can be reached. -/
theorem expandFreely_eq_expand {top : Located Message} {otherwise : Conversion Schema}
    (htop : ctx.Acyclic top) {depth : Nat} {around : List (Located Message)}
    (hc : ctx.registry.Chained top (m :: around))
    (haround : ∀ d ∈ m :: around, ctx.Reaches top d ∧ ctx.Reaches d m)
    (hd : ctx.registry.messageCount + 1 ≤ depth + around.length) :
    ctx.expandFreely otherwise depth m = ctx.expand (around.map Located.place) m := by
  induction depth generalizing around m with
  | zero =>
      have := hc.length_le
      rw [List.length_cons] at this
      omega
  | succ depth ih =>
      rw [expandFreely, expand_eq]
      congr 1
      apply fieldSchemas_congr
      intro f hf
      have hfresh : ∀ t, ctx.Resolves f t → t.place ∉ (m :: around).map Located.place := by
        intro t ht hp
        obtain ⟨d, hd, hplace⟩ := List.mem_map.mp hp
        obtain ⟨hreach, hback⟩ := haround d hd
        exact htop.place_ne hreach hback ⟨f, hf, ht⟩ hplace.symm
      apply fieldSchema_congr
      · intro t ht
        exact iff_of_false List.not_mem_nil (hfresh t ht)
      · intro t ht _
        have hlead : ctx.Leads m t := ⟨f, hf, ht⟩
        have hm := (haround m List.mem_cons_self).1
        rw [← List.map_cons]
        refine ih (hc.cons ht.mem_declared (hfresh t ht)) ?_ (by rw [List.length_cons]; omega)
        intro d hd
        rcases List.mem_cons.mp hd with rfl | hd
        · exact ⟨hm.tail hlead, .refl⟩
        · obtain ⟨hreach, hback⟩ := haround d hd
          exact ⟨hreach, hback.tail hlead⟩

theorem Acyclic.expandFreely_eq_schemaOf (h : ctx.Acyclic m) (otherwise : Conversion Schema)
    {depth : Nat} (hd : ctx.registry.messageCount + 1 ≤ depth) :
    ctx.expandFreely otherwise depth m = ctx.schemaOf m := by
  refine expandFreely_eq_expand h (Registry.chained_singleton _ m) ?_ hd
  intro d hd
  obtain rfl := List.mem_singleton.mp hd
  exact ⟨.refl, .refl⟩

/-- Without the guard no reference is cut. -/
theorem referenceCut_not_mem_expandFreely {otherwise : Conversion Schema}
    (h : otherwise.events = []) (field message typeName : String) (depth : Nat)
    (m : Located Message) :
    .referenceCut field message typeName ∉ (ctx.expandFreely otherwise depth m).events := by
  induction depth generalizing m with
  | zero =>
      rw [expandFreely, h]
      exact List.not_mem_nil
  | succ depth ih =>
      intro he
      rw [expandFreely, Conversion.events_bind] at he
      rcases List.mem_append.mp he with he | he
      · obtain ⟨f, -, he | ⟨_, -, he⟩⟩ := mem_events_fieldSchemas he
        · rcases mem_events_fieldSchema he with he | ⟨t, -, ⟨hp, -⟩ | ⟨-, he⟩⟩
          · cases he
          · cases hp
          · exact ih t he
        · cases he
      · revert he
        split <;> simp

theorem Acyclic.outcome_ne_recursiveType (h : ctx.Acyclic m) (field message typeName : String) :
    (ctx.schemaOf m).outcome ≠ .error (.recursiveType field message typeName) := by
  intro he
  have hanswer := ctx.answers_schemaOf m
  rw [he] at hanswer
  obtain ⟨route, hflaw, -⟩ := hanswer
  obtain ⟨d, part, last, hreach, hcycle, -⟩ := hflaw.exists_cycle
  exact h d hreach part hcycle

/-- A message depends on the chain around it only if fields lead from it to the chain.  Otherwise it
is expanded as if it stood alone, events included; a field that refers to it takes over this
conversion; and below a walk from a top-level message stands the schema of the message to which the
walk leads, as the items of an array or as the properties of an object.  If no cycle can be reached
from a message, its conversion cuts no reference, does not fail for recursion, and is the expansion
without the guard. -/
theorem expand_compositional (ctx : Context) :
    (∀ chain r, (∀ d, ctx.Reaches r d → d.place ∉ chain) →
      ctx.expand chain r = ctx.schemaOf r) ∧
    (∀ chain owner f r, ctx.Resolves f r →
      (∀ d, ctx.Reaches r d → d.place ∉ owner.place :: chain) →
        (ctx.fieldIn chain owner f).outcome = f.label.ofExpanded <$> (ctx.schemaOf r).outcome ∧
        (ctx.fieldIn chain owner f).events =
          (ctx.registry.lookup ctx.package f.typeName).events ++ (ctx.schemaOf r).events) ∧
    (∀ m s route last r, (ctx.schemaOf m).outcome = .ok s → ctx.Walk m route → route.Simple →
      route.TakesLast → route.getLast? = some last → ctx.Resolves last.field r →
      (∀ d, ctx.Reaches r d → d.place ∉ route.places) →
        ∃ sr node, (ctx.schemaOf r).outcome = .ok sr ∧ s.node? route.names = some node ∧
          (last.field.label = .repeated → node = .array sr) ∧
          (last.field.label ≠ .repeated →
            node.kind = .simple .object ∧ node.properties = sr.properties)) ∧
    ∀ m, ctx.Acyclic m →
      (∀ field message typeName,
        .referenceCut field message typeName ∉ (ctx.schemaOf m).events ∧
        (ctx.schemaOf m).outcome ≠ .error (.recursiveType field message typeName)) ∧
      ∀ otherwise depth, ctx.registry.messageCount + 1 ≤ depth →
        ctx.expandFreely otherwise depth m = ctx.schemaOf m := by
  refine ⟨fun _ _ h => expand_eq_schemaOf h,
    fun _ _ _ _ hr h => ⟨outcome_fieldIn_of_avoids hr h, events_fieldIn_of_avoids hr h⟩, ?_, ?_⟩
  · intro m s route last r hs hw hsimple htakes hlast hr h
    have hnil : route.places ++ [] = route.places := List.append_nil _
    obtain ⟨sr, hsr, hnode⟩ := hw.exists_schemaOf hs (hnil.symm ▸ hsimple) htakes hlast hr
      (hnil.symm ▸ h)
    refine ⟨sr, _, hsr, hnode, ?_, ?_⟩
    · intro hl
      rw [hl]
      rfl
    · cases last.field.label with
      | optional | required => exact fun _ => ⟨rfl, rfl⟩
      | repeated => exact fun hl => absurd rfl hl
  · intro m h
    have hfree : ∀ otherwise depth, ctx.registry.messageCount + 1 ≤ depth →
        ctx.expandFreely otherwise depth m = ctx.schemaOf m :=
      fun otherwise _ hd => h.expandFreely_eq_schemaOf otherwise hd
    refine ⟨?_, hfree⟩
    intro field message typeName
    refine ⟨?_, h.outcome_ne_recursiveType field message typeName⟩
    rw [← hfree (pure (.ofType .object)) _ (Nat.le_refl _)]
    exact referenceCut_not_mem_expandFreely rfl field message typeName _ m

/-! ### An address in three places -/

namespace DeliveryTypes

def city : Field := { name? := some "city", label? := some 2, type? := some 9 }

/-- The address of a stop, if it has one. -/
def site : Field :=
  { name? := some "site", label? := some 1, type? := some 11, typeName? := some ".Address" }

def billing : Field :=
  { name? := some "billing", label? := some 2, type? := some 11, typeName? := some "Address" }

/-- Any number of other addresses. -/
def copies : Field :=
  { name? := some "copies", label? := some 3, type? := some 11, typeName? := some "Address" }

def stops : Field :=
  { name? := some "stops", label? := some 3, type? := some 11, typeName? := some "Stop" }

def address : Located Message := ⟨[0], { name? := some "Address", fields := [city] }⟩

def stop : Located Message := ⟨[1], { name? := some "Stop", fields := [site] }⟩

def delivery : Located Message :=
  ⟨[2], { name? := some "Delivery", fields := [billing, copies, stops] }⟩

def context : Context where
  registry := ((Registry.empty.insert [] address).insert [] stop).insert [] delivery
  package := []
  options := {}

/-- The schema of an address alone. -/
def addressSchema : Schema := context.objectWith [("city", Schema.ofType .text)]

/-- The schema of a delivery holds that of an address once for each path that leads to it. -/
def schema : Schema :=
  context.objectWith
    [("billing", { Schema.object (some false) with properties := addressSchema.properties }),
      ("copies", Schema.array addressSchema),
      ("stops", Schema.array (context.objectWith
        [("site", { Schema.object (some true) with properties := addressSchema.properties })]))]

theorem reaches_delivery {d : Located Message} (h : context.Reaches delivery d) :
    d ∈ [address, stop, delivery] := by
  have hdeclared : context.registry.declared = [address, stop, delivery] := by decide
  rcases h.eq_or_mem_declared with rfl | hd
  · decide
  · rwa [hdeclared] at hd

theorem acyclic_delivery : context.Acyclic delivery := by
  apply acyclic_of_rank fun place => place.sum
  rintro d t hd ⟨f, hf, ht⟩
  have hall : ∀ d ∈ [address, stop, delivery], ∀ f ∈ d.item.fields,
      ((context.registry.lookup context.package f.typeName).value.all
        fun t => t.place.sum < d.place.sum) = true := by decide
  have hlt := hall d (reaches_delivery hd) f hf
  rw [ht.2] at hlt
  simpa using hlt

theorem reaches_address {d : Located Message} (h : context.Reaches address d) : d = address := by
  rcases h.cases_head with rfl | ⟨t, ⟨f, hf, ht⟩, -⟩
  · rfl
  · obtain rfl := List.mem_singleton.mp hf
    exact absurd (Field.fieldType?_eq_record_iff.mpr ht.1) (by decide)

theorem resolves_address {f : Field} (hf : f = billing ∨ f = copies ∨ f = site) :
    context.Resolves f address := by
  rcases hf with rfl | rfl | rfl <;> exact ⟨⟨11, rfl, .inr rfl⟩, by decide⟩

/-- An address is expanded alike in the delivery, inside a stop and alone. -/
theorem expand_address :
    context.expand [stop.place, delivery.place] address = context.schemaOf address ∧
      (context.fieldIn [] delivery billing).outcome =
        .ok { Schema.object (some false) with properties := addressSchema.properties } ∧
      (∃ node, schema.node? ["stops", "site"] = some node ∧
        node.properties = addressSchema.properties) ∧
      (∃ node, schema.node? ["copies"] = some node ∧ node = .array addressSchema) ∧
      (context.schemaOf delivery).outcome = .ok schema ∧
      (∀ field message typeName,
        .referenceCut field message typeName ∉ (context.schemaOf delivery).events) ∧
      context.expandFreely (throw (.packageNotFound "")) 4 delivery =
        context.schemaOf delivery := by
  obtain ⟨hexpand, hfield, hwalk, hacyclic⟩ := expand_compositional context
  have haddress : (context.schemaOf address).outcome = .ok addressSchema := by cbv
  have hdelivery : (context.schemaOf delivery).outcome = .ok schema := by decide +kernel
  have havoid : ∀ places : List Place, address.place ∉ places →
      ∀ d, context.Reaches address d → d.place ∉ places := by
    intro places hp d hd
    rwa [reaches_address hd]
  have hstop : context.Resolves stops stop := ⟨⟨11, rfl, .inr rfl⟩, by decide⟩
  have hbilling := (hfield [] delivery billing address (resolves_address (.inl rfl))
    (havoid _ (by decide))).1
  obtain ⟨sr, site, hsr, hsite, -, hprops⟩ := hwalk delivery schema
    [⟨delivery, 2, stops⟩, ⟨stop, 0, site⟩] ⟨stop, 0, site⟩ address hdelivery
    (.step rfl hstop (.last rfl)) (by decide) (by decide) rfl (resolves_address (.inr (.inr rfl)))
    (havoid _ (by decide))
  obtain ⟨sr', copies', hsr', hcopies, hitems, -⟩ := hwalk delivery schema
    [⟨delivery, 1, copies⟩] ⟨delivery, 1, copies⟩ address hdelivery
    (.last rfl) (by decide) (by decide) rfl (resolves_address (.inr (.inl rfl)))
    (havoid _ (by decide))
  obtain rfl := Except.ok.inj (haddress.symm.trans hsr)
  obtain rfl := Except.ok.inj (haddress.symm.trans hsr')
  obtain ⟨hguard, hfree⟩ := hacyclic delivery acyclic_delivery
  refine ⟨hexpand _ _ (havoid _ (by decide)), ?_, ⟨site, hsite, (hprops (by decide)).2⟩,
    ⟨copies', hcopies, hitems (by decide)⟩, hdelivery,
    fun field message typeName => (hguard field message typeName).1, hfree _ 4 (by decide)⟩
  rw [hbilling, haddress]
  rfl

end DeliveryTypes

end Context
end MessageSchema
