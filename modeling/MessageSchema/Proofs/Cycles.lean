import MessageSchema.Proofs.FirstFlaw
import Mathlib.Data.List.Basic

/-! # Cycles and the recursion error

A conversion that fails for recursion stands inside a cycle of message types: the field that it
reports leads back to a message that is being inlined, and the part of the chain from that message
on is the cycle (`Context.recursiveType_closes_cycle`).

Only the field that closes the cycle has to be required.  The other fields of the cycle may be of
any label, so the error also arises for types with finite values, and for one message of a cycle
but not for another (`Context.LinkTypes.recursiveType_without_required_cycle`). -/

namespace MessageSchema
namespace Context

/-- A cycle through `d`: fields of messages, each leading to the message that declares the next, of
which the last leads back to the place of `d`. -/
def Cycle (ctx : Context) (d : Located Message) (route : Route) : Prop :=
  ctx.Walk d route ∧
    ∃ last t, route.getLast? = some last ∧ ctx.Resolves last.field t ∧ t.place = d.place

variable {ctx : Context} {m : Located Message} {route : Route}

/-- The part of a walk that its last field closes to a cycle by leading back to the walk. -/
theorem Walk.exists_cycle {last : Step} {t : Located Message} (hw : ctx.Walk m route)
    (hn : route.Simple) (hlast : route.getLast? = some last) (ht : ctx.Resolves last.field t)
    (hp : t.place ∈ route.places) :
    ∃ d part, ctx.Reaches m d ∧ ctx.Cycle d part ∧ part.Simple ∧ part.getLast? = some last := by
  -- the cycle begins at the step of the walk whose owner the last field leads back to
  obtain ⟨step, hstep, hplace⟩ := List.mem_map.mp hp
  obtain ⟨hreach, -, before, rest, rfl, hpart⟩ := hw.exists_from hstep
  have hlast' : (step :: rest).getLast? = some last := by
    rw [← hlast, List.getLast?_append_of_ne_nil _ hpart.ne_nil]
  have hsimple : Route.Simple (step :: rest) := by
    rw [Route.Simple, Route.places, List.map_append] at hn
    exact (List.nodup_append.mp hn).2.1
  exact ⟨step.owner, step :: rest, hreach, ⟨hpart, last, t, hlast', ht, hplace.symm⟩, hsimple,
    hlast'⟩

/-- The part of a flawed walk that a recursion error closes to a cycle. -/
theorem Flaw.exists_cycle {field message typeName : String}
    (h : ctx.Flaw m route (.recursiveType field message typeName)) :
    ∃ d part last, ctx.Reaches m d ∧ ctx.Cycle d part ∧ part.Simple ∧
      part.getLast? = some last ∧ last.field.label = .required ∧ last.field.name = field ∧
      last.owner.item.name = message ∧ last.field.typeName = typeName := by
  obtain ⟨hw, hn, last, hlast, hfault⟩ := h
  cases hfault with
  | recursive ht hl hp =>
      obtain ⟨d, part, hreach, hcycle, hsimple, hend⟩ := hw.exists_cycle hn hlast ht hp
      exact ⟨d, part, last, hreach, hcycle, hsimple, hend, hl, rfl, rfl, rfl⟩

/-- A recursion error reports the required field that closes a cycle of different messages, to
which fields lead from the message of the conversion.  So a message from which no cycle with a
required field can be reached is never rejected for recursion. -/
theorem recursiveType_closes_cycle (ctx : Context) (m : Located Message) :
    (∀ field message typeName,
      (ctx.schemaOf m).outcome = .error (.recursiveType field message typeName) →
        ∃ d route last, ctx.Reaches m d ∧ ctx.Cycle d route ∧ route.Simple ∧
          route.getLast? = some last ∧ last.field.label = .required ∧ last.field.name = field ∧
          last.owner.item.name = message ∧ last.field.typeName = typeName) ∧
    ((∀ d route, ctx.Reaches m d → ctx.Cycle d route →
        ∀ step ∈ route, step.field.label ≠ .required) →
      ∀ field message typeName,
        (ctx.schemaOf m).outcome ≠ .error (.recursiveType field message typeName)) := by
  have hcycle : ∀ field message typeName,
      (ctx.schemaOf m).outcome = .error (.recursiveType field message typeName) →
        ∃ d route last, ctx.Reaches m d ∧ ctx.Cycle d route ∧ route.Simple ∧
          route.getLast? = some last ∧ last.field.label = .required ∧ last.field.name = field ∧
          last.owner.item.name = message ∧ last.field.typeName = typeName := by
    intro field message typeName h
    have hanswer := ctx.answers_schemaOf m
    rw [h] at hanswer
    obtain ⟨route, hflaw, -⟩ := hanswer
    exact hflaw.exists_cycle
  refine ⟨hcycle, ?_⟩
  intro hnone field message typeName h
  obtain ⟨d, route, last, hreach, hc, -, hlast, hl, -⟩ := hcycle field message typeName h
  exact hnone d route hreach hc last (List.mem_of_getLast? hlast) hl

/-! ### A cycle with one required field -/

namespace LinkTypes

/-- The link to the next page, if there is one. -/
def next : Field :=
  { name? := some "next", label? := some 1, type? := some 11, typeName? := some ".Link" }

/-- The page that a link belongs to. -/
def source : Field :=
  { name? := some "source", label? := some 2, type? := some 11, typeName? := some ".Page" }

def page : Located Message := ⟨[0], { name? := some "Page", fields := [next] }⟩

def link : Located Message := ⟨[1], { name? := some "Link", fields := [source] }⟩

def context : Context where
  registry := (Registry.empty.insert [] page).insert [] link
  package := []
  options := {}

theorem resolves_source {t : Located Message} (h : context.Resolves source t) : t = page :=
  have hpage : context.Resolves source page := ⟨⟨11, rfl, .inr rfl⟩, by decide⟩
  h.unique hpage

/-- The field of a page is optional, and so no walk from a page is of required fields. -/
theorem not_required_of_walk_page {route : Route} (h : context.Walk page route) :
    ¬ ∀ step ∈ route, step.field.label = .required := by
  intro hrequired
  cases h with
  | last hf | step hf =>
      obtain rfl := List.mem_singleton.mp (List.mem_of_getElem? hf)
      have hl : next.label = .required := hrequired _ List.mem_cons_self
      exact absurd hl (by decide)

theorem not_required_of_cycle_link {route : Route} (h : context.Cycle link route) :
    ¬ ∀ step ∈ route, step.field.label = .required := by
  intro hrequired
  obtain ⟨hw, last, t, hlast, ht, hp⟩ := h
  cases hw with
  | last hf =>
      obtain rfl := List.mem_singleton.mp (List.mem_of_getElem? hf)
      obtain rfl := Option.some.inj hlast
      obtain rfl := resolves_source ht
      exact absurd hp (by decide)
  | step hf ht' hw =>
      obtain rfl := List.mem_singleton.mp (List.mem_of_getElem? hf)
      obtain rfl := resolves_source ht'
      exact not_required_of_walk_page hw fun step h => hrequired step (List.mem_cons_of_mem _ h)

/-- A page need not have a link, so no cycle is of required fields; and yet a page is rejected for
recursion, while a link is not. -/
theorem recursiveType_without_required_cycle :
    (context.schemaOf page).outcome = .error (.recursiveType "source" "Link" ".Page") ∧
      (¬ ∃ d route, context.Reaches page d ∧ context.Cycle d route ∧
        ∀ step ∈ route, step.field.label = .required) ∧
      (context.schemaOf link).outcome = .ok (context.objectWith
        [("source", { Schema.object (some false) with
          properties := [("next", Schema.object (some true))] })]) := by
  refine ⟨by cbv, ?_, by cbv⟩
  rintro ⟨d, route, hreach, hc, hrequired⟩
  have hd : d = page ∨ d = link := by
    have hmem : d ∈ page :: context.registry.declared :=
      List.mem_cons.mpr hreach.eq_or_mem_declared
    have hdeclared : context.registry.declared = [page, link] := by decide
    simpa [hdeclared] using hmem
  rcases hd with rfl | rfl
  · exact not_required_of_walk_page hc.1 hrequired
  · exact not_required_of_cycle_link hc hrequired

/-- The cycle that the error reports leads from the page by an optional field and back by a required
one. -/
theorem page_reaches_cycle :
    ∃ d route last, context.Reaches page d ∧ context.Cycle d route ∧ route.Simple ∧
      route.getLast? = some last ∧ last.field.label = .required ∧ last.field.name = "source" ∧
      last.owner.item.name = "Link" ∧ last.field.typeName = ".Page" :=
  (recursiveType_closes_cycle context page).1 "source" "Link" ".Page" (by cbv)

end LinkTypes

end Context
end MessageSchema
