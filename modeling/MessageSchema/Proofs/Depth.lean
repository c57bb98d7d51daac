import MessageSchema.Proofs.Expansion
import Mathlib.Data.List.Dedup

/-! # How deep a conversion goes

`Context.expandWithin` expands messages by plain recursion on a depth.  It puts the messages that
are being expanded to a test before each of its calls, and a call that fails the test or comes too
deep ends in a conversion that is given beforehand.

Main statement: whatever that conversion is, the depth-bounded expansion is the conversion of a
message (`Context.expandWithin_eq_schemaOf`), if the bound is one more than the number of messages
in the registry and the test is that the messages being expanded stand at different places and all
but the outermost belong to the registry.  So no call of a conversion fails the test or comes too
deep, on any type graph and for any message. -/

namespace MessageSchema

/-- How many different messages a registry holds: those registered and those declared inside them
at any depth. -/
def Registry.messageCount (r : Registry) : Nat := (r.declared.map Located.place).dedup.length

/-- Messages, innermost first, that may be in expansion at one moment when the conversion began
with `m`: they are different, and all but `m` belong to the registry. -/
def Registry.Chained (r : Registry) (m : Located Message) (chain : List (Located Message)) : Prop :=
  chain.getLast? = some m ∧ (chain.map Located.place).Nodup ∧ ∀ d ∈ chain.dropLast, d ∈ r.declared

instance (r : Registry) (m : Located Message) : DecidablePred (r.Chained m) :=
  fun _ => inferInstanceAs (Decidable (_ ∧ _ ∧ _))

namespace Registry

variable {r : Registry} {m d t : Located Message} {around : List (Located Message)}

theorem chained_singleton (r : Registry) (m : Located Message) : r.Chained m [m] := by
  refine ⟨rfl, by simp, ?_⟩
  intro d hd
  cases hd

theorem Chained.cons (h : r.Chained m (d :: around)) (ht : t ∈ r.declared)
    (hp : t.place ∉ (d :: around).map Located.place) : r.Chained m (t :: d :: around) := by
  obtain ⟨hlast, hn, hdecl⟩ := h
  refine ⟨?_, List.nodup_cons.mpr ⟨hp, hn⟩, ?_⟩
  · rw [List.getLast?_cons_cons]
    exact hlast
  · intro x hx
    rw [List.dropLast_cons_cons] at hx
    rcases List.mem_cons.mp hx with rfl | hx
    · exact ht
    · exact hdecl x hx

theorem Chained.length_le {chain : List (Located Message)} (h : r.Chained m chain) :
    chain.length ≤ r.messageCount + 1 := by
  obtain ⟨_, hn, hdecl⟩ := h
  have hsub : (chain.dropLast.map Located.place).Sublist (chain.map Located.place) :=
    (List.dropLast_sublist chain).map _
  have hle : (chain.dropLast.map Located.place).length ≤ r.messageCount := by
    apply (hn.sublist hsub).length_le_of_subset
    intro p hp
    obtain ⟨d, hd, rfl⟩ := List.mem_map.mp hp
    exact List.mem_dedup.mpr (List.mem_map_of_mem (hdecl d hd))
  rw [List.length_map, List.length_dropLast] at hle
  omega

end Registry

namespace Context

/-- The schema of `m` inside the messages `around`, innermost first, made by calls that nest at
most `depth` deep.  A call that comes deeper ends in `otherwise`, and so does a call for which the
messages in expansion do not pass the test `admits`. -/
def expandWithin (ctx : Context) (admits : List (Located Message) → Prop) [DecidablePred admits]
    (otherwise : Conversion Schema) : Nat → List (Located Message) → Located Message →
      Conversion Schema
  | 0, _, _ => otherwise
  | depth + 1, around, m =>
      if admits (m :: around) then do
        let properties ← fieldSchemas m.item
          (fun f => ctx.fieldSchema ((m :: around).map Located.place) m.item f
            fun t _ _ => ctx.expandWithin admits otherwise depth (m :: around) t) ∅ m.item.fields
        pure (ctx.objectWith properties)
      else otherwise

theorem expandWithin_eq_expand (ctx : Context) (top : Located Message)
    (otherwise : Conversion Schema) {depth : Nat} {around : List (Located Message)}
    {m : Located Message} (hc : ctx.registry.Chained top (m :: around))
    (hd : ctx.registry.messageCount + 1 ≤ depth + around.length) :
    ctx.expandWithin (ctx.registry.Chained top) otherwise depth around m =
      ctx.expand (around.map Located.place) m := by
  induction depth generalizing around m with
  | zero =>
      have := hc.length_le
      rw [List.length_cons] at this
      omega
  | succ depth ih =>
      have hfield : (fun f =>
          ctx.fieldSchema ((m :: around).map Located.place) m.item f fun t _ _ =>
            ctx.expandWithin (ctx.registry.Chained top) otherwise depth (m :: around) t) =
          ctx.fieldIn (around.map Located.place) m := by
        funext f
        rw [fieldIn, List.map_cons]
        congr 1
        funext t ht hp
        refine ih (hc.cons ht hp) ?_
        rw [List.length_cons]
        omega
      rw [expandWithin, if_pos hc, hfield, expand_eq]

/-- A conversion is the expansion that stops at a depth of one more than the number of messages in
the registry and whenever the messages in expansion are not different members of the registry
below the outermost one, however it goes on from there. -/
theorem expandWithin_eq_schemaOf (ctx : Context) (m : Located Message)
    (otherwise : Conversion Schema) :
    ctx.expandWithin (ctx.registry.Chained m) otherwise (ctx.registry.messageCount + 1) [] m =
        ctx.schemaOf m ∧
      ∀ chain, ctx.registry.Chained m chain → chain.length ≤ ctx.registry.messageCount + 1 := by
  constructor
  · exact expandWithin_eq_expand ctx m otherwise (Registry.chained_singleton _ m)
      (Nat.le_add_right _ _)
  · intro chain h
    exact h.length_le

end Context
end MessageSchema
