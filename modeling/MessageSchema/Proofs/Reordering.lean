import MessageSchema.Proofs.PackageTexts
import MessageSchema.Proofs.Simulation
import Mathlib.Data.Set.Function

/-! # Registrations in another order

The place of a descriptor begins with the index of its file, and so a file that is given in another
position declares the same types at other places.  Renaming the first indices changes nothing but
the places: what a history denotes under a name is renamed with it
(`History.reading?_renamed`).  The order of the registrations counts only for registrations with
the same key, that is with the same package and name (`History.last?_of_perm`).

Main statement: a history whose registrations are renamed and put into another order makes a
registry in which all names denote the same messages at their new places, and all conversions have
the same outcome (`History.Reorders.outcome_documents`). -/

namespace MessageSchema

/-! ### Renamed places -/

/-- The place with its first index renamed. -/
def Place.renamed (σ : Nat → Nat) : Place → Place
  | [] => []
  | i :: rest => σ i :: rest

theorem Place.renamed_injective {σ : Nat → Nat} (h : σ.Injective) :
    Function.Injective (Place.renamed σ) := by
  intro p q hpq
  cases p <;> cases q <;> simp_all [renamed, h.eq_iff]

theorem Place.renamed_append (σ : Nat → Nat) {p : Place} (hp : p ≠ []) (q : Place) :
    Place.renamed σ (p ++ q) = Place.renamed σ p ++ q := by
  cases p with
  | nil => exact absurd rfl hp
  | cons i rest => rfl

namespace Located

variable {α β : Type} {σ : Nat → Nat}

/-- The item at the renamed place. -/
def renamed (σ : Nat → Nat) (x : Located α) : Located α := ⟨Place.renamed σ x.place, x.item⟩

theorem place_ne_nil_of_mem_enumerate {place : Place} {start : Nat} {l : List α} {x : Located α}
    (h : x ∈ enumerate place start l) : x.place ≠ [] := by
  induction l generalizing start with
  | nil => cases h
  | cons a rest ih =>
      rcases List.mem_cons.mp h with rfl | h
      · simp
      · exact ih h

theorem enumerate_renamed {place : Place} (hp : place ≠ []) (start : Nat) (l : List α) :
    enumerate (Place.renamed σ place) start l = (enumerate place start l).map (renamed σ) := by
  induction l generalizing start with
  | nil => rfl
  | cons a rest ih =>
      rw [enumerate, enumerate, ih, List.map_cons, renamed, Place.renamed_append σ hp]

/-- The parts of a renamed item are its renamed parts. -/
theorem within_renamed {x : Located α} (hp : x.place ≠ []) (parts : α → List β) :
    (x.renamed σ).within parts = (x.within parts).map (renamed σ) :=
  enumerate_renamed hp 0 _

theorem follow?_renamed {m : Located Message} (hp : m.place ≠ []) (names : List String) :
    (m.renamed σ).follow? names = (m.follow? names).map (renamed σ) := by
  induction names generalizing m with
  | nil => rfl
  | cons name rest ih =>
      rw [follow?, follow?, nested, nested, within_renamed hp, List.find?_map]
      have hitem : (fun d : Located Message => decide (d.item.name = name)) ∘ renamed σ =
          fun d => decide (d.item.name = name) := rfl
      rw [hitem]
      cases h : (m.within Message.nested).find? (·.item.name = name) with
      | none => rfl
      | some inner => exact ih (place_ne_nil_of_mem_enumerate (List.mem_of_find?_eq_some h))

end Located

/-! ### Renamed histories -/

/-- The package and the name that a registration is for. -/
def Registration.key (e : Registration) : PackagePath × String :=
  (PackagePath.ofText e.package, e.message.item.name)

/-- The same registration for the message at its renamed place. -/
def Registration.renamed (σ : Nat → Nat) (e : Registration) : Registration :=
  ⟨e.package, e.message.renamed σ⟩

namespace History

variable {σ : Nat → Nat} {history history' : History} {path : PackagePath} {name : String}

/-- The history with all messages at their renamed places. -/
def renamed (σ : Nat → Nat) (history : History) : History := history.map (Registration.renamed σ)

theorem last?_renamed (σ : Nat → Nat) (history : History) (path : PackagePath) (name : String) :
    (history.renamed σ).last? path name = (history.last? path name).map (Located.renamed σ) := by
  rw [last?, last?, renamed, ← List.map_reverse, List.find?_map, Option.map_map, Option.map_map]
  rfl

theorem last?_eq_some_iff (hk : (history.map Registration.key).Nodup) {m : Located Message} :
    history.last? path name = some m ↔
      ∃ e ∈ history, e.key = (path, name) ∧ e.message = m := by
  have hfind : ∀ e, (history.reverse.find? fun e =>
      path = PackagePath.ofText e.package ∧ e.message.item.name = name) = some e ↔
        e ∈ history ∧ e.key = (path, name) := by
    intro e
    rw [find?_eq_some_iff_of_unique, List.mem_reverse, decide_eq_true_eq, Registration.key,
      Prod.mk.injEq, eq_comm (a := path)]
    intro e he e' he' h h'
    rw [decide_eq_true_eq] at h h'
    apply List.inj_on_of_nodup_map hk (List.mem_reverse.mp he) (List.mem_reverse.mp he')
    rw [Registration.key, Registration.key, ← h.1, ← h'.1, h.2, h'.2]
  rw [last?, Option.map_eq_some_iff]
  simp only [hfind, and_assoc]

/-- The order of registrations with different keys does not count. -/
theorem last?_of_perm (hp : history.Perm history') (hk : (history.map Registration.key).Nodup) :
    history'.last? path name = history.last? path name := by
  have hk' := (hp.map Registration.key).nodup_iff.mp hk
  apply Option.ext
  intro m
  rw [last?_eq_some_iff hk, last?_eq_some_iff hk']
  simp only [hp.mem_iff]

theorem place_ne_nil_of_last? (hplace : ∀ e ∈ history, e.message.place ≠ []) {m : Located Message}
    (h : history.last? path name = some m) : m.place ≠ [] := by
  obtain ⟨e, he, rfl⟩ := Option.map_eq_some_iff.mp h
  exact hplace e (List.mem_reverse.mp (List.mem_of_find?_eq_some he))

/-- `history'` has the registrations of `history`, which all have different keys, in any order and
with their places renamed. -/
structure Reorders (σ : Nat → Nat) (history history' : History) : Prop where
  injective : σ.Injective
  perm : (history.renamed σ).Perm history'
  keys : (history.map Registration.key).Nodup
  place : ∀ e ∈ history, e.message.place ≠ []

namespace Reorders

theorem last? (h : Reorders σ history history') (path : PackagePath) (name : String) :
    history'.last? path name = (history.last? path name).map (Located.renamed σ) := by
  have hkeys : (history.renamed σ).map Registration.key = history.map Registration.key :=
    List.map_map
  rw [last?_of_perm h.perm (hkeys ▸ h.keys), last?_renamed]

theorem reading? (h : Reorders σ history history') (path : PackagePath) (names : List String)
    (k : Nat) :
    history'.reading? path names k =
      (history.reading? path names k).map (Located.renamed σ) := by
  rw [History.reading?, History.reading?]
  cases names[k]? with
  | none => rfl
  | some name =>
      rw [Option.bind_some, Option.bind_some, h.last?]
      cases hm : history.last? (path ++ names.take k) name with
      | none => rfl
      | some m => exact Located.follow?_renamed (place_ne_nil_of_last? h.place hm) _

theorem lookupBelow (h : Reorders σ history history') (path : PackagePath) (name : String) :
    ((Registry.ofHistory history').lookupBelow path name).value =
      ((Registry.ofHistory history).lookupBelow path name).value.map (Located.renamed σ) := by
  have hreading : history'.reading? path (Text.pieces '.' name) = fun k =>
      (history.reading? path (Text.pieces '.' name) k).map (Located.renamed σ) :=
    funext (h.reading? path _)
  have hlongest := Registry.isLongest_lookupBelow history' path name
  rw [hreading] at hlongest
  exact hlongest.unique ((Registry.isLongest_lookupBelow history path name).map _)

theorem lookup (h : Reorders σ history history') (path : PackagePath) (name : String) :
    ((Registry.ofHistory history').lookup path name).value =
      ((Registry.ofHistory history).lookup path name).value.map (Located.renamed σ) :=
  Registry.value_lookup_map h.lookupBelow path name

theorem package? (h : Reorders σ history history') (text : String) :
    (Registry.ofHistory history').package? text = (Registry.ofHistory history).package? text := by
  have hhas : ∀ q, (Registry.ofHistory history').has q = (Registry.ofHistory history).has q := by
    intro q
    rw [Bool.eq_iff_iff, Registry.has_ofHistory, Registry.has_ofHistory]
    simp only [← h.perm.mem_iff, renamed, List.mem_map, exists_exists_and_eq_and]
    rfl
  rw [Registry.package?_ofHistory, Registry.package?_ofHistory, hhas]

/-! ### Conversions -/

/-- Every message is paired with the one at its renamed place. -/
theorem simulates (h : Reorders σ history history') (package : PackagePath) (options : Options) :
    Context.Simulates ⟨.ofHistory history, package, options⟩ ⟨.ofHistory history', package, options⟩
      fun d d' => d' = d.renamed σ where
  item hd := by rw [hd]; rfl
  place hd he := by
    rw [hd, he]
    exact (Place.renamed_injective h.injective).eq_iff
  lookup := by
    intro d d' _ f _ _
    show Option.Rel _ _ ((Registry.ofHistory history').lookup package f.typeName).value
    rw [h.lookup]
    cases ((Registry.ofHistory history).lookup package f.typeName).value with
    | none => exact .none
    | some t => exact .some rfl

theorem outcome_schemaOf (h : Reorders σ history history') (package : PackagePath)
    (options : Options) (m : Located Message) :
    ((Context.mk (.ofHistory history') package options).schemaOf (m.renamed σ)).outcome =
      ((Context.mk (.ofHistory history) package options).schemaOf m).outcome :=
  (h.simulates package options).outcome_expand_eq rfl (fun _ _ _ => by simp) rfl

/-- A file at its renamed place has the same documents. -/
theorem outcome_documents (h : Reorders σ history history') (options : Options) {f : Located File}
    (hf : f.place ≠ []) :
    ((Registry.ofHistory history').documents options (f.renamed σ)).outcome =
      ((Registry.ofHistory history).documents options f).outcome := by
  have hmessages : (f.renamed σ).messages = f.messages.map (Located.renamed σ) :=
    Located.within_renamed hf _
  rw [Registry.outcome_documents, Registry.outcome_documents, hmessages,
    show (f.renamed σ).item = f.item from rfl, h.package?]
  congr 1
  cases (Registry.ofHistory history).package? f.item.package with
  | none => rfl
  | some package =>
      show documentsBy _ _ = documentsBy _ _
      rw [documentsBy, List.mapM_map, documentsBy]
      congr 1
      funext m
      show Document.ofSchema m.item.name <$> _ = _
      rw [h.outcome_schemaOf]

end Reorders
end History
end MessageSchema
