import MessageSchema.Proofs.Arena.Paths
import Mathlib.Logic.Relation

/-! # Well-formed arenas

What the paths of an arena say of its slots, slot by slot: where each package is referred to, by
which segment, and how names and numbers follow from that (`Arena.WellFormed`).

Main statement: every arena made by registrations is well-formed (`Arena.wellFormed_ofHistory`). -/

namespace MessageSchema
namespace Arena

/-- Numbers, names and references fit together. -/
structure WellFormed (a : Arena) : Prop where
  /-- The first package is the root, which has the empty name and no package around it. -/
  root : ∃ s, a.slots[0]? = some s ∧ s.name = "" ∧ s.parent? = none
  /-- The packages inside a package have different last segments and numbers of the arena. -/
  inner : ∀ s ∈ a.slots, s.inner.keys.Nodup ∧ ∀ e ∈ s.inner, e.2 < a.slots.length
  /-- No package right inside the root has the empty segment. -/
  root_segment : ∀ s, a.slots[0]? = some s → "" ∉ s.inner.keys
  /-- A package other than the root stands once inside a package, which is the one around it and
  has a smaller number, under a segment that holds no dot and ends its name. -/
  parent : ∀ j t, a.slots[j]? = some t → j ≠ 0 → ∃ i s segment, i < j ∧ t.parent? = some i ∧
    a.slots[i]? = some s ∧ (segment, j) ∈ s.inner ∧ '.' ∉ segment.toList ∧
    t.name = (if i = 0 then segment else s.name ++ "." ++ segment) ∧
    ∀ i' s' segment', a.slots[i']? = some s' → (segment', j) ∈ s'.inner →
      i' = i ∧ segment' = segment
  /-- No two packages have the same name. -/
  names : (a.slots.map Slot.name).Nodup
  /-- The packages around a package lead out to the root. -/
  outward : ∀ i < a.slots.length, Relation.ReflTransGen (fun i j => a.parent? i = some j) i 0
  /-- The name of a package names it. -/
  package? : ∀ i s, a.slots[i]? = some s → a.package? s.name = some i

/-! ### From paths to slots -/

section wellFormed
variable {a : Arena} {paths : List PackagePath} {path : PackagePath} {i j : Nat} {s : Slot}

theorem name_of_getElem? (hs : a.slots[i]? = some s) : a.name i = s.name := by
  rw [name, hs]
  rfl

theorem parent?_of_getElem? (hs : a.slots[i]? = some s) : a.parent? i = s.parent? := by
  rw [parent?, hs]
  rfl

namespace Lists

theorem exists_path (h : a.Lists paths) (hi : i < a.slots.length) :
    ∃ path, paths[i]? = some path ∧ path ∈ paths := by
  have hi' : i < paths.length := h.length ▸ hi
  exact ⟨paths[i], List.getElem?_eq_getElem hi', List.getElem_mem hi'⟩

theorem mem_inner_iff (h : a.Lists paths) (hs : a.slots[i]? = some s)
    (hi : paths[i]? = some path) (segment : String) :
    (segment, j) ∈ s.inner ↔ paths[j]? = some (path ++ [segment]) := by
  rw [← h.inside i path hi, inside?, hs]
  exact Entries.get?_eq_some_iff.symm

/-- The part of `WellFormed` about a package other than the root. -/
theorem exists_parent (h : a.Lists paths) (hs : a.slots[j]? = some s) (hj : j ≠ 0) :
    ∃ i t segment, i < j ∧ s.parent? = some i ∧ a.slots[i]? = some t ∧
      (segment, j) ∈ t.inner ∧ '.' ∉ segment.toList ∧
      s.name = (if i = 0 then segment else t.name ++ "." ++ segment) ∧
      ∀ i' t' segment', a.slots[i']? = some t' → (segment', j) ∈ t'.inner →
        i' = i ∧ segment' = segment := by
  obtain ⟨q, hq, hmem⟩ := h.exists_path (List.getElem?_eq_some_iff.mp hs).1
  have hne : q ≠ [] := by
    rintro rfl
    exact hj (h.index_unique hq h.root)
  obtain ⟨path, segment, rfl⟩ := (List.eq_nil_or_concat' q).resolve_left hne
  obtain ⟨i, hij, hi, hparent⟩ := h.parent j path segment hq
  obtain ⟨t, ht⟩ : ∃ t, a.slots[i]? = some t := ⟨_, List.getElem?_eq_getElem (h.lt_length hi)⟩
  refine ⟨i, t, segment, hij, ?_, ht, (h.mem_inner_iff ht hi segment).mpr hq,
    (h.proper _ hmem).2 segment (by simp), ?_, ?_⟩
  · rw [← parent?_of_getElem? hs, hparent]
  · have hroot : path = [] ↔ i = 0 := by
      constructor
      · rintro rfl
        exact h.index_unique hi h.root
      · rintro rfl
        exact Option.some.inj (hi.symm.trans h.root)
    rw [← name_of_getElem? hs, ← name_of_getElem? ht, h.name j _ hq, h.name i path hi,
      PackagePath.name_concat]
    simp only [hroot]
  · intro i' t' segment' ht' hmem'
    obtain ⟨path', hi', -⟩ := h.exists_path (List.getElem?_eq_some_iff.mp ht').1
    have hq' := (h.mem_inner_iff ht' hi' segment').mp hmem'
    obtain ⟨rfl, he⟩ := List.append_inj' (Option.some.inj (hq'.symm.trans hq)) rfl
    exact ⟨h.index_unique hi' hi, List.singleton_inj.mp he⟩

theorem nodup_names (h : a.Lists paths) : (a.slots.map Slot.name).Nodup := by
  have hnames : a.slots.map Slot.name = paths.map PackagePath.name := by
    apply List.ext_getElem
    · simp [h.length]
    · intro i hi hi'
      rw [List.length_map] at hi hi'
      rw [List.getElem_map, List.getElem_map, ← name_of_getElem? (List.getElem?_eq_getElem hi),
        h.name i _ (List.getElem?_eq_getElem hi')]
  rw [hnames]
  refine List.Nodup.map_on ?_ h.nodup
  intro path hp q hq he
  exact (h.proper path hp).eq_of_name_eq (h.proper q hq) he

theorem reaches_root (h : a.Lists paths) (hi : i < a.slots.length) :
    Relation.ReflTransGen (fun i j => a.parent? i = some j) i 0 := by
  induction i using Nat.strongRecOn with
  | _ i ih =>
      by_cases h0 : i = 0
      · subst h0
        exact .refl
      · obtain ⟨j, t, _, hji, hparent, -⟩ := h.exists_parent (List.getElem?_eq_getElem hi) h0
        refine .head ?_ (ih j hji (Nat.lt_trans hji hi))
        rw [parent?_of_getElem? (List.getElem?_eq_getElem hi), hparent]

theorem package?_name (h : a.Lists paths) (hi : paths[i]? = some path) :
    a.package? path.name = some i := by
  have hp := h.proper path (List.mem_of_getElem? hi)
  rw [Arena.package?, hp.dropLeading_name]
  simp only [hp.name_eq_empty_iff]
  by_cases hne : path = []
  · subst hne
    rw [if_pos rfl, h.index_unique hi h.root]
  · rw [if_neg hne, hp.pieces_name hne, h.number?_eq_some_iff.mpr hi]

theorem wellFormed (h : a.Lists paths) : a.WellFormed where
  root := by
    obtain ⟨s, hs⟩ : ∃ s, a.slots[0]? = some s := ⟨_, List.getElem?_eq_getElem h.length_pos⟩
    refine ⟨s, hs, ?_, ?_⟩
    · rw [← name_of_getElem? hs, h.name 0 [] h.root]
      rfl
    · rw [← parent?_of_getElem? hs, h.around]
  inner := by
    intro s hs
    refine ⟨s.inner.nodup_keys, ?_⟩
    rintro ⟨segment, j⟩ he
    obtain ⟨i, hi⟩ := List.mem_iff_getElem?.mp hs
    obtain ⟨path, hpath, -⟩ := h.exists_path (List.getElem?_eq_some_iff.mp hi).1
    exact h.lt_length ((h.mem_inner_iff hi hpath segment).mp he)
  root_segment := by
    intro s hs hmem
    obtain ⟨j, he⟩ := Entries.mem_keys_iff.mp hmem
    have hj := (h.mem_inner_iff hs h.root _).mp he
    exact (h.proper _ (List.mem_of_getElem? hj)).1 rfl
  parent := fun j s hs hj => h.exists_parent hs hj
  names := h.nodup_names
  outward := fun i hi => h.reaches_root hi
  package? := by
    intro i s hs
    obtain ⟨path, hpath, -⟩ := h.exists_path (List.getElem?_eq_some_iff.mp hs).1
    rw [← name_of_getElem? hs, h.name i path hpath, h.package?_name hpath]

end Lists

end wellFormed

/-- Whatever is registered, the arena holds the packages and the messages of the registry, its
numbers, names and references fit together, and a package text names the same package in both. -/
theorem wellFormed_ofHistory (history : History) :
    (ofHistory history).WellFormed ∧
      (∀ path, ((ofHistory history).number? path).isSome = (Registry.ofHistory history).has path) ∧
      (∀ path name, (ofHistory history).type? path name =
        (Registry.ofHistory history).type? path name) ∧
      ∀ text, (ofHistory history).package? text =
        ((Registry.ofHistory history).package? text).bind (ofHistory history).number? := by
  obtain ⟨⟨paths, hlists, hmem⟩, htype⟩ := represents_ofHistory history
  have hhas : ∀ path, ((ofHistory history).number? path).isSome =
      (Registry.ofHistory history).has path := by
    intro path
    rw [Bool.eq_iff_iff, hlists.isSome_number?_iff, hmem]
  refine ⟨hlists.wellFormed, hhas, htype, ?_⟩
  intro text
  rw [package?, Registry.package?]
  generalize Text.dropLeading '.' text = s
  by_cases hs : s = ""
  · rw [if_pos hs, if_pos hs]
    rfl
  · simp only [if_neg hs, ← hhas]
    cases h : (ofHistory history).number? (Text.pieces '.' s) with
    | none => rfl
    | some i => simp [h]

end Arena
end MessageSchema
