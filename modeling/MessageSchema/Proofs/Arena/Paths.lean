import MessageSchema.Proofs.Arena.Basic
import MessageSchema.Proofs.PackageTexts
import Mathlib.Data.List.Induction

/-! # The paths of an arena

The numbers, the stored names and the references of an arena depend on each other, and
`Arena.Lists` says how: there is a list of paths, one for each number, from which all of them can
be read off.  Creating a package adds its path at the end (`Arena.Lists.create`), and a walk adds
the paths that are missing on its way (`Arena.Lists.enterAll`).

Main statement: an arena made by registrations holds the packages and the messages of the registry
that they make (`Arena.represents_ofHistory`). -/

namespace MessageSchema
namespace Arena

/-! ### The paths of the packages -/

/-- The packages of the arena stand at `paths`, each at the path of its number, and all that the
slots say of names and references can be read off the paths. -/
structure Lists (a : Arena) (paths : List PackagePath) : Prop where
  length : a.slots.length = paths.length
  root : paths[0]? = some []
  nodup : paths.Nodup
  proper : ∀ path ∈ paths, path.Proper
  name : ∀ i path, paths[i]? = some path → a.name i = path.name
  inside : ∀ i path, paths[i]? = some path → ∀ segment j,
    a.inside? i segment = some j ↔ paths[j]? = some (path ++ [segment])
  around : a.parent? 0 = none
  parent : ∀ j path segment, paths[j]? = some (path ++ [segment]) →
    ∃ i < j, paths[i]? = some path ∧ a.parent? j = some i

theorem lists_empty : empty.Lists [[]] where
  length := rfl
  root := rfl
  nodup := by simp
  proper := by
    rintro path hp
    obtain rfl := List.mem_singleton.mp hp
    exact ⟨by simp, by simp⟩
  name := by
    rintro (_ | i) path hp
    · obtain rfl := Option.some.inj hp
      rfl
    · cases hp
  inside := by
    rintro (_ | i) path hp segment (_ | j)
    · simp [inside?, empty]
    · simp [inside?, empty]
    · cases hp
    · cases hp
  around := rfl
  parent := by
    rintro (_ | j) path segment hp
    · simp at hp
    · cases hp

theorem getElem?_concat_eq_some_iff {α : Type} {l : List α} {x y : α} {k : Nat} :
    (l ++ [x])[k]? = some y ↔ l[k]? = some y ∨ k = l.length ∧ x = y := by
  rw [List.getElem?_append]
  by_cases hlt : k < l.length
  · simp [hlt, Nat.ne_of_lt hlt]
  · by_cases hk : k = l.length
    · simp [hk]
    · rw [if_neg hlt, List.getElem?_eq_none (by simp; omega), List.getElem?_eq_none (by omega)]
      simp [hk]

theorem enterAll_dropWhile (a : Arena) (segments : List String) :
    a.enterAll 0 segments = a.enterAll 0 (segments.dropWhile (· = "")) := by
  induction segments with
  | nil => rfl
  | cons segment rest ih =>
      by_cases hs : segment = ""
      · rw [enterAll, if_pos ⟨rfl, hs⟩, ih, List.dropWhile_cons_of_pos (by simpa using hs)]
      · rw [List.dropWhile_cons_of_neg (by simpa using hs)]

namespace Lists

variable {a : Arena} {paths : List PackagePath} {path q : PackagePath} {i j : Nat}
variable {segment : String}

theorem lt_length (h : a.Lists paths) (hi : paths[i]? = some path) : i < a.slots.length :=
  h.length ▸ (List.getElem?_eq_some_iff.mp hi).1

theorem index_unique (h : a.Lists paths) (hi : paths[i]? = some path) (hj : paths[j]? = some path) :
    i = j :=
  (List.getElem?_inj (List.getElem?_eq_some_iff.mp hi).1 h.nodup).mp (hi.trans hj.symm)

theorem length_pos (h : a.Lists paths) : 0 < a.slots.length := h.lt_length h.root

/-- The packages around a package are listed with it. -/
theorem mem_of_concat (h : a.Lists paths) (hq : path ++ [segment] ∈ paths) : path ∈ paths := by
  obtain ⟨j, hj⟩ := List.mem_iff_getElem?.mp hq
  obtain ⟨i, -, hi, -⟩ := h.parent j path segment hj
  exact List.mem_of_getElem? hi

/-- A package that the slots do not know is not listed. -/
theorem not_mem_of_inside? (h : a.Lists paths) (hi : paths[i]? = some path)
    (hnew : a.inside? i segment = none) : path ++ [segment] ∉ paths := by
  intro hq
  obtain ⟨j, hj⟩ := List.mem_iff_getElem?.mp hq
  rw [(h.inside i path hi segment j).mpr hj] at hnew
  cases hnew

theorem inside?_create_eq_some_iff (h : a.Lists paths) (hi : paths[i]? = some path)
    (hnew : a.inside? i segment = none) {k : Nat} {s : String}
    (hk : (paths ++ [path ++ [segment]])[k]? = some q) :
    (a.create i segment).inside? k s = some j ↔
      (paths ++ [path ++ [segment]])[j]? = some (q ++ [s]) := by
  have hmem := h.not_mem_of_inside? hi hnew
  have hlt := h.lt_length hi
  rw [inside?_create hlt, getElem?_concat_eq_some_iff]
  rcases getElem?_concat_eq_some_iff.mp hk with hk | ⟨rfl, rfl⟩
  · by_cases hnow : k = i ∧ segment = s
    · obtain ⟨rfl, rfl⟩ := hnow
      obtain rfl := Option.some.inj (hk.symm.trans hi)
      have hj : paths[j]? ≠ some (q ++ [segment]) := fun hj => hmem (List.mem_of_getElem? hj)
      simp [hj, h.length, eq_comm]
    · have hne : path ++ [segment] ≠ q ++ [s] := by
        intro he
        obtain ⟨rfl, hs⟩ := List.append_inj' he rfl
        exact hnow ⟨h.index_unique hk hi, List.singleton_inj.mp hs⟩
      simp [hnow, h.inside k q hk, hne]
  · -- nothing is inside the new package
    have hki : paths.length ≠ i := by
      rw [← h.length]
      exact Nat.ne_of_gt hlt
    have hnone : a.inside? paths.length s = none := by
      rw [inside?, List.getElem?_eq_none (Nat.le_of_eq h.length)]
      rfl
    have hj : paths[j]? ≠ some (path ++ [segment] ++ [s]) :=
      fun hj => hmem (h.mem_of_concat (List.mem_of_getElem? hj))
    simpa [hki, hnone] using hj

/-- A new package adds its path at the end. -/
theorem create (h : a.Lists paths) (hi : paths[i]? = some path)
    (hp : PackagePath.Proper (path ++ [segment])) (hnew : a.inside? i segment = none) :
    (a.create i segment).Lists (paths ++ [path ++ [segment]]) where
  length := by simp [Arena.create, h.length]
  root := getElem?_concat_eq_some_iff.mpr (.inl h.root)
  nodup := by
    refine List.nodup_append.mpr ⟨h.nodup, by simp, ?_⟩
    rintro q hq r hr rfl
    exact h.not_mem_of_inside? hi hnew (List.mem_singleton.mp hr ▸ hq)
  proper := by
    intro q hq
    rcases List.mem_append.mp hq with hq | hq
    · exact h.proper q hq
    · obtain rfl := List.mem_singleton.mp hq
      exact hp
  name := by
    intro k q hk
    rw [name_create]
    rcases getElem?_concat_eq_some_iff.mp hk with hk | ⟨rfl, rfl⟩
    · rw [if_neg (Nat.ne_of_lt (h.lt_length hk)), h.name k q hk]
    · have hpath : path.Proper := h.proper path (List.mem_of_getElem? hi)
      rw [if_pos h.length.symm, h.name i path hi, PackagePath.name_concat]
      simp only [hpath.name_eq_empty_iff]
  inside := fun _ _ hk _ _ => h.inside?_create_eq_some_iff hi hnew hk
  around := by rw [parent?_create, if_neg (Nat.ne_of_lt h.length_pos), h.around]
  parent := by
    intro j q s hj
    rcases getElem?_concat_eq_some_iff.mp hj with hj | ⟨rfl, he⟩
    · obtain ⟨k, hkj, hk, hparent⟩ := h.parent j q s hj
      refine ⟨k, hkj, getElem?_concat_eq_some_iff.mpr (.inl hk), ?_⟩
      rw [parent?_create, if_neg (Nat.ne_of_lt (h.lt_length hj)), hparent]
    · obtain ⟨rfl, -⟩ := List.append_inj' he rfl
      refine ⟨i, h.length ▸ h.lt_length hi, getElem?_concat_eq_some_iff.mpr (.inl hi), ?_⟩
      rw [parent?_create, if_pos h.length.symm]

/-- The number of a package is the position of its path. -/
theorem number?_eq_some_iff (h : a.Lists paths) :
    a.number? path = some i ↔ paths[i]? = some path := by
  induction path using List.reverseRecOn generalizing i with
  | nil =>
      constructor
      · intro hi
        obtain rfl := Option.some.inj hi
        exact h.root
      · intro hi
        rw [h.index_unique hi h.root]
        rfl
  | append_singleton path segment ih =>
      have hstep : a.number? (path ++ [segment]) =
          (a.number? path).bind (a.inside? · segment) := by
        simp [number?, List.foldlM_append, bind]
      rw [hstep, Option.bind_eq_some_iff]
      constructor
      · rintro ⟨k, hk, hi⟩
        exact (h.inside k path (ih.mp hk) segment i).mp hi
      · intro hi
        obtain ⟨k, -, hk, -⟩ := h.parent i path segment hi
        exact ⟨k, ih.mpr hk, (h.inside k path hk segment i).mpr hi⟩

theorem isSome_number?_iff (h : a.Lists paths) : (a.number? path).isSome = true ↔ path ∈ paths := by
  rw [Option.isSome_iff_exists, List.mem_iff_getElem?]
  simp only [h.number?_eq_some_iff]

theorem mem_of_prefix (h : a.Lists paths) (hp : path ∈ paths) (hq : q <+: path) : q ∈ paths := by
  obtain ⟨rest, rfl⟩ := hq
  induction rest using List.reverseRecOn with
  | nil => rwa [List.append_nil] at hp
  | append_singleton rest segment ih =>
      rw [← List.append_assoc] at hp
      exact ih (h.mem_of_concat hp)

theorem type?_eq_some_iff (h : a.Lists paths) {name : String} {m : Located Message} :
    a.type? q name = some m ↔ ∃ k, paths[k]? = some q ∧ a.typeIn? k name = some m := by
  rw [type?, Option.bind_eq_some_iff]
  simp only [h.number?_eq_some_iff]

/-- A new package holds no message. -/
theorem type?_create (h : a.Lists paths) (hi : paths[i]? = some path)
    (hp : PackagePath.Proper (path ++ [segment])) (hnew : a.inside? i segment = none)
    (q : PackagePath) (name : String) : (a.create i segment).type? q name = a.type? q name := by
  apply Option.ext
  intro m
  rw [(h.create hi hp hnew).type?_eq_some_iff, h.type?_eq_some_iff]
  simp only [typeIn?_create, getElem?_concat_eq_some_iff]
  constructor
  · rintro ⟨k, hk | ⟨rfl, rfl⟩, hm⟩
    · exact ⟨k, hk, hm⟩
    · rw [typeIn?, List.getElem?_eq_none (Nat.le_of_eq h.length)] at hm
      cases hm
  · rintro ⟨k, hk, hm⟩
    exact ⟨k, .inl hk, hm⟩

theorem enter (h : a.Lists paths) (hi : paths[i]? = some path)
    (hp : PackagePath.Proper (path ++ [segment])) :
    ∃ paths', (a.enter i segment).1.Lists paths' ∧ paths <+: paths' ∧
      paths'[(a.enter i segment).2]? = some (path ++ [segment]) ∧
      (∀ q, q ∈ paths' ↔ q ∈ paths ∨ q = path ++ [segment]) ∧
      ∀ q name, (a.enter i segment).1.type? q name = a.type? q name := by
  rw [Arena.enter]
  cases hnew : a.inside? i segment with
  | some j =>
      have hj := (h.inside i path hi segment j).mp hnew
      refine ⟨paths, h, List.prefix_refl _, hj, fun q => ⟨.inl, ?_⟩, fun q name => rfl⟩
      rintro (hq | rfl)
      · exact hq
      · exact List.mem_of_getElem? hj
  | none =>
      refine ⟨paths ++ [path ++ [segment]], h.create hi hp hnew, List.prefix_append _ _, ?_,
        fun q => by simp, h.type?_create hi hp hnew⟩
      exact getElem?_concat_eq_some_iff.mpr (.inr ⟨h.length, rfl⟩)

/-- A walk adds the packages that are missing on its way after all others. -/
theorem enterAll (h : a.Lists paths) (hi : paths[i]? = some path) {segments : List String}
    (hp : PackagePath.Proper (path ++ segments)) :
    ∃ paths', (a.enterAll i segments).1.Lists paths' ∧ paths <+: paths' ∧
      paths'[(a.enterAll i segments).2]? = some (path ++ segments) ∧
      (∀ q, q ∈ paths' ↔ q ∈ paths ∨ q <+: path ++ segments) ∧
      ∀ q name, (a.enterAll i segments).1.type? q name = a.type? q name := by
  induction segments generalizing a paths path i with
  | nil =>
      rw [List.append_nil]
      refine ⟨paths, h, List.prefix_refl _, hi, fun q => ⟨.inl, ?_⟩, fun q name => rfl⟩
      rintro (hq | hq)
      · exact hq
      · exact h.mem_of_prefix (List.mem_of_getElem? hi) hq
  | cons segment rest ih =>
      have hassoc : path ++ segment :: rest = path ++ [segment] ++ rest := by simp
      have hroot : ¬ (i = 0 ∧ segment = "") := by
        rintro ⟨rfl, rfl⟩
        obtain rfl := Option.some.inj (hi.symm.trans h.root)
        exact hp.1 rfl
      have hfirst : path ++ [segment] <+: path ++ segment :: rest := ⟨rest, hassoc.symm⟩
      obtain ⟨paths₁, h₁, hprefix₁, hi₁, hmem₁, htype₁⟩ := h.enter hi (hp.of_prefix hfirst)
      obtain ⟨paths₂, h₂, hprefix₂, hi₂, hmem₂, htype₂⟩ := ih h₁ hi₁ (hassoc ▸ hp)
      rw [Arena.enterAll, if_neg hroot]
      refine ⟨paths₂, h₂, hprefix₁.trans hprefix₂, hassoc ▸ hi₂, fun q => ?_,
        fun q name => (htype₂ q name).trans (htype₁ q name)⟩
      rw [hmem₂, hmem₁, ← hassoc, or_assoc]
      constructor
      · rintro (hq | rfl | hq)
        · exact .inl hq
        · exact .inr hfirst
        · exact .inr hq
      · rintro (hq | hq)
        · exact .inl hq
        · exact .inr (.inr hq)

theorem put (h : a.Lists paths) (i : Nat) (m : Located Message) : (a.put i m).Lists paths where
  length := by simp [Arena.put, h.length]
  root := h.root
  nodup := h.nodup
  proper := h.proper
  name := fun k path hk => (name_put a i k m).trans (h.name k path hk)
  inside := fun k path hk segment j => by rw [inside?_put, h.inside k path hk]
  around := (parent?_put a i 0 m).trans h.around
  parent := by
    intro j path segment hj
    obtain ⟨k, hkj, hk, hparent⟩ := h.parent j path segment hj
    exact ⟨k, hkj, hk, (parent?_put a i j m).trans hparent⟩

theorem type?_put (h : a.Lists paths) (hi : paths[i]? = some path) (m : Located Message)
    (q : PackagePath) (name : String) :
    (a.put i m).type? q name =
      if q = path ∧ m.item.name = name then some m else a.type? q name := by
  rw [type?, number?_put, type?]
  cases hk : a.number? q with
  | none =>
      have hq : q ≠ path := by
        rintro rfl
        rw [h.number?_eq_some_iff.mpr hi] at hk
        cases hk
      rw [if_neg fun hn => hq hn.1]
      rfl
  | some k =>
      have hk := h.number?_eq_some_iff.mp hk
      have hki : k = i ↔ q = path := by
        constructor
        · rintro rfl
          exact Option.some.inj (hk.symm.trans hi)
        · rintro rfl
          exact h.index_unique hk hi
      rw [Option.bind_some, Option.bind_some, typeIn?_put (h.lt_length hi)]
      simp only [hki]

/-- A registration adds the packages that are missing on the path of its text after all others. -/
theorem register (h : a.Lists paths) (text : String) (m : Located Message) :
    ∃ paths', (a.register text m).Lists paths' ∧ paths <+: paths' ∧
      (∀ q, q ∈ paths' ↔ q ∈ paths ∨ q <+: PackagePath.ofText text) ∧
      ∀ q name, (a.register text m).type? q name =
        if q = PackagePath.ofText text ∧ m.item.name = name then some m else a.type? q name := by
  obtain ⟨paths', hlists', hprefix, hi, hmem', htype'⟩ :=
    h.enterAll h.root (PackagePath.proper_ofText text)
  rw [Arena.register, enterAll_dropWhile]
  refine ⟨paths', hlists'.put _ m, hprefix, hmem', fun q name => ?_⟩
  rw [← htype']
  exact hlists'.type?_put hi m q name

end Lists

/-! ### The registry in an arena -/

/-- The arena holds the packages and the messages of the registry. -/
structure Represents (a : Arena) (r : Registry) : Prop where
  lists : ∃ paths, a.Lists paths ∧ ∀ path, path ∈ paths ↔ r.has path = true
  type? : ∀ path name, a.type? path name = r.type? path name

theorem Represents.register {a : Arena} {r : Registry} (h : a.Represents r) (text : String)
    (m : Located Message) :
    (a.register text m).Represents (r.insert (PackagePath.ofText text) m) := by
  obtain ⟨⟨paths, hlists, hmem⟩, htype⟩ := h
  obtain ⟨paths', hlists', -, hmem', htype'⟩ := hlists.register text m
  constructor
  · refine ⟨paths', hlists', fun path => ?_⟩
    rw [hmem', hmem, Registry.has_insert]
  · intro path name
    rw [Registry.type?_insert, ← htype, htype']

theorem represents_empty : empty.Represents .empty where
  lists := ⟨[[]], lists_empty, fun path => by rw [Registry.has_empty, List.mem_singleton]⟩
  type? := by
    intro path name
    rw [Registry.type?_empty]
    cases path <;> rfl

theorem Represents.registerEach {a : Arena} {r : Registry} (h : a.Represents r)
    (history : History) :
    (history.foldl (fun a e => a.register e.package e.message) a).Represents
      (r.registerEach history).value := by
  induction history generalizing a r with
  | nil => exact h
  | cons e history ih => exact ih (h.register e.package e.message)

theorem represents_ofHistory (history : History) :
    (ofHistory history).Represents (.ofHistory history) :=
  represents_empty.registerEach history

end Arena
end MessageSchema
