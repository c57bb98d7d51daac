import MessageSchema.Proofs.Arena.Paths

/-! # The search outwards

A name without a leading dot is looked up below the package where it is used, then below the
package around it, and so on up to the root.  In an arena the way leads from a package to the one
around it by number (`Arena.FindsOutward`), and on paths it takes the prefixes from the longest to
the empty one.

Main statement: both ways end with what the lookup finds; and whatever is found below a package has
a name that is read from everywhere alike, which is the name that led to it with a leading dot and
the name of that package in front (`Registry.lookup_searches_outward`). -/

namespace MessageSchema

/-! ### Names read from the root -/

/-- A name that is used in the package at `path`, as it is read from everywhere. -/
def PackagePath.qualified (path : PackagePath) (name : String) : String :=
  if path = [] then "." ++ name else "." ++ path.name ++ "." ++ name

theorem PackagePath.startsWith_qualified (path : PackagePath) (name : String) :
    Text.startsWith '.' (path.qualified name) = true := by
  rw [qualified, Text.startsWith_iff]
  split <;> simp

theorem PackagePath.Proper.pieces_qualified {path : PackagePath} (h : path.Proper)
    (name : String) :
    Text.pieces '.' (Text.dropLeading '.' (path.qualified name)) =
      path ++ Text.pieces '.' name := by
  rw [qualified]
  by_cases hp : path = []
  · subst hp
    exact congrArg (Text.pieces '.') (Text.dropLeading_append '.' name)
  · have hdot : "." ++ path.name ++ "." ++ name =
        String.singleton '.' ++ (path.name ++ String.singleton '.' ++ name) := by
      simp only [String.append_assoc]
      rfl
    rw [if_neg hp, hdot, Text.dropLeading_append, Text.pieces_append, h.pieces_name hp]

namespace Registry

variable {history : History} {path q : PackagePath} {name : String} {d : Located Message}

theorem proper_of_has (h : (ofHistory history).has q = true) : q.Proper := by
  rcases has_ofHistory.mp h with rfl | ⟨e, _, hq⟩
  · exact ⟨by simp, by simp⟩
  · exact PackagePath.Proper.of_prefix (PackagePath.proper_ofText e.package) hq

theorem has_of_lookupBelow {r : Registry} (h : (r.lookupBelow q name).value = some d) :
    r.has q = true := by
  rw [lookupBelow] at h
  rw [has]
  cases hp : r.root.at? q with
  | none =>
      rw [hp] at h
      cases h
  | some p => rfl

/-- The name of a package names it. -/
theorem package?_name (h : (ofHistory history).has q = true) :
    (ofHistory history).package? q.name = some q := by
  have hproper := proper_of_has h
  rw [package?, hproper.dropLeading_name]
  simp only [hproper.name_eq_empty_iff]
  by_cases hq : q = []
  · rw [if_pos hq, hq]
  · rw [if_neg hq, hproper.pieces_name hq, if_pos h]

/-- The reading that leads to a message below a package is the longest one from the root too, with
the way to the package in front. -/
theorem lookupRoot_qualified (h : ((ofHistory history).lookupBelow q name).value = some d) :
    ((ofHistory history).lookupRoot (q.qualified name)).value = some d := by
  have hproper := proper_of_has (has_of_lookupBelow h)
  have hbelow := isLongest_lookupBelow history q name
  have hroot := isLongest_lookupBelow history [] (Text.dropLeading '.' (q.qualified name))
  rw [h] at hbelow
  rw [hproper.pieces_qualified, List.length_append] at hroot
  refine hroot.unique (IsLongest.shift (hbelow.congr ?_))
  intro k _
  exact history.reading?_append [] q _ k

/-! ### The first hit on the way outwards -/

theorem lookup_nil (r : Registry) (h : ¬ Text.startsWith '.' name = true) :
    (r.lookup [] name).value = (r.lookupBelow [] name).value := by
  rw [value_lookup _ _ h, PackagePath.outward, List.findSome?_singleton]

theorem lookup_concat (r : Registry) (path : PackagePath) (segment : String)
    (h : ¬ Text.startsWith '.' name = true) :
    (r.lookup (path ++ [segment]) name).value =
      (r.lookupBelow (path ++ [segment]) name).value.or (r.lookup path name).value := by
  rw [value_lookup _ _ h, value_lookup _ _ h, PackagePath.outward_concat, List.findSome?_cons]
  cases (r.lookupBelow (path ++ [segment]) name).value <;> rfl

theorem isLongest_lookup_prefixes (r : Registry) (path : PackagePath)
    (h : ¬ Text.startsWith '.' name = true) :
    IsLongest (fun k => (r.lookupBelow (path.take k) name).value) (path.length + 1)
      (r.lookup path name).value := by
  induction path using List.reverseRecOn with
  | nil =>
      have hroot : IsLongest (fun k => (r.lookupBelow (List.take k []) name).value) (0 + 1) _ :=
        isLongest_zero.top
      rw [lookup_nil r h]
      simpa using hroot
  | append_singleton path segment ih =>
      have hprefixes : IsLongest (fun k => (r.lookupBelow ((path ++ [segment]).take k) name).value)
          (path.length + 1) (r.lookup path name).value := by
        refine ih.congr fun k hk => ?_
        rw [List.take_append_of_le_length (by omega)]
      have hall := hprefixes.top
      rw [lookup_concat r path segment h, List.length_append]
      rwa [List.take_of_length_le (by simp)] at hall

theorem value_lookupBelow_of_not_mem (r : Registry) (q : PackagePath) (h : '.' ∉ name.toList) :
    (r.lookupBelow q name).value = r.type? q name := by
  rw [lookupBelow, type?, Text.pieces_of_not_mem h]
  cases r.root.at? q <;> rfl

end Registry

/-! ### The way outwards by number -/

/-- What is found on the way outwards from the package of number `i`, if `find` says what is found
below each package: the first hit, or nothing if the way ends at a package with none around it. -/
inductive Arena.FindsOutward {α : Type} (a : Arena) (find : Nat → Option α) :
    Nat → Option α → Prop where
  | here {i : Nat} {x : α} (h : find i = some x) : FindsOutward a find i (some x)
  | around {i j : Nat} {v : Option α} (h : find i = none) (hj : a.parent? i = some j)
      (hv : FindsOutward a find j v) : FindsOutward a find i v
  | nowhere {i : Nat} (h : find i = none) (hi : a.parent? i = none) : FindsOutward a find i none

/-- The way outwards by number passes the packages on the path outwards. -/
theorem Arena.Lists.findsOutward {α : Type} {a : Arena} {paths : List PackagePath}
    (h : a.Lists paths) {find : Nat → Option α} {read : PackagePath → Option α}
    (hfind : ∀ i path, paths[i]? = some path → find i = read path) {i : Nat} {path : PackagePath}
    (hi : paths[i]? = some path) :
    a.FindsOutward find i ((PackagePath.outward path).findSome? read) := by
  induction path using List.reverseRecOn generalizing i with
  | nil =>
      have hroot := hfind i [] hi
      rw [PackagePath.outward, List.findSome?_singleton, ← hroot]
      cases hf : find i with
      | some x => exact .here hf
      | none =>
          obtain rfl := h.index_unique hi h.root
          exact .nowhere hf h.around
  | append_singleton path segment ih =>
      obtain ⟨j, -, hj, hparent⟩ := h.parent i path segment hi
      rw [PackagePath.outward_concat, List.findSome?_cons, ← hfind i _ hi]
      cases hf : find i with
      | some x => exact .here hf
      | none => exact .around hf hparent (ih hj)

namespace Registry

variable {history : History} {path : PackagePath} {name : String}

/-- A lookup ends on the way from package to package by number. -/
theorem exists_findsOutward (hp : (ofHistory history).has path = true)
    (hn : ¬ Text.startsWith '.' name = true) :
    ∃ i, (Arena.ofHistory history).number? path = some i ∧
      (Arena.ofHistory history).FindsOutward
        (fun j => ((ofHistory history).package? ((Arena.ofHistory history).name j)).bind fun q =>
          ((ofHistory history).lookupBelow q name).value)
        i ((ofHistory history).lookup path name).value := by
  obtain ⟨⟨paths, hlists, hmem⟩, -⟩ := Arena.represents_ofHistory history
  obtain ⟨i, hi⟩ := List.mem_iff_getElem?.mp ((hmem path).mpr hp)
  refine ⟨i, hlists.number?_eq_some_iff.mpr hi, ?_⟩
  rw [value_lookup _ _ hn]
  refine hlists.findsOutward ?_ hi
  intro j q hj
  have hq := package?_name ((hmem q).mp (List.mem_of_getElem? hj))
  rw [hlists.name j q hj, hq, Option.bind_some]

/-- A name without a leading dot is looked up below the package where it is used and then below one
package after the other on the way outwards, and the first hit counts: by number from each package
to the one around it, and on paths from the longest prefix to the empty one.  What is found below
any package is found from everywhere under the name with that of the package in front.  A name
without dots denotes its last registration in the innermost package that has one. -/
theorem lookup_searches_outward (hp : (ofHistory history).has path = true)
    (hn : ¬ Text.startsWith '.' name = true) :
    (∃ i, (Arena.ofHistory history).number? path = some i ∧
      (Arena.ofHistory history).FindsOutward
        (fun j => ((ofHistory history).package? ((Arena.ofHistory history).name j)).bind fun q =>
          ((ofHistory history).lookupBelow q name).value)
        i ((ofHistory history).lookup path name).value) ∧
    IsLongest (fun k => ((ofHistory history).lookupBelow (path.take k) name).value)
      (path.length + 1) ((ofHistory history).lookup path name).value ∧
    (∀ q d, ((ofHistory history).lookupBelow q name).value = some d →
      ((ofHistory history).lookupRoot (q.qualified name)).value = some d ∧
      ∀ p, ((ofHistory history).lookup p (q.qualified name)).value = some d) ∧
    ('.' ∉ name.toList →
      IsLongest (fun k => history.last? (path.take k) name) (path.length + 1)
        ((ofHistory history).lookup path name).value) := by
  have hprefixes := isLongest_lookup_prefixes (ofHistory history) path hn
  refine ⟨exists_findsOutward hp hn, hprefixes, ?_, ?_⟩
  · intro q d hd
    have hroot := lookupRoot_qualified hd
    refine ⟨hroot, fun p => ?_⟩
    rwa [lookup_of_startsWith _ _ (q.startsWith_qualified name)]
  · intro hdot
    refine hprefixes.congr fun k _ => ?_
    rw [value_lookupBelow_of_not_mem _ _ hdot, type?_ofHistory]

/-! ### A package inside another one -/

namespace PointTypes

/-- A point with its axis, for two packages. -/
def point (i : Nat) : Located Message :=
  ⟨[i], { name? := some "Point", nested := [{ name? := some "Axis" }] }⟩

/-- Points of the root and of `geo`, and a package inside `geo` that has none. -/
def points : History :=
  [⟨"geo.shapes", ⟨[0], { name? := some "Circle" }⟩⟩, ⟨"", point 1⟩, ⟨".geo", point 2⟩]

/-- From the inner package the points of `geo` hide those of the root, and what is inside them is
found from everywhere by the name of their package. -/
theorem lookup_point :
    (ofHistory points).has ["geo", "shapes"] = true ∧
      ¬ Text.startsWith '.' "Point.Axis" = true ∧ ¬ Text.startsWith '.' "Point" = true ∧
      ((ofHistory points).lookup ["geo", "shapes"] "Point.Axis").value =
        some ⟨[2, 0], { name? := some "Axis" }⟩ ∧
      ((ofHistory points).lookupRoot ".geo.Point.Axis").value =
        some ⟨[2, 0], { name? := some "Axis" }⟩ ∧
      IsLongest (fun k => points.last? (["geo", "shapes"].take k) "Point") 3 (some (point 2)) := by
  have hp : (ofHistory points).has ["geo", "shapes"] = true := by decide
  have haxis : ¬ Text.startsWith '.' "Point.Axis" = true := by decide
  have hpoint : ¬ Text.startsWith '.' "Point" = true := by decide
  obtain ⟨-, -, hqualified, -⟩ := lookup_searches_outward hp haxis
  obtain ⟨-, -, -, hlast⟩ := lookup_searches_outward hp hpoint
  have hvalue : ((ofHistory points).lookup ["geo", "shapes"] "Point").value = some (point 2) := by
    decide
  refine ⟨hp, haxis, hpoint, by decide, (hqualified ["geo"] _ (by decide)).1, ?_⟩
  rw [← hvalue]
  exact hlast (by decide)

end PointTypes

end Registry

end MessageSchema
