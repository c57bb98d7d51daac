import MessageSchema.Registry.Basic

/-! # Lookup of type names

A type name is a list of segments.  Below a package, all segments but the last may name packages,
and from some segment on they may name a message and the messages inside it.  The reading that
takes the first segment as a package is tried first; only if it finds nothing is the segment taken
as a message (`Scope.resolve`).  A name with a leading dot is looked up below the root, any other
name below the package where it is used and then below the packages around it
(`Registry.lookup`).

Main statement: whatever a lookup finds is declared in the registry (`mem_declared_of_lookup`),
which bounds how far a conversion can follow references. -/

namespace MessageSchema

/-- Follow `names` through nested messages, starting inside `m`; at each level the first message
of the name counts. -/
def Located.descend (m : Located Message) : List String → Logged (Option (Located Message))
  | [] => pure (some m)
  | name :: rest =>
      match m.nested.find? (·.item.name = name) with
      | some inner => inner.descend rest
      | none => do
          Logged.emit (.noNestedMessage name m.item.name)
          pure none

/-- A package as it is seen in its place: the segments of its path, innermost first, and the
package itself. -/
structure Scope where
  around : List String
  package : Package

namespace Scope

/-- The package of that last segment inside the one of `s`. -/
def inside? (s : Scope) (segment : String) : Option Scope :=
  (s.package.inside? segment).map fun p => ⟨segment :: s.around, p⟩

/-- Look up a list of segments below the package of `s`. -/
def resolve (s : Scope) : List String → Logged (Option (Located Message))
  | [] => pure none
  | [name] => pure (s.package.type? name)
  | segment :: next :: rest => do
      Logged.emit (.compoundName (next :: rest) segment s.around)
      let viaPackage ←
        (match s.inside? segment with
          | some inner => inner.resolve (next :: rest)
          | none => pure none)
      match viaPackage with
      | some m => pure (some m)
      | none =>
          match s.package.type? segment with
          | some m => m.descend (next :: rest)
          | none => do
              Logged.emit (.noPackageNorMessage segment s.around)
              pure none

/-- The packages on a path that starts inside `s`, the last one first, then that of `s`, and then
those of `outer`. -/
def enclosing (s : Scope) (outer : List Scope) : PackagePath → List Scope
  | [] => s :: outer
  | segment :: rest =>
      match s.inside? segment with
      | some inner => inner.enclosing (s :: outer) rest
      | none => s :: outer

/-- The first hit of a list of segments below one of the packages, tried in order. -/
def firstHit (names : List String) : List Scope → Logged (Option (Located Message))
  | [] => pure none
  | s :: rest => do
      match ← s.resolve names with
      | some m => pure (some m)
      | none => firstHit names rest

end Scope

namespace Registry

/-- The root as a scope. -/
def rootScope (r : Registry) : Scope := ⟨[], r.root⟩

/-- Look up a name below the package at `path`, without searching outwards. -/
def lookupBelow (r : Registry) (path : PackagePath) (name : String) :
    Logged (Option (Located Message)) :=
  match r.root.at? path with
  | some p => (Scope.mk path.reverse p).resolve (Text.pieces '.' name)
  | none => pure none

/-- Look up a name below the root; one leading dot is ignored. -/
def lookupRoot (r : Registry) (name : String) : Logged (Option (Located Message)) :=
  r.lookupBelow [] (Text.dropLeading '.' name)

/-- Look up a name as it is used in the package at `path`. -/
def lookup (r : Registry) (path : PackagePath) (name : String) :
    Logged (Option (Located Message)) :=
  if Text.startsWith '.' name then r.lookupRoot name
  else Scope.firstHit (Text.pieces '.' name) (r.rootScope.enclosing [] path)

end Registry

/-- The place of the package makes no difference to a name with a leading dot. -/
theorem Registry.lookup_of_startsWith (r : Registry) (path : PackagePath) {name : String}
    (h : Text.startsWith '.' name = true) : r.lookup path name = r.lookupRoot name :=
  if_pos h

/-! ### What a lookup finds is declared -/

theorem Located.mem_family_of_descend {m d : Located Message} {names : List String}
    (h : (m.descend names).value = some d) : d ∈ m.family := by
  induction names generalizing m with
  | nil =>
      obtain rfl : m = d := by simpa [descend] using h
      exact m.mem_family_self
  | cons name rest ih =>
      rw [descend] at h
      split at h
      next inner hf => exact family_subset_of_mem_nested (List.mem_of_find?_eq_some hf) _ (ih h)
      next => simp at h

theorem Package.mem_declared_of_at? {p q : Package} {path : PackagePath} (h : p.at? path = some q) :
    ∀ d ∈ q.declared, d ∈ p.declared := by
  induction path generalizing p with
  | nil =>
      obtain rfl : p = q := by simpa [at?] using h
      exact fun _ hd => hd
  | cons segment rest ih =>
      obtain ⟨c, hc, hq⟩ := Option.bind_eq_some_iff.mp h
      exact fun d hd => mem_declared_of_inside? hc d (ih hq d hd)

namespace Scope

variable {s : Scope} {d : Located Message}

theorem mem_declared_of_inner {inner : Scope} {segment : String}
    (h : s.inside? segment = some inner) (hd : d ∈ inner.package.declared) :
    d ∈ s.package.declared := by
  obtain ⟨p, hp, rfl⟩ := Option.map_eq_some_iff.mp h
  exact Package.mem_declared_of_inside? hp d hd

theorem mem_declared_of_resolve {names : List String}
    (h : (s.resolve names).value = some d) : d ∈ s.package.declared := by
  fun_induction resolve s names with
  | case1 => simp at h
  | case2 s name => exact Package.mem_declared_of_type? h d d.mem_family_self
  | case3 s segment next rest ih =>
      simp only [Logged.value_bind] at h
      split at h
      next m hm =>
        obtain rfl : m = d := by simpa using h
        split at hm
        next inner hi => exact mem_declared_of_inner hi (ih inner hm)
        next => simp at hm
      next =>
        split at h
        next m ht => exact Package.mem_declared_of_type? ht d (Located.mem_family_of_descend h)
        next => simp at h

theorem mem_declared_of_firstHit {names : List String} {l : List Scope}
    (h : (firstHit names l).value = some d) : ∃ s ∈ l, d ∈ s.package.declared := by
  induction l with
  | nil => simp [firstHit] at h
  | cons s rest ih =>
      simp only [firstHit, Logged.value_bind] at h
      split at h
      next m hm =>
        obtain rfl : m = d := by simpa using h
        exact ⟨s, List.mem_cons_self, mem_declared_of_resolve hm⟩
      next =>
        obtain ⟨t, ht, hd⟩ := ih h
        exact ⟨t, List.mem_cons_of_mem _ ht, hd⟩

/-- The packages on a path are `s` or inside it. -/
theorem mem_declared_of_enclosing {outer : List Scope} {path : PackagePath} {t : Scope}
    (ht : t ∈ s.enclosing outer path) (hd : d ∈ t.package.declared) :
    d ∈ s.package.declared ∨ t ∈ outer := by
  induction path generalizing s outer with
  | nil =>
      rcases List.mem_cons.mp ht with rfl | ht
      · exact .inl hd
      · exact .inr ht
  | cons segment rest ih =>
      rw [enclosing] at ht
      split at ht
      next inner hi =>
        rcases ih ht with h | h
        · exact .inl (mem_declared_of_inner hi h)
        · rcases List.mem_cons.mp h with rfl | h
          · exact .inl hd
          · exact .inr h
      next =>
        rcases List.mem_cons.mp ht with rfl | ht
        · exact .inl hd
        · exact .inr ht

end Scope

namespace Registry

variable {r : Registry} {path : PackagePath} {d : Located Message}

theorem mem_declared_of_lookupBelow {name : String}
    (h : (r.lookupBelow path name).value = some d) : d ∈ r.declared := by
  unfold lookupBelow at h
  split at h
  next p hp => exact Package.mem_declared_of_at? hp d (Scope.mem_declared_of_resolve h)
  next => simp at h

theorem mem_declared_of_lookup {name : String}
    (h : (r.lookup path name).value = some d) : d ∈ r.declared := by
  unfold lookup at h
  split at h
  · exact mem_declared_of_lookupBelow h
  · obtain ⟨s, hs, hd⟩ := Scope.mem_declared_of_firstHit h
    rcases Scope.mem_declared_of_enclosing hs hd with h | h
    · exact h
    · cases h

end Registry

end MessageSchema
