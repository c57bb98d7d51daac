import MessageSchema.Descriptor
import MessageSchema.Entries
import MessageSchema.Logged

/-! # The registry of message types

A package holds messages and further packages, both by name, and the registry is the tree of
packages below the root.  Registering a message at a path creates the packages that are still
missing on the way (`Package.insert`) and puts the message under its name in the last one, where
it replaces a message registered there before.

Main statements: after a registration the packages are those that were there and those on the path
(`Registry.has_insert`), and the only name that can lead elsewhere is that of the message in its
package (`Registry.type?_insert`). -/

namespace MessageSchema

/-- The messages registered in a package and the packages inside it. -/
structure Package where
  types : Entries (Located Message) := ∅
  inner : Entries Package := ∅
deriving Repr

namespace Package

/-- The package inside `p` of that last segment. -/
def inside? (p : Package) (segment : String) : Option Package := Entries.get? segment p.inner

/-- The message of that name registered in `p`. -/
def type? (p : Package) (name : String) : Option (Located Message) := Entries.get? name p.types

/-- The package at a path that starts inside `p`. -/
def at? (p : Package) : PackagePath → Option Package
  | [] => some p
  | segment :: rest => (p.inside? segment).bind fun q => q.at? rest

/-- `p` with `m` in the package at a path that starts inside it, missing packages created on the
way. -/
def insert (p : Package) (m : Located Message) : PackagePath → Package
  | [] => { p with types := Entries.insert m.item.name m p.types }
  | segment :: rest =>
      let q := ((p.inside? segment).getD {}).insert m rest
      { p with inner := Entries.insert segment q p.inner }

mutual

/-- The messages registered in a package or inside it, and those declared inside them. -/
def declared : Package → List (Located Message)
  | ⟨types, ⟨rows⟩⟩ => types.toList.flatMap (·.2.family) ++ declaredInside rows

/-- The messages of packages in rows. -/
def declaredInside : {names : List String} → Rows Package names → List (Located Message)
  | _, .nil => []
  | _, .cons _ p rest _ => p.declared ++ declaredInside rest

end

end Package

/-- The tree of packages. -/
structure Registry where
  root : Package := {}
deriving Repr

namespace Registry

/-- The registry that holds the root alone. -/
def empty : Registry := {}

/-- Whether a package stands at `path`. -/
def has (r : Registry) (path : PackagePath) : Bool := (r.root.at? path).isSome

/-- The message of that name registered in the package at `path`. -/
def type? (r : Registry) (path : PackagePath) (name : String) : Option (Located Message) :=
  (r.root.at? path).bind (·.type? name)

/-- All messages of the registry: the registered ones and those declared inside them. -/
def declared (r : Registry) : List (Located Message) := r.root.declared

/-- The registry with `m` in the package at `path`, missing packages created on the way. -/
def insert (r : Registry) (path : PackagePath) (m : Located Message) : Registry :=
  ⟨r.root.insert m path⟩

/-- Register `m` under a package text. -/
def register (r : Registry) (package : String) (m : Located Message) : Logged Registry := do
  let path := PackagePath.ofText package
  Logged.emit (.typeRegistered m.item.name path)
  pure (r.insert path m)

/-- The path of the package that a text names.  One leading dot is ignored, and the empty text
names the root. -/
def package? (r : Registry) (text : String) : Option PackagePath :=
  let text := Text.dropLeading '.' text
  if text = "" then some []
  else
    let path := Text.pieces '.' text
    if r.has path then some path else none

end Registry

/-! ### Packages and messages after a registration -/

namespace Package

theorem inside?_insert_nil (p : Package) (m : Located Message) (segment : String) :
    (p.insert m []).inside? segment = p.inside? segment := rfl

theorem inside?_insert_cons (p : Package) (m : Located Message) (s : String) (rest : PackagePath)
    (segment : String) :
    (p.insert m (s :: rest)).inside? segment =
      if s = segment then some (((p.inside? s).getD {}).insert m rest) else p.inside? segment :=
  Entries.get?_insert ..

theorem at?_empty (q : PackagePath) : ({} : Package).at? q = if q = [] then some {} else none := by
  cases q <;> simp [at?, inside?]

theorem isSome_at?_insert (p : Package) (m : Located Message) (path q : PackagePath) :
    ((p.insert m path).at? q).isSome = true ↔ (p.at? q).isSome = true ∨ q <+: path := by
  induction path generalizing p q with
  | nil =>
      cases q with
      | nil => simp [at?]
      | cons s q => simp [at?, inside?_insert_nil]
  | cons segment rest ih =>
      cases q with
      | nil => simp [at?]
      | cons s q =>
          simp only [at?, inside?_insert_cons, List.cons_prefix_cons]
          by_cases h : segment = s
          · subst h
            cases hp : p.inside? segment with
            | none =>
                simp only [if_true, Option.getD_none, Option.bind_some, ih, at?_empty]
                by_cases hq : q = [] <;> simp [hq]
            | some c => simp [ih]
          · simp [h, Ne.symm h]

theorem type?_at?_insert (p : Package) (m : Located Message) (path q : PackagePath)
    (name : String) :
    ((p.insert m path).at? q).bind (·.type? name) =
      if q = path ∧ m.item.name = name then some m else (p.at? q).bind (·.type? name) := by
  induction path generalizing p q with
  | nil =>
      cases q with
      | nil => simp [at?, insert, type?, Entries.get?_insert]
      | cons s q => simp [at?, inside?_insert_nil]
  | cons segment rest ih =>
      cases q with
      | nil => simp [at?, insert, type?]
      | cons s q =>
          simp only [at?, inside?_insert_cons, List.cons.injEq]
          by_cases h : segment = s
          · subst h
            cases hp : p.inside? segment with
            | none =>
                simp only [if_true, Option.getD_none, Option.bind_some, ih, at?_empty]
                by_cases hq : q = [] <;> simp [hq, type?]
            | some c => simp [ih]
          · simp [h, Ne.symm h]

theorem mem_declared_of_type? {p : Package} {name : String} {m : Located Message}
    (h : p.type? name = some m) : ∀ d ∈ m.family, d ∈ p.declared := by
  intro d hd
  obtain ⟨types, ⟨rows⟩⟩ := p
  exact List.mem_append_left _ (List.mem_flatMap.mpr ⟨_, Entries.get?_eq_some_iff.mp h, hd⟩)

theorem mem_declaredInside {names : List String} {rows : Rows Package names}
    {e : String × Package} (he : e ∈ rows.toList) :
    ∀ d ∈ e.2.declared, d ∈ declaredInside rows := by
  intro d hd
  induction rows with
  | nil => cases he
  | cons name p rest _ ih =>
      rw [declaredInside]
      rcases List.mem_cons.mp he with rfl | he
      · exact List.mem_append_left _ hd
      · exact List.mem_append_right _ (ih he)

theorem mem_declared_of_inside? {p q : Package} {segment : String}
    (h : p.inside? segment = some q) : ∀ d ∈ q.declared, d ∈ p.declared := by
  intro d hd
  obtain ⟨types, ⟨rows⟩⟩ := p
  exact List.mem_append_right _ (mem_declaredInside (Entries.get?_eq_some_iff.mp h) d hd)

end Package

namespace Registry

theorem has_insert (r : Registry) (path q : PackagePath) (m : Located Message) :
    (r.insert path m).has q = true ↔ r.has q = true ∨ q <+: path :=
  r.root.isSome_at?_insert m path q

theorem type?_insert (r : Registry) (path q : PackagePath) (m : Located Message) (name : String) :
    (r.insert path m).type? q name =
      if q = path ∧ m.item.name = name then some m else r.type? q name :=
  r.root.type?_at?_insert m path q name

end Registry

end MessageSchema
