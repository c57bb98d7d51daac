import MessageSchema.Proofs.Readings

/-! # Packages by number

An arena holds the packages of a registry in a row, in the order of their creation.  A package
carries its full name and refers by number to the package around it and to the packages inside it.
A registration walks from the root along the segments of its package text, ignores empty segments
as long as it stands at the root, and creates the packages that are still missing.

Main statements: a creation adds a package at the end and changes nothing else but the packages
inside one package (`Arena.bind_create`, `Arena.inside?_create`), and a message that is put into a
package changes only what its name means there (`Arena.typeIn?_put`). -/

namespace MessageSchema

/-- A package in an arena: its full name, the number of the package around it, the numbers of the
packages inside it by their last segments, and its messages by their names. -/
structure Arena.Slot where
  name : String := ""
  parent? : Option Nat := none
  inner : Entries Nat := ∅
  types : Entries (Located Message) := ∅

/-- Packages in the order of their creation, each known by its position; the first is the root. -/
structure Arena where
  slots : List Arena.Slot := [{}]

namespace Arena

/-- The arena that holds the root alone. -/
def empty : Arena := {}

/-- The full name of the package of number `i`. -/
def name (a : Arena) (i : Nat) : String := (a.slots[i]?.map Slot.name).getD ""

/-- The number of the package around that of number `i`. -/
def parent? (a : Arena) (i : Nat) : Option Nat := a.slots[i]?.bind Slot.parent?

/-- The number of the package of that last segment inside that of number `i`. -/
def inside? (a : Arena) (i : Nat) (segment : String) : Option Nat :=
  a.slots[i]?.bind fun s => Entries.get? segment s.inner

/-- The number of the package at a path. -/
def number? (a : Arena) (path : PackagePath) : Option Nat := path.foldlM a.inside? 0

/-- The message of that name in the package of number `i`. -/
def typeIn? (a : Arena) (i : Nat) (name : String) : Option (Located Message) :=
  a.slots[i]?.bind fun s => Entries.get? name s.types

/-- The message of that name in the package at a path. -/
def type? (a : Arena) (path : PackagePath) (name : String) : Option (Located Message) :=
  (a.number? path).bind (a.typeIn? · name)

/-- The number of the package that a text names.  One leading dot is ignored, and the empty text
names the root. -/
def package? (a : Arena) (text : String) : Option Nat :=
  let text := Text.dropLeading '.' text
  if text = "" then some 0 else a.number? (Text.pieces '.' text)

/-- The arena with a new package of that last segment inside that of number `i`. -/
def create (a : Arena) (i : Nat) (segment : String) : Arena :=
  let name := if a.name i = "" then segment else a.name i ++ "." ++ segment
  let slots := a.slots.modify i fun s =>
    { s with inner := Entries.insert segment a.slots.length s.inner }
  ⟨slots ++ [{ name, parent? := some i }]⟩

/-- The package of that last segment inside that of number `i`, created if it is missing. -/
def enter (a : Arena) (i : Nat) (segment : String) : Arena × Nat :=
  match a.inside? i segment with
  | some j => (a, j)
  | none => (a.create i segment, a.slots.length)

/-- The package to which segments lead from that of number `i`, missing packages created on the
way; empty segments at the root are ignored. -/
def enterAll (a : Arena) (i : Nat) : List String → Arena × Nat
  | [] => (a, i)
  | segment :: rest =>
      if i = 0 ∧ segment = "" then a.enterAll i rest
      else (a.enter i segment).1.enterAll (a.enter i segment).2 rest

/-- The arena with `m` in the package of number `i`. -/
def put (a : Arena) (i : Nat) (m : Located Message) : Arena :=
  ⟨a.slots.modify i fun s => { s with types := Entries.insert m.item.name m s.types }⟩

/-- Register `m` under a package text. -/
def register (a : Arena) (package : String) (m : Located Message) : Arena :=
  let (b, i) := a.enterAll 0 (Text.pieces '.' package)
  b.put i m

/-- The arena that a history makes of the one that holds the root alone. -/
def ofHistory (history : History) : Arena :=
  history.foldl (fun a e => a.register e.package e.message) empty

/-! ### What the steps of a registration change -/

section steps
variable {a : Arena} {i k : Nat} {segment s name : String} {m : Located Message}

/-- What a change of one slot leaves as it is can be read from the slots before. -/
theorem bind_getElem?_modify {β : Type} {g : Slot → Option β} {f : Slot → Slot}
    (h : ∀ s, g (f s) = g s) (l : List Slot) (i k : Nat) :
    (l.modify i f)[k]?.bind g = l[k]?.bind g := by
  rw [List.getElem?_modify]
  cases l[k]? with
  | none => rfl
  | some s =>
      by_cases hk : i = k
      · simp [hk, h]
      · simp [hk]

/-- Of a slot that was there before, a creation changes the packages inside it only. -/
theorem bind_create {β : Type} {g : Slot → Option β} (h : ∀ s inner, g { s with inner } = g s)
    (a : Arena) (i k : Nat) (segment : String) :
    (a.create i segment).slots[k]?.bind g =
      if k = a.slots.length then
        g { name := if a.name i = "" then segment else a.name i ++ "." ++ segment
            parent? := some i }
      else a.slots[k]?.bind g := by
  rw [create, List.getElem?_append, List.length_modify]
  by_cases hlt : k < a.slots.length
  · rw [if_pos hlt, if_neg (Nat.ne_of_lt hlt), bind_getElem?_modify]
    exact fun s => h s _
  · by_cases hk : k = a.slots.length
    · simp [hk]
    · rw [if_neg hlt, if_neg hk, List.getElem?_eq_none (by simp; omega),
        List.getElem?_eq_none (by omega)]

theorem name_create (a : Arena) (i k : Nat) (segment : String) :
    (a.create i segment).name k =
      if k = a.slots.length then (if a.name i = "" then segment else a.name i ++ "." ++ segment)
      else a.name k := by
  have h := bind_create (g := fun s => some s.name) (fun _ _ => rfl) a i k segment
  rw [name, Option.map_eq_bind]
  refine (congrArg (Option.getD · "") h).trans ?_
  split
  · rfl
  · rw [name, Option.map_eq_bind]
    rfl

theorem parent?_create (a : Arena) (i k : Nat) (segment : String) :
    (a.create i segment).parent? k = if k = a.slots.length then some i else a.parent? k :=
  bind_create (fun _ _ => rfl) a i k segment

theorem typeIn?_create (a : Arena) (i k : Nat) (segment name : String) :
    (a.create i segment).typeIn? k name = a.typeIn? k name := by
  rw [typeIn?, bind_create (fun _ _ => rfl)]
  split
  next hk =>
    rw [typeIn?, List.getElem?_eq_none (Nat.le_of_eq hk.symm)]
    rfl
  next => rfl

theorem inside?_create (hi : i < a.slots.length) :
    (a.create i segment).inside? k s =
      if k = i ∧ segment = s then some a.slots.length else a.inside? k s := by
  rw [inside?, create, List.getElem?_append, List.length_modify, List.getElem?_modify]
  by_cases hlt : k < a.slots.length
  · rw [if_pos hlt, inside?, List.getElem?_eq_getElem hlt]
    by_cases hk : k = i
    · simp [hk, Entries.get?_insert]
    · simp [hk, Ne.symm hk]
  · have hki : ¬ (k = i ∧ segment = s) := fun h => hlt (h.1 ▸ hi)
    rw [if_neg hlt, if_neg hki, inside?, List.getElem?_eq_none (Nat.le_of_not_lt hlt)]
    cases h : k - a.slots.length <;> rfl

theorem inside?_put (a : Arena) (i k : Nat) (m : Located Message) (s : String) :
    (a.put i m).inside? k s = a.inside? k s := by
  rw [inside?, put, bind_getElem?_modify, inside?]
  exact fun _ => rfl

theorem number?_put (a : Arena) (i : Nat) (m : Located Message) (path : PackagePath) :
    (a.put i m).number? path = a.number? path := by
  have h : (a.put i m).inside? = a.inside? := by
    funext k s
    exact inside?_put a i k m s
  rw [number?, h, number?]

theorem parent?_put (a : Arena) (i k : Nat) (m : Located Message) :
    (a.put i m).parent? k = a.parent? k := by
  rw [parent?, put, bind_getElem?_modify, parent?]
  exact fun _ => rfl

theorem name_put (a : Arena) (i k : Nat) (m : Located Message) : (a.put i m).name k = a.name k := by
  rw [name, put, Option.map_eq_bind, bind_getElem?_modify, name, Option.map_eq_bind]
  exact fun _ => rfl

theorem typeIn?_put (hi : i < a.slots.length) :
    (a.put i m).typeIn? k name =
      if k = i ∧ m.item.name = name then some m else a.typeIn? k name := by
  rw [typeIn?, put, List.getElem?_modify, typeIn?]
  by_cases hk : k = i
  · subst hk
    rw [List.getElem?_eq_getElem hi]
    simp [Entries.get?_insert]
  · simp [hk, Ne.symm hk]

end steps

end Arena
end MessageSchema
