/-! # Named entries

Entries are values under names, and no two of them have one name: a row stands in front of others
only with the proof that its name is new (`Rows`).  So a value of the type `Entries` is always a
map, and a tree can hold maps from names to its own subtrees.

Inserting a name that is already there replaces its entry in place; a new name goes to the end, so
names stand in the order of their first insertion (`Entries.keys_insert`).  Entries are used as the
list of their rows, and a list stands for the entries that it makes when its rows are inserted in
order (`Entries.ofList_toList`). -/

namespace MessageSchema

/-- A search finds the only element with the property. -/
theorem find?_eq_some_iff_of_unique {α : Type} {p : α → Bool} {l : List α} {a : α}
    (hu : ∀ x ∈ l, ∀ y ∈ l, p x → p y → x = y) : l.find? p = some a ↔ a ∈ l ∧ p a := by
  refine ⟨fun h => ⟨List.mem_of_find?_eq_some h, List.find?_some h⟩, ?_⟩
  rintro ⟨ha, hp⟩
  cases h : l.find? p with
  | none => exact absurd hp (List.find?_eq_none.mp h a ha)
  | some b => rw [hu b (List.mem_of_find?_eq_some h) a ha (List.find?_some h) hp]

/-- Values under different names; the index lists the names in order. -/
inductive Rows (α : Type) : List String → Type where
  | nil : Rows α []
  | cons {names : List String} (name : String) (a : α) (rest : Rows α names)
      (hnew : name ∉ names) : Rows α (name :: names)

/-- Named entries in order, in which every name occurs once. -/
structure Entries (α : Type) where
  {keys : List String}
  rows : Rows α keys

/-! ### Lists of rows -/

namespace Entries

section lists
variable {α : Type} {name : String} {a : α} {l : List (String × α)}

/-- The names in order. -/
def names (l : List (String × α)) : List String := l.map Prod.fst

@[simp] theorem names_nil : names ([] : List (String × α)) = [] := rfl

@[simp] theorem names_cons (e : String × α) (l : List (String × α)) :
    names (e :: l) = e.1 :: names l := rfl

@[simp] theorem names_append (l l' : List (String × α)) : names (l ++ l') = names l ++ names l' :=
  List.map_append

theorem lookup_cons (name n : String) (a : α) (l : List (String × α)) :
    ((n, a) :: l).lookup name = if n = name then some a else l.lookup name := by
  rw [List.lookup_cons]
  by_cases h : n = name
  · simp [h]
  · simp [h, beq_false_of_ne (Ne.symm h)]

/-- Set the value of `name`, in place if the name is there and at the end if it is new. -/
def put (name : String) (a : α) : List (String × α) → List (String × α)
  | [] => [(name, a)]
  | (n, b) :: rest => if n = name then (n, a) :: rest else (n, b) :: put name a rest

theorem put_of_not_mem (h : name ∉ names l) (a : α) : put name a l = l ++ [(name, a)] := by
  induction l with
  | nil => rfl
  | cons e rest ih =>
      obtain ⟨n, b⟩ := e
      have hn : n ≠ name := fun he => h (he ▸ List.mem_cons_self)
      rw [put, if_neg hn, ih fun hm => h (List.mem_cons_of_mem _ hm), List.cons_append]

theorem names_put (name : String) (a : α) (l : List (String × α)) :
    names (put name a l) = if name ∈ names l then names l else names l ++ [name] := by
  by_cases hm : name ∈ names l
  · rw [if_pos hm]
    induction l with
    | nil => cases hm
    | cons e rest ih =>
        obtain ⟨n, b⟩ := e
        rw [put]
        by_cases hn : n = name
        · rw [if_pos hn]
          rfl
        · have hrest : name ∈ names rest := (List.mem_cons.mp hm).resolve_left (Ne.symm hn)
          rw [if_neg hn, names_cons, names_cons, ih hrest]
  · rw [if_neg hm, put_of_not_mem hm, names_append]
    rfl

theorem nodup_names_put (name : String) (a : α) (h : (names l).Nodup) :
    (names (put name a l)).Nodup := by
  rw [names_put]
  split
  · exact h
  next hm =>
    refine List.nodup_append.mpr ⟨h, by simp, fun x hx y hy => ?_⟩
    rintro rfl
    exact hm (List.mem_singleton.mp hy ▸ hx)

theorem lookup_put (name other : String) (a : α) (l : List (String × α)) :
    (put name a l).lookup other = if name = other then some a else l.lookup other := by
  induction l with
  | nil => rw [put, lookup_cons]
  | cons e rest ih =>
      obtain ⟨n, b⟩ := e
      rw [put, lookup_cons]
      by_cases hn : n = name
      · rw [if_pos hn, lookup_cons, hn]
        split <;> rfl
      · rw [if_neg hn, lookup_cons, ih]
        by_cases h : name = other
        · rw [if_pos h, if_pos h, if_neg fun he => hn (he.trans h.symm)]
        · rw [if_neg h, if_neg h]

end lists

end Entries

/-! ### Rows -/

namespace Rows

variable {α β : Type} {names : List String}

/-- The rows as a list. -/
def toList : {names : List String} → Rows α names → List (String × α)
  | _, nil => []
  | _, cons name a rest _ => (name, a) :: rest.toList

/-- The value under `name`. -/
def get? (name : String) : {names : List String} → Rows α names → Option α
  | _, nil => none
  | _, cons n a rest _ => if n = name then some a else rest.get? name

/-- The rows with `g` applied to each value. -/
def map (g : α → β) : {names : List String} → Rows α names → Rows β names
  | _, nil => nil
  | _, cons name a rest hnew => cons name (g a) (rest.map g) hnew

theorem names_toList : ∀ {names : List String} (rows : Rows α names),
    Entries.names rows.toList = names
  | _, nil => rfl
  | _, cons name _ rest _ => congrArg (name :: ·) rest.names_toList

theorem nodup : ∀ {names : List String}, Rows α names → names.Nodup
  | _, nil => .nil
  | _, cons _ _ rest hnew => List.nodup_cons.mpr ⟨hnew, rest.nodup⟩

theorem get?_eq_lookup (name : String) : ∀ {names : List String} (rows : Rows α names),
    rows.get? name = rows.toList.lookup name
  | _, nil => rfl
  | _, cons n a rest _ => by rw [get?, toList, Entries.lookup_cons, rest.get?_eq_lookup name]

theorem toList_map (g : α → β) : ∀ {names : List String} (rows : Rows α names),
    (rows.map g).toList = rows.toList.map fun e => (e.1, g e.2)
  | _, nil => rfl
  | _, cons name a rest _ => congrArg ((name, g a) :: ·) (rest.toList_map g)

theorem toList_injective {rows rows' : Rows α names} (h : rows.toList = rows'.toList) :
    rows = rows' := by
  induction rows with
  | nil =>
      cases rows'
      rfl
  | cons name a rest hnew ih =>
      cases rows' with
      | cons _ a' rest' _ =>
          simp only [toList, List.cons.injEq, Prod.mk.injEq, true_and] at h
          rw [h.1, ih h.2]

end Rows

/-! ### Entries -/

namespace Entries

variable {α β : Type} {name : String} {a : α} {es es' : Entries α}

/-- The entries as a list. -/
def toList (es : Entries α) : List (String × α) := es.rows.toList

instance : CoeOut (Entries α) (List (String × α)) := ⟨toList⟩

instance : EmptyCollection (Entries α) := ⟨⟨.nil⟩⟩

instance : Membership (String × α) (Entries α) := ⟨fun es e => e ∈ es.toList⟩

instance [Repr α] : Repr (Entries α) := ⟨fun es => reprPrec es.toList⟩

/-- Whether there are no entries. -/
def isEmpty (es : Entries α) : Bool := es.toList.isEmpty

/-- How many entries there are. -/
def length (es : Entries α) : Nat := es.toList.length

/-- The entry of `name`. -/
def get? (name : String) (es : Entries α) : Option α := es.rows.get? name

/-- The entries with `g` applied to each value. -/
def mapValues (g : α → β) (es : Entries α) : Entries β := ⟨es.rows.map g⟩

/-- The entries that have a given list, whose names are different. -/
def attach : (l : List (String × α)) → (names l).Nodup → {es : Entries α // es.toList = l}
  | [], _ => ⟨∅, rfl⟩
  | (name, a) :: rest, h =>
      match attach rest (List.nodup_cons.mp h).2 with
      | ⟨es, hes⟩ =>
          have hkeys : names rest = es.keys :=
            (congrArg names hes).symm.trans es.rows.names_toList
          ⟨⟨.cons name a es.rows (hkeys ▸ (List.nodup_cons.mp h).1)⟩,
            congrArg ((name, a) :: ·) hes⟩

@[simp] theorem keys_empty : (∅ : Entries α).keys = [] := rfl

@[simp] theorem get?_empty (name : String) : get? name (∅ : Entries α) = none := rfl

@[simp] theorem mem_toList {e : String × α} : e ∈ es.toList ↔ e ∈ es := Iff.rfl

@[simp] theorem toList_mapValues (g : α → β) (es : Entries α) :
    (mapValues g es).toList = es.toList.map fun e => (e.1, g e.2) :=
  es.rows.toList_map g

theorem names_toList (es : Entries α) : names es.toList = es.keys := es.rows.names_toList

theorem nodup_keys (es : Entries α) : es.keys.Nodup := es.rows.nodup

theorem mem_keys_iff : name ∈ es.keys ↔ ∃ a, (name, a) ∈ es := by
  rw [← names_toList, names]
  simp

/-- Entries are known by their list. -/
theorem ext_toList (h : es.toList = es'.toList) : es = es' := by
  have hkeys : es.keys = es'.keys := by
    rw [← es.names_toList, h, es'.names_toList]
  obtain @⟨keys, rows⟩ := es
  obtain @⟨keys', rows'⟩ := es'
  obtain rfl : keys = keys' := hkeys
  obtain rfl : rows = rows' := Rows.toList_injective h
  rfl

theorem get?_eq_lookup (name : String) (es : Entries α) : get? name es = es.toList.lookup name :=
  es.rows.get?_eq_lookup name

theorem isEmpty_iff : es.isEmpty ↔ es.toList = [] := List.isEmpty_iff

theorem get?_eq_none_iff : get? name es = none ↔ name ∉ es.keys := by
  rw [get?_eq_lookup, List.lookup_eq_none_iff, mem_keys_iff]
  constructor
  · rintro h ⟨a, ha⟩
    simpa using h _ ha
  · rintro h ⟨n, a⟩ ha
    rw [bne_iff_ne]
    rintro rfl
    exact h ⟨a, ha⟩

theorem get?_eq_some_iff : get? name es = some a ↔ (name, a) ∈ es := by
  rw [get?_eq_lookup, List.lookup_eq_some_iff]
  constructor
  · rintro ⟨before, after, hsplit, -⟩
    rw [← mem_toList, hsplit]
    exact List.mem_append_right _ List.mem_cons_self
  · intro h
    obtain ⟨before, after, hsplit⟩ := List.append_of_mem (mem_toList.mpr h)
    refine ⟨before, after, hsplit, fun e he => ?_⟩
    have hn := es.nodup_keys
    rw [← names_toList, hsplit, names_append, List.nodup_append] at hn
    have hne := hn.2.2 e.1 (List.mem_map_of_mem he) name List.mem_cons_self
    simpa using hne.symm

/-- Entries are known by their names in order and by the value of each name. -/
theorem ext_get? (hkeys : es.keys = es'.keys)
    (h : ∀ name a a', get? name es = some a → get? name es' = some a' → a = a') : es = es' := by
  apply ext_toList
  have hfst : es.toList.map Prod.fst = es'.toList.map Prod.fst :=
    es.names_toList.trans (hkeys.trans es'.names_toList.symm)
  have hlength : es.toList.length = es'.toList.length := by
    simpa using congrArg List.length hfst
  apply List.ext_getElem hlength
  intro i hi hi'
  have hname : es.toList[i].1 = es'.toList[i].1 := by
    simpa [hi, hi'] using congrArg (·[i]?) hfst
  refine Prod.ext hname (h es.toList[i].1 _ _ ?_ ?_)
  · exact get?_eq_some_iff.mpr (List.getElem_mem hi)
  · rw [hname]
    exact get?_eq_some_iff.mpr (List.getElem_mem hi')

/-! ### Insertion -/

/-- Set the entry of `name`, in place if the name is there and at the end if it is new. -/
def insert (name : String) (a : α) (es : Entries α) : Entries α :=
  (attach (put name a es.toList)
    (nodup_names_put name a (es.names_toList ▸ es.nodup_keys))).val

/-- The entries after inserting all of a list into `es`, in order. -/
def insertAll (es : Entries α) : List (String × α) → Entries α
  | [] => es
  | (name, a) :: rest => insertAll (insert name a es) rest

/-- What a list of entries makes, inserted in order. -/
def ofList (entries : List (String × α)) : Entries α := insertAll ∅ entries

instance : Coe (List (String × α)) (Entries α) := ⟨ofList⟩

theorem toList_insert (name : String) (a : α) (es : Entries α) :
    (insert name a es).toList = put name a es.toList :=
  (attach _ _).property

theorem keys_insert (name : String) (a : α) (es : Entries α) :
    (insert name a es).keys = if name ∈ es.keys then es.keys else es.keys ++ [name] := by
  rw [← names_toList, toList_insert, names_put, names_toList]

theorem get?_insert (name other : String) (a : α) (es : Entries α) :
    get? other (insert name a es) = if name = other then some a else get? other es := by
  rw [get?_eq_lookup, get?_eq_lookup, toList_insert, lookup_put]

theorem insert_mapValues (g : α → β) (name : String) (a : α) (es : Entries α) :
    insert name (g a) (mapValues g es) = mapValues g (insert name a es) := by
  apply ext_toList
  rw [toList_insert, toList_mapValues, toList_mapValues, toList_insert]
  induction es.toList with
  | nil => rfl
  | cons e rest ih =>
      obtain ⟨n, b⟩ := e
      by_cases h : n = name
      · simp [put, h]
      · simpa [put, h] using ih

/-! ### Many insertions -/

theorem insertAll_append (es : Entries α) (before after : List (String × α)) :
    insertAll es (before ++ after) = insertAll (insertAll es before) after := by
  induction before generalizing es with
  | nil => rfl
  | cons e rest ih => exact ih _

/-- All of a list is inserted one after the other. -/
theorem foldl_insert (es : Entries α) (entries : List (String × α)) :
    entries.foldl (fun es e => insert e.1 e.2 es) es = insertAll es entries := by
  induction entries generalizing es with
  | nil => rfl
  | cons e rest ih => exact ih _

/-- Rows with new names that differ from each other go to the end in order. -/
theorem toList_insertAll_of_nodup {entries : List (String × α)}
    (h : (es.keys ++ names entries).Nodup) :
    (insertAll es entries).toList = es.toList ++ entries := by
  induction entries generalizing es with
  | nil => exact (List.append_nil _).symm
  | cons e rest ih =>
      have hnew : e.1 ∉ es.keys := fun hm =>
        (List.nodup_append.mp h).2.2 _ hm _ List.mem_cons_self rfl
      have hkeys : (insert e.1 e.2 es).keys ++ names rest = es.keys ++ names (e :: rest) := by
        rw [keys_insert, if_neg hnew, List.append_assoc]
        rfl
      rw [← names_toList] at hnew
      rw [insertAll, ih (hkeys ▸ h), toList_insert, put_of_not_mem hnew, List.append_assoc]
      rfl

/-- Entries are what their list makes, inserted in order. -/
theorem ofList_toList (es : Entries α) : ofList es.toList = es := by
  apply ext_toList
  refine toList_insertAll_of_nodup ?_
  rw [keys_empty, List.nil_append, names_toList]
  exact es.nodup_keys

/-- The last insertion under a name counts. -/
theorem get?_insertAll (name : String) (es : Entries α) (entries : List (String × α)) :
    get? name (insertAll es entries) =
      ((entries.reverse.find? (·.1 = name)).map Prod.snd).or (get? name es) := by
  induction entries generalizing es with
  | nil => rfl
  | cons e rest ih =>
      refine (ih _).trans ?_
      rw [get?_insert, List.reverse_cons, List.find?_append, Option.map_or, Option.or_assoc]
      congr 1
      by_cases h : e.1 = name <;> simp [h]

end Entries

end MessageSchema
