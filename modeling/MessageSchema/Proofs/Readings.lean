import MessageSchema.Registry.Lookup

/-! # Readings of a type name

A name of `n` segments can be read below a package in `n` ways: the first `k` segments lead to a
package, the next one is the name of a message registered there, and the others lead through its
nested messages.  A *history* lists the registrations that made a registry, and
`History.reading?` says what such a reading denotes without looking at the tree of
packages: the last registration for the path and the name counts.

Main statement: a lookup below a package finds what the reading with the longest package part
denotes, among the readings that denote anything (`isLongest_lookup_ofHistory`).  So a reading as a
package goes before a reading as a message at every segment, and is given up when it leads
nowhere.  A name without a leading dot is looked up in this way below one package after the other,
on the path outwards (`value_lookup`). -/

namespace MessageSchema

/-- A message and the package text under which it is registered. -/
structure Registration where
  package : String
  message : Located Message

/-- Registrations in order. -/
abbrev History := List Registration

/-- Carry out registrations in order. -/
def Registry.registerEach (r : Registry) : History → Logged Registry
  | [] => pure r
  | e :: rest => do
      let r ← r.register e.package e.message
      r.registerEach rest

/-- The registry that a history makes of the one that holds the root alone. -/
def Registry.ofHistory (history : History) : Registry :=
  (Registry.empty.registerEach history).value

/-- The message that a history registers last under a name in the package at `path`. -/
def History.last? (history : History) (path : PackagePath) (name : String) :
    Option (Located Message) :=
  (history.reverse.find? fun e =>
    path = PackagePath.ofText e.package ∧ e.message.item.name = name).map Registration.message

/-- The message to which names lead from `m`, each naming a message declared inside the one before;
the first of several equal names counts. -/
def Located.follow? (m : Located Message) : List String → Option (Located Message)
  | [] => some m
  | name :: rest => (m.nested.find? (·.item.name = name)).bind (·.follow? rest)

/-- What names denote below the package at `path` if the first `k` lead to a package. -/
def History.reading? (history : History) (path : PackagePath) (names : List String) (k : Nat) :
    Option (Located Message) :=
  names[k]?.bind fun name =>
    (history.last? (path ++ names.take k) name).bind (·.follow? (names.drop (k + 1)))

/-- What `read` gives at the largest index below `n` where it gives anything. -/
def IsLongest {α : Type} (read : Nat → Option α) (n : Nat) : Option α → Prop
  | some a => ∃ k < n, read k = some a ∧ ∀ j, k < j → j < n → read j = none
  | none => ∀ k < n, read k = none

/-! ### The longest reading -/

section longest
variable {α : Type} {read : Nat → Option α} {n : Nat} {v : Option α}

theorem isLongest_zero : IsLongest read 0 none := by
  intro k hk
  omega

/-- The index zero counts only if no larger one gives anything. -/
theorem IsLongest.succ (h : IsLongest (fun k => read (k + 1)) n v) :
    IsLongest read (n + 1) (v.or (read 0)) := by
  cases v with
  | some a =>
      obtain ⟨k, hk, ha, hj⟩ := h
      refine ⟨k + 1, by omega, ha, ?_⟩
      intro j hkj hjn
      obtain ⟨i, rfl⟩ : ∃ i, j = i + 1 := ⟨j - 1, by omega⟩
      exact hj i (by omega) (by omega)
  | none =>
      have hpos : ∀ j, 0 < j → j < n + 1 → read j = none := by
        intro j h0 hjn
        obtain ⟨i, rfl⟩ : ∃ i, j = i + 1 := ⟨j - 1, by omega⟩
        exact h i (by omega)
      rw [Option.none_or]
      cases h0 : read 0 with
      | some a => exact ⟨0, by omega, h0, hpos⟩
      | none =>
          intro k hk
          rcases Nat.eq_zero_or_pos k with rfl | hk0
          · exact h0
          · exact hpos k hk0 hk

/-- The largest index counts before all others. -/
theorem IsLongest.top (h : IsLongest read n v) : IsLongest read (n + 1) ((read n).or v) := by
  cases hn : read n with
  | some a =>
      refine ⟨n, by omega, hn, ?_⟩
      intro j hnj hj
      omega
  | none =>
      have hlast : ∀ k, k < n + 1 → k < n ∨ read k = none := by
        intro k hk
        by_cases hkn : k < n
        · exact .inl hkn
        · obtain rfl : k = n := by omega
          exact .inr hn
      rw [Option.none_or]
      cases v with
      | some a =>
          obtain ⟨k, hk, ha, hj⟩ := h
          refine ⟨k, by omega, ha, ?_⟩
          intro j hkj hjn
          exact (hlast j hjn).elim (hj j hkj) id
      | none =>
          intro k hk
          exact (hlast k hk).elim (h k) id

theorem IsLongest.congr {read' : Nat → Option α} (h : IsLongest read n v)
    (he : ∀ k < n, read' k = read k) : IsLongest read' n v := by
  cases v with
  | some a =>
      obtain ⟨k, hk, ha, hj⟩ := h
      refine ⟨k, hk, (he k hk).trans ha, ?_⟩
      intro j hkj hjn
      exact (he j hjn).trans (hj j hkj hjn)
  | none =>
      intro k hk
      exact (he k hk).trans (h k hk)

/-- Indices below the first `c` do not count if one of the others gives something. -/
theorem IsLongest.shift {c : Nat} {a : α} (h : IsLongest (fun k => read (c + k)) n (some a)) :
    IsLongest read (c + n) (some a) := by
  obtain ⟨k, hk, ha, hj⟩ := h
  refine ⟨c + k, by omega, ha, ?_⟩
  intro j hkj hjn
  obtain ⟨i, rfl⟩ : ∃ i, j = c + i := ⟨j - c, by omega⟩
  exact hj i (by omega) (by omega)

theorem IsLongest.unique {w : Option α} (h : IsLongest read n v) (h' : IsLongest read n w) :
    v = w := by
  cases v with
  | none =>
      cases w with
      | none => rfl
      | some b =>
          obtain ⟨k, hk, hb, _⟩ := h'
          rw [h k hk] at hb
          cases hb
  | some a =>
      obtain ⟨k, hk, ha, hlast⟩ := h
      cases w with
      | none =>
          rw [h' k hk] at ha
          cases ha
      | some b =>
          obtain ⟨k', hk', hb, hlast'⟩ := h'
          rcases Nat.lt_trichotomy k k' with hlt | rfl | hlt
          · rw [hlast k' hlt hk'] at hb
            cases hb
          · exact ha.symm.trans hb
          · rw [hlast' k hlt hk] at ha
            cases ha

theorem IsLongest.map {β : Type} (g : α → β) (h : IsLongest read n v) :
    IsLongest (fun k => (read k).map g) n (v.map g) := by
  cases v with
  | none =>
      intro k hk
      exact congrArg (Option.map g) (h k hk)
  | some a =>
      obtain ⟨k, hk, ha, hlast⟩ := h
      refine ⟨k, hk, congrArg (Option.map g) ha, ?_⟩
      intro j hkj hj
      exact congrArg (Option.map g) (hlast j hkj hj)

theorem IsLongest.exists_read {a : α} (h : IsLongest read n (some a)) : ∃ k, read k = some a := by
  obtain ⟨k, _, hk, _⟩ := h
  exact ⟨k, hk⟩

end longest

/-! ### Following nested messages -/

theorem Located.value_descend (m : Located Message) (names : List String) :
    (m.descend names).value = m.follow? names := by
  induction names generalizing m with
  | nil => rfl
  | cons name rest ih =>
      rw [descend, follow?]
      cases h : m.nested.find? (·.item.name = name) with
      | none => rfl
      | some inner =>
          rw [Option.bind_some]
          exact ih inner

theorem Located.name_mem_of_follow? {m d : Located Message} {names : List String}
    (h : m.follow? names = some d) : d = m ∨ d.item.name ∈ names := by
  induction names generalizing m with
  | nil => exact .inl (by simpa [follow?] using h.symm)
  | cons name rest ih =>
      obtain ⟨inner, hf, hw⟩ := Option.bind_eq_some_iff.mp h
      have hn : inner.item.name = name := by simpa using List.find?_some hf
      rcases ih hw with rfl | hd
      · exact .inr (hn ▸ List.mem_cons_self)
      · exact .inr (List.mem_cons_of_mem _ hd)

theorem History.name_mem_of_reading? {history : History} {path : PackagePath}
    {names : List String} {k : Nat} {d : Located Message}
    (h : history.reading? path names k = some d) : d.item.name ∈ names := by
  obtain ⟨name, hk, hm⟩ := Option.bind_eq_some_iff.mp h
  obtain ⟨m, hl, hw⟩ := Option.bind_eq_some_iff.mp hm
  rcases Located.name_mem_of_follow? hw with rfl | hd
  · obtain ⟨e, he, rfl⟩ := Option.map_eq_some_iff.mp hl
    have hn := List.find?_some he
    rw [decide_eq_true_eq] at hn
    rw [hn.2]
    exact List.mem_of_getElem? hk
  · exact List.mem_of_mem_drop hd

/-! ### Readings below a package of the tree -/

namespace Package

/-- What names denote below `p` if the first `k` lead to a package. -/
def reading? (p : Package) (names : List String) (k : Nat) : Option (Located Message) :=
  names[k]?.bind fun name =>
    ((p.at? (names.take k)).bind (·.type? name)).bind (·.follow? (names.drop (k + 1)))

theorem at?_append (p : Package) (path rest : PackagePath) :
    p.at? (path ++ rest) = (p.at? path).bind (·.at? rest) := by
  induction path generalizing p with
  | nil => rfl
  | cons segment path ih =>
      rw [List.cons_append, at?, at?, Option.bind_assoc]
      congr 1
      funext q
      exact ih q

theorem reading?_zero (p : Package) (segment : String) (rest : List String) :
    p.reading? (segment :: rest) 0 = (p.type? segment).bind (·.follow? rest) := rfl

theorem reading?_succ (p : Package) (segment : String) (rest : List String) (k : Nat) :
    p.reading? (segment :: rest) (k + 1) =
      (p.inside? segment).bind fun q => q.reading? rest k := by
  cases hk : rest[k]? <;> cases hp : p.inside? segment <;> simp [reading?, at?, hk, hp]

end Package

namespace Scope

theorem value_resolve_compound (s : Scope) (segment next : String) (rest : List String) :
    (s.resolve (segment :: next :: rest)).value =
      ((s.inside? segment).bind fun inner => (inner.resolve (next :: rest)).value).or
        ((s.package.type? segment).bind (·.follow? (next :: rest))) := by
  rw [resolve]
  simp only [Logged.value_bind]
  cases s.inside? segment with
  | none =>
      cases s.package.type? segment with
      | none => rfl
      | some m => exact m.value_descend _
  | some inner =>
      rw [Option.bind_some]
      cases (inner.resolve (next :: rest)).value with
      | some m => rfl
      | none =>
          cases s.package.type? segment with
          | none => rfl
          | some m => exact m.value_descend _

/-- A lookup below a package tries its readings from the longest package part down. -/
theorem isLongest_resolve (s : Scope) (names : List String) :
    IsLongest (s.package.reading? names) names.length (s.resolve names).value := by
  induction names generalizing s with
  | nil => exact isLongest_zero
  | cons segment rest ih =>
      have hsucc : IsLongest (fun k => s.package.reading? (segment :: rest) (k + 1)) rest.length
          ((s.inside? segment).bind fun inner => (inner.resolve rest).value) := by
        simp only [Package.reading?_succ, inside?]
        cases s.package.inside? segment with
        | none =>
            intro k _
            rfl
        | some q => exact ih ⟨segment :: s.around, q⟩
      have h := hsucc.succ
      rw [Package.reading?_zero] at h
      cases rest with
      | nil =>
          have hn : ((s.inside? segment).bind fun inner => (inner.resolve []).value) = none := by
            cases s.inside? segment <;> rfl
          have hw : (s.package.type? segment).bind (·.follow? []) = s.package.type? segment := by
            cases s.package.type? segment <;> rfl
          rwa [hn, hw, Option.none_or] at h
      | cons next rest => rwa [← value_resolve_compound] at h

end Scope

/-! ### Readings of the registry that a history makes -/

theorem History.last?_cons (e : Registration) (history : History) (path : PackagePath)
    (name : String) :
    History.last? (e :: history) path name =
      (history.last? path name).or
        (if path = PackagePath.ofText e.package ∧ e.message.item.name = name then some e.message
          else none) := by
  rw [History.last?, History.last?, List.reverse_cons, List.find?_append, Option.map_or]
  congr 1
  by_cases h : path = PackagePath.ofText e.package ∧ e.message.item.name = name <;> simp [h]

/-- What can be read below a package can be read from further out, with the way to the package in
front. -/
theorem History.reading?_append (history : History) (path q : PackagePath) (names : List String)
    (k : Nat) :
    history.reading? path (q ++ names) (q.length + k) = history.reading? (path ++ q) names k := by
  rw [reading?, reading?, List.getElem?_append_right (Nat.le_add_right _ _),
    Nat.add_sub_cancel_left, List.take_length_add_append, Nat.add_assoc,
    List.drop_length_add_append, ← List.append_assoc]

namespace Registry

theorem type?_registerEach (r : Registry) (history : History) (path : PackagePath)
    (name : String) :
    (r.registerEach history).value.type? path name =
      (history.last? path name).or (r.type? path name) := by
  induction history generalizing r with
  | nil => rfl
  | cons e history ih =>
      have h := ih (r.insert (PackagePath.ofText e.package) e.message)
      rw [History.last?_cons, Option.or_assoc]
      refine h.trans ?_
      rw [type?_insert]
      split <;> rfl

theorem type?_empty (path : PackagePath) (name : String) : empty.type? path name = none := by
  rw [type?, show empty.root = {} from rfl, Package.at?_empty]
  split <;> rfl

theorem type?_ofHistory (history : History) (path : PackagePath) (name : String) :
    (ofHistory history).type? path name = history.last? path name := by
  rw [ofHistory, type?_registerEach, type?_empty, Option.or_none]

/-- The readings below a package of the tree are those of the history that made it. -/
theorem reading?_ofHistory {history : History} {path : PackagePath} {p : Package}
    (hp : (ofHistory history).root.at? path = some p) (names : List String) :
    p.reading? names = history.reading? path names := by
  funext k
  rw [Package.reading?, History.reading?]
  congr 1
  funext name
  rw [← type?_ofHistory, type?, Package.at?_append, hp, Option.bind_some]

/-- Nothing can be read below a package that is not in the tree. -/
theorem reading?_eq_none {history : History} {path : PackagePath}
    (hp : (ofHistory history).root.at? path = none) (names : List String) (k : Nat) :
    history.reading? path names k = none := by
  rw [History.reading?]
  cases names[k]? with
  | none => rfl
  | some name =>
      rw [Option.bind_some, ← type?_ofHistory, type?, Package.at?_append, hp]
      rfl

theorem isLongest_lookupBelow (history : History) (path : PackagePath) (name : String) :
    IsLongest (history.reading? path (Text.pieces '.' name))
      (Text.pieces '.' name).length ((ofHistory history).lookupBelow path name).value := by
  rw [lookupBelow]
  split
  next p hp =>
    rw [← reading?_ofHistory hp]
    exact Scope.isLongest_resolve ⟨path.reverse, p⟩ _
  next hp =>
    intro k _
    exact reading?_eq_none hp _ k

theorem dot_not_mem_of_lookupBelow {history : History} {path : PackagePath}
    {name : String} {d : Located Message}
    (h : ((ofHistory history).lookupBelow path name).value = some d) :
    '.' ∉ d.item.name.toList := by
  have hl := isLongest_lookupBelow history path name
  rw [h] at hl
  obtain ⟨k, hk⟩ := hl.exists_read
  exact Text.not_mem_of_mem_pieces (History.name_mem_of_reading? hk)

/-- Below a package, and below the root for a name without one leading dot, a lookup finds what
the reading with the longest package part denotes; a message with a dot in its name is never
found. -/
theorem isLongest_lookup_ofHistory (history : History) (path : PackagePath)
    (name : String) :
    IsLongest (history.reading? path (Text.pieces '.' name))
      (Text.pieces '.' name).length ((ofHistory history).lookupBelow path name).value ∧
    IsLongest (history.reading? [] (Text.pieces '.' (Text.dropLeading '.' name)))
      (Text.pieces '.' (Text.dropLeading '.' name)).length
      ((ofHistory history).lookupRoot name).value ∧
    ∀ d : Located Message, '.' ∈ d.item.name.toList →
      ((ofHistory history).lookupBelow path name).value ≠ some d ∧
      ((ofHistory history).lookupRoot name).value ≠ some d := by
  refine ⟨isLongest_lookupBelow history path name, isLongest_lookupBelow history [] _, ?_⟩
  intro d hd
  constructor
  · intro h
    exact dot_not_mem_of_lookupBelow h hd
  · intro h
    exact dot_not_mem_of_lookupBelow h hd

/-- The reading of `a` as a package leads nowhere, and so it is read as a message. -/
example :
    ((ofHistory
      [⟨"a", ⟨[0], { name? := some "Other" }⟩⟩,
        ⟨"", ⟨[1], { name? := some "a", nested := [{ name? := some "T" }] }⟩⟩]).lookupBelow []
      "a.T").value = some ⟨[1, 0], { name? := some "T" }⟩ := by decide

end Registry

/-! ### The search outwards -/

namespace Scope

theorem value_firstHit (names : List String) (l : List Scope) :
    (firstHit names l).value = l.findSome? fun s => (s.resolve names).value := by
  induction l with
  | nil => rfl
  | cons s rest ih =>
      rw [firstHit, Logged.value_bind, List.findSome?_cons]
      cases (s.resolve names).value with
      | some m => rfl
      | none => exact ih

/-- A search from the end of a path outwards tries the packages on the path; where the path leaves
the tree there is nothing to find. -/
theorem value_firstHit_enclosing (names : List String) (s : Scope) (outer : List Scope)
    (path : PackagePath) :
    (firstHit names (s.enclosing outer path)).value =
      ((PackagePath.outward path).findSome? fun q => (s.package.at? q).bind fun p =>
        ((Scope.mk (q.reverse ++ s.around) p).resolve names).value).or
          (firstHit names outer).value := by
  induction path generalizing s outer with
  | nil =>
      rw [value_firstHit, value_firstHit, enclosing, List.findSome?_cons]
      cases h : (s.resolve names).value <;>
        simp [PackagePath.outward, Package.at?, h]
  | cons segment rest ih =>
      have hhere : ([[]] : List PackagePath).findSome? (fun q => (s.package.at? q).bind fun p =>
          ((Scope.mk (q.reverse ++ s.around) p).resolve names).value) =
            (s.resolve names).value := by
        cases h : (s.resolve names).value <;> simp [Package.at?, h]
      have houter : (firstHit names (s :: outer)).value =
          (s.resolve names).value.or (firstHit names outer).value := by
        rw [value_firstHit, value_firstHit, List.findSome?_cons]
        cases (s.resolve names).value <;> rfl
      rw [enclosing, PackagePath.outward, List.findSome?_append, List.findSome?_map, hhere,
        Option.or_assoc, ← houter]
      cases hi : s.package.inside? segment with
      | none =>
          have hnone : ∀ rest : List PackagePath,
              rest.findSome? (fun _ => (none : Option (Located Message))) = none := by
            simp [List.findSome?_eq_none_iff]
          simp [inside?, hi, Package.at?, Function.comp_def, hnone]
      | some p =>
          rw [inside?, hi, Option.map_some]
          refine (ih ⟨segment :: s.around, p⟩ (s :: outer)).trans ?_
          simp [Package.at?, hi, Function.comp_def]

end Scope

namespace Registry

/-- A name without a leading dot is looked up below the packages on the path outwards, and the first
hit counts. -/
theorem value_lookup (r : Registry) (path : PackagePath) {name : String}
    (h : ¬ Text.startsWith '.' name = true) :
    (r.lookup path name).value =
      (PackagePath.outward path).findSome? fun q => (r.lookupBelow q name).value := by
  rw [lookup, if_neg h, Scope.value_firstHit_enclosing]
  have hnone : (Scope.firstHit (Text.pieces '.' name) []).value = none := rfl
  rw [hnone, Option.or_none]
  congr 1
  funext q
  rw [lookupBelow, rootScope, List.append_nil]
  cases r.root.at? q <;> rfl

/-- Registries that agree below every package up to `g` agree on every lookup. -/
theorem value_lookup_map {r r' : Registry} {g : Located Message → Located Message}
    (h : ∀ q name, (r'.lookupBelow q name).value = (r.lookupBelow q name).value.map g)
    (path : PackagePath) (name : String) :
    (r'.lookup path name).value = (r.lookup path name).value.map g := by
  by_cases hs : Text.startsWith '.' name = true
  · rw [lookup_of_startsWith _ _ hs, lookup_of_startsWith _ _ hs]
    exact h [] _
  · rw [value_lookup _ _ hs, value_lookup _ _ hs, List.map_findSome?]
    congr 1
    funext q
    exact h q name

end Registry

end MessageSchema
