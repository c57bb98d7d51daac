import MessageSchema.Proofs.Arena.WellFormed

/-! # What a registration adds

A registration puts one message into a registry and creates the packages that are missing on its
path.  The packages that were there keep their numbers, their names and their places
(`Arena.Lists.keeps`).  As long as the message hides no other one in its own package, the readings
of a name are those from before and new ones that denote the message or one declared inside it
(`History.addsOnly_reading?`).

Main statement: after such a registration every lookup gives what it gave before or one of these
messages, and every package that was found is found as before (`Registry.register_adds_only`). -/

namespace MessageSchema

/-! ### Packages keep their numbers -/

namespace Arena

/-- Every package of `a` is a package of `b` with the same number and name and with the same package
around it, and a text that names it in `a` names it in `b`. -/
structure Keeps (a b : Arena) : Prop where
  slot : ∀ (i : Nat) (s : Slot), a.slots[i]? = some s →
    ∃ s' : Slot, b.slots[i]? = some s' ∧ s'.name = s.name ∧ s'.parent? = s.parent?
  package? : ∀ text i, a.package? text = some i → b.package? text = some i

namespace Lists

variable {a b : Arena} {paths paths' : List PackagePath} {path : PackagePath} {i : Nat}

theorem getElem?_of_isPrefix (hp : paths <+: paths') (hi : paths[i]? = some path) :
    paths'[i]? = some path := by
  obtain ⟨later, rfl⟩ := hp
  rw [List.getElem?_append_left (List.getElem?_eq_some_iff.mp hi).1, hi]

theorem parent?_of_isPrefix (h : a.Lists paths) (h' : b.Lists paths') (hp : paths <+: paths')
    (hi : paths[i]? = some path) : b.parent? i = a.parent? i := by
  rcases List.eq_nil_or_concat' path with rfl | ⟨outer, segment, rfl⟩
  · rw [h.index_unique hi h.root, h.around, h'.around]
  · obtain ⟨j, -, hj, hparent⟩ := h.parent i outer segment hi
    obtain ⟨k, -, hk, hparent'⟩ := h'.parent i outer segment (getElem?_of_isPrefix hp hi)
    rw [hparent, hparent', h'.index_unique hk (getElem?_of_isPrefix hp hj)]

/-- Packages that are listed first keep what their slots say of them. -/
theorem keeps (h : a.Lists paths) (h' : b.Lists paths') (hp : paths <+: paths') : a.Keeps b where
  slot := by
    intro i s hs
    obtain ⟨path, hi, -⟩ := h.exists_path (List.getElem?_eq_some_iff.mp hs).1
    have hi' := getElem?_of_isPrefix hp hi
    obtain ⟨s', hs'⟩ : ∃ s', b.slots[i]? = some s' :=
      ⟨_, List.getElem?_eq_getElem (h'.lt_length hi')⟩
    refine ⟨s', hs', ?_, ?_⟩
    · rw [← name_of_getElem? hs, ← name_of_getElem? hs', h.name i path hi, h'.name i path hi']
    · rw [← parent?_of_getElem? hs, ← parent?_of_getElem? hs', h.parent?_of_isPrefix h' hp hi]
  package? := by
    intro text i hi
    rw [Arena.package?] at hi ⊢
    split at hi
    next ht => rw [if_pos ht, hi]
    next ht =>
      rw [if_neg ht, h'.number?_eq_some_iff]
      exact getElem?_of_isPrefix hp (h.number?_eq_some_iff.mp hi)

end Lists

theorem keeps_register (history : History) (text : String) (m : Located Message) :
    (ofHistory history).Keeps ((ofHistory history).register text m) := by
  obtain ⟨⟨paths, hlists, -⟩, -⟩ := represents_ofHistory history
  obtain ⟨paths', hlists', hprefix, -⟩ := hlists.register text m
  exact hlists.keeps hlists' hprefix

end Arena

/-! ### Answers that are kept or new -/

/-- The new answer is the old one, or one of those that were added. -/
def AddsOnly {α : Type} (added : List α) (old new : Option α) : Prop :=
  new = old ∨ ∃ a ∈ added, new = some a

section addsOnly
variable {α β : Type} {added : List α} {old new : Option α}

theorem AddsOnly.isSome (h : AddsOnly added old new) (ho : old.isSome) : new.isSome := by
  rcases h with rfl | ⟨a, _, rfl⟩
  · exact ho
  · rfl

theorem AddsOnly.findSome? {read read' : β → Option α}
    (h : ∀ b, AddsOnly added (read b) (read' b)) (l : List β) :
    AddsOnly added (l.findSome? read) (l.findSome? read') := by
  induction l with
  | nil => exact .inl rfl
  | cons b rest ih =>
      rw [List.findSome?_cons, List.findSome?_cons]
      rcases h b with hb | ⟨a, ha, hb⟩
      · rw [hb]
        cases read b with
        | some x => exact .inl rfl
        | none => exact ih
      · rw [hb]
        exact .inr ⟨a, ha, rfl⟩

/-- If no answer is lost, the longest reading is the one from before or an added one. -/
theorem IsLongest.addsOnly {read read' : Nat → Option α} {n : Nat} (h : IsLongest read n old)
    (h' : IsLongest read' n new) (hr : ∀ k, AddsOnly added (read k) (read' k)) :
    AddsOnly added old new := by
  have hlost : ∀ k, read' k = none → read k = none := by
    intro k hk
    rcases hr k with he | ⟨a, _, he⟩
    · rw [← he, hk]
    · rw [hk] at he
      cases he
  cases new with
  | none =>
      left
      have hnone : IsLongest read n none := fun k hk => hlost k (h' k hk)
      exact hnone.unique h
  | some a =>
      obtain ⟨k, hk, ha, hlast⟩ := h'
      rcases hr k with he | ⟨b, hb, he⟩
      · -- the reading from before stays the longest one
        left
        have hkept : IsLongest read n (some a) :=
          ⟨k, hk, he ▸ ha, fun j hkj hj => hlost j (hlast j hkj hj)⟩
        exact hkept.unique h
      · exact .inr ⟨b, hb, ha ▸ he⟩

end addsOnly

theorem Located.mem_family_of_follow? {m d : Located Message} {names : List String}
    (h : m.follow? names = some d) : d ∈ m.family :=
  mem_family_of_descend ((m.value_descend names).trans h)

namespace History

variable {history : History} {e : Registration}

theorem last?_concat (history : History) (e : Registration) (path : PackagePath) (name : String) :
    last? (history ++ [e]) path name =
      if path = PackagePath.ofText e.package ∧ e.message.item.name = name then some e.message
      else history.last? path name := by
  rw [last?, last?, List.reverse_concat, List.find?_cons]
  by_cases h : path = PackagePath.ofText e.package ∧ e.message.item.name = name <;> simp [h]

/-- A message whose name is new in its package adds readings that denote it or a message declared
inside it. -/
theorem addsOnly_reading?
    (hnew : history.last? (PackagePath.ofText e.package) e.message.item.name = none)
    (path : PackagePath) (names : List String) (k : Nat) :
    AddsOnly e.message.family (history.reading? path names k)
      (reading? (history ++ [e]) path names k) := by
  rw [reading?, reading?]
  cases names[k]? with
  | none => exact .inl rfl
  | some name =>
      rw [Option.bind_some, Option.bind_some, last?_concat]
      split
      next h =>
        obtain ⟨hpath, rfl⟩ := h
        rw [hpath, hnew, Option.bind_some]
        cases hf : e.message.follow? (names.drop (k + 1)) with
        | none => exact .inl rfl
        | some d => exact .inr ⟨d, Located.mem_family_of_follow? hf, rfl⟩
      next => exact .inl rfl

end History

namespace Registry

section concat
variable {history : History} {e : Registration}

theorem addsOnly_lookupBelow
    (hnew : history.last? (PackagePath.ofText e.package) e.message.item.name = none)
    (path : PackagePath) (name : String) :
    AddsOnly e.message.family ((ofHistory history).lookupBelow path name).value
      ((ofHistory (history ++ [e])).lookupBelow path name).value :=
  (isLongest_lookupBelow history path name).addsOnly
    (isLongest_lookupBelow (history ++ [e]) path name) (History.addsOnly_reading? hnew path _)

theorem addsOnly_lookup
    (hnew : history.last? (PackagePath.ofText e.package) e.message.item.name = none)
    (path : PackagePath) (name : String) :
    AddsOnly e.message.family ((ofHistory history).lookup path name).value
      ((ofHistory (history ++ [e])).lookup path name).value := by
  by_cases hs : Text.startsWith '.' name = true
  · rw [lookup_of_startsWith _ _ hs, lookup_of_startsWith _ _ hs]
    exact addsOnly_lookupBelow hnew [] _
  · rw [value_lookup _ _ hs, value_lookup _ _ hs]
    exact AddsOnly.findSome? (fun q => addsOnly_lookupBelow hnew q name) _

theorem package?_concat {text : String} {path : PackagePath}
    (h : (ofHistory history).package? text = some path) :
    (ofHistory (history ++ [e])).package? text = some path := by
  have hhas : ∀ q, (ofHistory history).has q = true →
      (ofHistory (history ++ [e])).has q = true := by
    intro q hq
    rw [has_ofHistory] at hq ⊢
    refine hq.imp_right ?_
    rintro ⟨e', he', hprefix⟩
    exact ⟨e', List.mem_append_left _ he', hprefix⟩
  rw [package?_ofHistory] at h ⊢
  split at h
  · cases h
  next hd =>
    split at h
    next hq => rw [if_neg hd, if_pos (hhas _ hq), h]
    next => cases h

end concat

/-- A registration of a message whose name is new in its package leaves all packages with their
numbers, names and parents and all texts with the packages that they name.  Every lookup then gives
what it gave before, or the new message or one declared inside it, and none is lost. -/
theorem register_adds_only {history : History} {text : String} {m : Located Message}
    (hnew : (ofHistory history).type? (PackagePath.ofText text) m.item.name = none) :
    let r := ofHistory history
    let r' := (r.register text m).value
    (Arena.ofHistory history).Keeps ((Arena.ofHistory history).register text m) ∧
    ((Arena.ofHistory history).register text m).Represents r' ∧
    (∀ s path, r.package? s = some path → r'.package? s = some path) ∧
    (∀ path name,
      AddsOnly m.family (r.lookupBelow path name).value (r'.lookupBelow path name).value ∧
      AddsOnly m.family (r.lookup path name).value (r'.lookup path name).value ∧
      AddsOnly m.family (r.lookupRoot name).value (r'.lookupRoot name).value) ∧
    ∀ path name,
      ((r.lookupBelow path name).value.isSome → (r'.lookupBelow path name).value.isSome) ∧
      ((r.lookup path name).value.isSome → (r'.lookup path name).value.isSome) ∧
      ((r.lookupRoot name).value.isSome → (r'.lookupRoot name).value.isSome) := by
  intro r r'
  rw [type?_ofHistory] at hnew
  have hr' : r' = ofHistory (history ++ [⟨text, m⟩]) := register_ofHistory history text m
  have hanswers : ∀ path name,
      AddsOnly m.family (r.lookupBelow path name).value (r'.lookupBelow path name).value ∧
      AddsOnly m.family (r.lookup path name).value (r'.lookup path name).value ∧
      AddsOnly m.family (r.lookupRoot name).value (r'.lookupRoot name).value := by
    intro path name
    rw [hr']
    exact ⟨addsOnly_lookupBelow (e := ⟨text, m⟩) hnew path name,
      addsOnly_lookup (e := ⟨text, m⟩) hnew path name,
      addsOnly_lookupBelow (e := ⟨text, m⟩) hnew [] _⟩
  refine ⟨Arena.keeps_register history text m, (Arena.represents_ofHistory history).register text m,
    ?_, hanswers, ?_⟩
  · intro s path hs
    rw [hr']
    exact package?_concat hs
  · intro path name
    obtain ⟨hbelow, hlookup, hroot⟩ := hanswers path name
    exact ⟨hbelow.isSome, hlookup.isSome, hroot.isSome⟩

/-! ### A package where a message is expected -/

namespace LedgerTypes

/-- A message with one entry type inside it. -/
def ledger : Located Message :=
  ⟨[0], { name? := some "ledger", nested := [{ name? := some "Entry" }] }⟩

/-- An entry of its own. -/
def entry : Located Message := ⟨[1], { name? := some "Entry" }⟩

/-- An entry type in a new package of the name of a message takes over the meaning of the compound
name, which is then the new entry type. -/
theorem lookup_entry :
    let r := ofHistory [⟨"", ledger⟩]
    let r' := (r.register "ledger" entry).value
    r.type? (PackagePath.ofText "ledger") entry.item.name = none ∧
      (r.lookup [] "ledger.Entry").value = some ⟨[0, 0], { name? := some "Entry" }⟩ ∧
      (r'.lookup [] "ledger.Entry").value = some entry ∧
      AddsOnly entry.family (r.lookup [] "ledger.Entry").value
        (r'.lookup [] "ledger.Entry").value ∧
      (Arena.ofHistory [⟨"", ledger⟩]).Keeps
        ((Arena.ofHistory [⟨"", ledger⟩]).register "ledger" entry) := by
  intro r r'
  have hnew : r.type? (PackagePath.ofText "ledger") entry.item.name = none := by decide
  obtain ⟨hkeeps, -, -, hanswers, -⟩ := register_adds_only hnew
  exact ⟨hnew, by decide, by decide, (hanswers [] "ledger.Entry").2.1, hkeeps⟩

end LedgerTypes

end Registry

end MessageSchema
