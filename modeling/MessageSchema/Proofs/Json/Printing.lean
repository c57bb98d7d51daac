import MessageSchema.Json.Basic
import MessageSchema.Proofs.Json.Unambiguous
import Mathlib.Data.List.Nodup

/-! # Printed JSON

Every printed value is a text of the grammar and stands for this value, in any layout made of white
space: a string for the code units of its characters, an integer for itself, lists and objects for
their items and entries in order (`Json.isText_toText_iff`).  As different values are different
trees (`Json.tree_injective`), no two values have the same text (`Json.toText_injective`). -/

namespace MessageSchema

open JsonText

/-! ### Code units -/

namespace JsonText

theorem toNat_lt (c : Char) : c.toNat < 0xd800 ∨ 0xdfff < c.toNat ∧ c.toNat < 0x110000 := c.valid

theorem units_append_inj {c c' : Char} {us us' : List Nat}
    (h : units c ++ us = units c' ++ us') : c = c' ∧ us = us' := by
  have hc := toNat_lt c
  have hc' := toNat_lt c'
  have hinj : c.toNat = c'.toNat → c = c' := Char.toNat_inj.mp
  unfold units at h
  -- no character is a surrogate, so a single unit is never the first of a pair
  split at h <;> split at h <;> simp only [List.cons_append, List.nil_append, List.cons.injEq] at h
  · exact ⟨hinj h.1, h.2⟩
  · omega
  · omega
  · obtain ⟨hhigh, hlow, hrest⟩ := h
    exact ⟨hinj (by omega), hrest⟩

theorem units_ne_nil (c : Char) : units c ≠ [] := by
  unfold units
  split <;> simp

/-- The code units of a text. -/
def textUnits (s : String) : List Nat := s.toList.flatMap units

theorem flatMap_units_injective {cs cs' : List Char} (h : cs.flatMap units = cs'.flatMap units) :
    cs = cs' := by
  induction cs generalizing cs' with
  | nil =>
      cases cs' with
      | nil => rfl
      | cons c' rest' => simp [units_ne_nil] at h
  | cons c rest ih =>
      cases cs' with
      | nil => simp [units_ne_nil] at h
      | cons c' rest' =>
          obtain ⟨rfl, hrest⟩ := units_append_inj h
          rw [ih hrest]

theorem textUnits_injective {s s' : String} (h : textUnits s = textUnits s') : s = s' :=
  String.toList_inj.mp (flatMap_units_injective h)

end JsonText

/-! ### Trees of values -/

namespace Json

mutual

/-- What a text for the value stands for. -/
def tree : Json → JsonTree
  | bool b => .bool b
  | number n => .number n
  | text s => .text (textUnits s)
  | list items => .list (treeItems items)
  | object entries => .object (treeEntries entries)

/-- The trees of the items of a list. -/
def treeItems : List Json → List JsonTree
  | [] => []
  | item :: rest => item.tree :: treeItems rest

/-- The trees of the entries of an object. -/
def treeEntries : List (String × Json) → List (List Nat × JsonTree)
  | [] => []
  | (name, value) :: rest => (textUnits name, value.tree) :: treeEntries rest

end

mutual

theorem tree_injective : ∀ {v v' : Json}, v.tree = v'.tree → v = v'
  | bool b, v', h => by
      cases v' <;> simp only [tree] at h <;> cases h
      rfl
  | number n, v', h => by
      cases v' <;> simp only [tree, JsonTree.number.injEq, reduceCtorEq] at h
      rw [Rat.intCast_inj.mp h]
  | text s, v', h => by
      cases v' <;> simp only [tree, JsonTree.text.injEq, reduceCtorEq] at h
      rw [textUnits_injective h]
  | list items, v', h => by
      cases v' <;> simp only [tree, JsonTree.list.injEq, reduceCtorEq] at h
      rw [treeItems_injective h]
  | object entries, v', h => by
      cases v' <;> simp only [tree, JsonTree.object.injEq, reduceCtorEq] at h
      rw [treeEntries_injective h]

theorem treeItems_injective : ∀ {vs vs' : List Json}, treeItems vs = treeItems vs' → vs = vs'
  | [], [], _ => rfl
  | [], _ :: _, h => by simp [treeItems] at h
  | _ :: _, [], h => by simp [treeItems] at h
  | v :: rest, v' :: rest', h => by
      simp only [treeItems, List.cons.injEq] at h
      rw [tree_injective h.1, treeItems_injective h.2]

theorem treeEntries_injective :
    ∀ {es es' : List (String × Json)}, treeEntries es = treeEntries es' → es = es'
  | [], [], _ => rfl
  | [], (_, _) :: _, h => by simp [treeEntries] at h
  | (_, _) :: _, [], h => by simp [treeEntries] at h
  | (name, v) :: rest, (name', v') :: rest', h => by
      simp only [treeEntries, List.cons.injEq, Prod.mk.injEq] at h
      rw [textUnits_injective h.1.1, tree_injective h.1.2, treeEntries_injective h.2]

end

end Json

/-! ### Keys -/

/-- No object in the tree has two equal keys. -/
inductive JsonTree.KeysUnique : JsonTree → Prop
  | null : KeysUnique .null
  | bool (b : Bool) : KeysUnique (.bool b)
  | number (q : ℚ) : KeysUnique (.number q)
  | text (us : List Nat) : KeysUnique (.text us)
  | list {items : List JsonTree} (h : ∀ v ∈ items, KeysUnique v) : KeysUnique (.list items)
  | object {entries : List (List Nat × JsonTree)} (hkeys : (entries.map Prod.fst).Nodup)
      (h : ∀ e ∈ entries, KeysUnique e.2) : KeysUnique (.object entries)

namespace Json

theorem treeItems_eq (items : List Json) : treeItems items = items.map tree := by
  induction items with
  | nil => rfl
  | cons v rest ih => rw [treeItems, ih, List.map_cons]

theorem treeEntries_eq (entries : List (String × Json)) :
    treeEntries entries = entries.map fun e => (textUnits e.1, e.2.tree) := by
  induction entries with
  | nil => rfl
  | cons e rest ih => rw [treeEntries, ih, List.map_cons]

theorem keysUnique_list_iff {items : List Json} :
    (list items).tree.KeysUnique ↔ ∀ v ∈ items, v.tree.KeysUnique := by
  rw [tree, treeItems_eq]
  refine ⟨?_, fun h => .list (List.forall_mem_map.mpr h)⟩
  rintro (_ | _ | _ | _ | h)
  exact List.forall_mem_map.mp h

theorem keysUnique_object_iff {entries : List (String × Json)} :
    (object entries).tree.KeysUnique ↔
      (entries.map Prod.fst).Nodup ∧ ∀ e ∈ entries, e.2.tree.KeysUnique := by
  have hkeys : ((entries.map fun e => (textUnits e.1, e.2.tree)).map Prod.fst).Nodup ↔
      (entries.map Prod.fst).Nodup := by
    rw [List.map_map, ← List.nodup_map_iff (f := textUnits) fun _ _ => textUnits_injective,
      List.map_map]
    rfl
  rw [tree, treeEntries_eq]
  constructor
  · rintro (_ | _ | _ | _ | _ | ⟨hnodup, h⟩)
    exact ⟨hkeys.mp hnodup, fun e he => h _ (List.mem_map_of_mem he)⟩
  · rintro ⟨hnodup, h⟩
    exact .object (hkeys.mpr hnodup) (List.forall_mem_map.mpr h)

end Json

/-! ### Numbers -/

namespace JsonText

theorem ofDigits_toDigits (n : Nat) : ofDigits (Nat.toDigits 10 n) = n :=
  Nat.ofDigitChars_toDigits (by decide) (by decide)

theorem Whole.concat {ds : List Char} {d : Char} (h : Whole ds) (hne : ds ≠ ['0'])
    (hd : d.isDigit) : Whole (ds ++ [d]) := by
  cases h with
  | zero => exact absurd rfl hne
  | digits hc h0 hds =>
      exact .digits hc h0 (List.forall_mem_append.mpr ⟨hds, by simpa using hd⟩)

theorem toDigits_ne_zero {n : Nat} (h : n ≠ 0) : Nat.toDigits 10 n ≠ ['0'] := by
  intro heq
  apply h
  rw [← ofDigits_toDigits n, heq]
  rfl

theorem whole_toDigits (n : Nat) : Whole (Nat.toDigits 10 n) := by
  induction n using Nat.strongRecOn with
  | _ n ih =>
      rcases Nat.lt_or_ge n 10 with hlt | hge
      · have hdigit : ∀ m < 10, Whole [Nat.digitChar m] := by
          intro m hm
          by_cases h0 : m = 0
          · subst h0
            exact .zero
          · have hd : (Nat.digitChar m).isDigit ∧ Nat.digitChar m ≠ '0' := by
              revert m
              decide
            exact .digits hd.1 hd.2 (by simp)
        rw [Nat.toDigits_of_lt_base hlt]
        exact hdigit n hlt
      · rw [Nat.toDigits_of_base_le (by decide) hge]
        have hd : ∀ m < 10, (Nat.digitChar m).isDigit := by decide
        exact (ih (n / 10) (by omega)).concat (toDigits_ne_zero (by omega))
          (hd _ (Nat.mod_lt _ (by decide)))

theorem number_decimal (n : Int) : Number (Json.decimal n) n := by
  cases n with
  | ofNat n =>
      have h := Number.mk .plus (whole_toDigits n) .absent .absent
      simpa [Json.decimal, ofDigits_toDigits] using h
  | negSucc n =>
      have h := Number.mk .minus (whole_toDigits (n + 1)) .absent .absent
      rw [ofDigits_toDigits] at h
      simpa [Json.decimal, Int.cast_negSucc] using h

/-! ### Strings -/

theorem hexValue?_hexDigit : ∀ n < 16, hexValue? (Json.hexDigit n) = some n := by decide

theorem Body.escape {us : List Nat} {t r : List Char} (h : Body us t r) (c : Char) :
    Body (units c ++ us) (Json.escape c ++ t) r := by
  unfold Json.escape
  -- seven characters have an escape of their own
  iterate 7
    split
    next hc =>
      subst hc
      exact h.short rfl
  split
  next hquote hbackslash _ _ _ _ _ hlt =>
    have hhigh := hexValue?_hexDigit (c.toNat / 16) (by omega)
    have hlow := hexValue?_hexDigit (c.toNat % 16) (by omega)
    have hzero : hexValue? '0' = some 0 := by decide
    have hbody := h.long hzero hzero hhigh hlow
    have hvalue : ((0 * 16 + 0) * 16 + c.toNat / 16) * 16 + c.toNat % 16 = c.toNat := by omega
    have hunits : units c = [c.toNat] := if_pos (by omega)
    rw [hvalue] at hbody
    rw [hunits]
    exact hbody
  next hquote hbackslash _ _ _ _ _ hge => exact h.plain ⟨by omega, hquote, hbackslash⟩

theorem body_quote (s : String) (r : List Char) :
    Body (textUnits s) (s.toList.flatMap Json.escape ++ '"' :: r) r := by
  unfold textUnits
  induction s.toList with
  | nil => exact .close r
  | cons c rest ih =>
      rw [List.flatMap_cons, List.flatMap_cons, List.append_assoc]
      exact ih.escape c

end JsonText

/-! ### Values -/

namespace Json

/-- A layout adds nothing but white space. -/
structure Layout.Blank (l : Layout) : Prop where
  line : ∀ d, ∀ x ∈ l.line d, isSpace x
  gap : ∀ x ∈ l.gap, isSpace x

theorem Layout.blank_pretty : pretty.Blank where
  line := fun d x hx => by
    rcases List.mem_cons.mp hx with rfl | hx
    · decide
    · rw [(List.mem_replicate.mp hx).2]
      decide
  gap := fun x hx => by
    rw [List.mem_singleton.mp hx]
    decide

section print
variable {l : Layout} (hl : l.Blank)
include hl

theorem Layout.Blank.mark_line (c : Char) (d : Nat) (r : List Char) :
    Mark c (c :: (l.line d ++ r)) r :=
  ⟨[], l.line d, by simp, hl.line d, rfl⟩

theorem Layout.Blank.line_mark (c : Char) (d : Nat) (r : List Char) :
    Mark c (l.line d ++ c :: r) r :=
  ⟨l.line d, [], hl.line d, by simp, rfl⟩

theorem Layout.Blank.spells_entry (name : String) {v : JsonTree} {t r : List Char}
    (h : Spells (.value v) t r) :
    Spells (.entry (textUnits name) v) (quote name ++ ':' :: (l.gap ++ t)) r := by
  have hcolon : Mark ':' (':' :: (l.gap ++ t)) t := ⟨[], l.gap, by simp, hl.gap, rfl⟩
  have hentry := Spells.entry (body_quote name _) hcolon h
  simpa [quote] using hentry

mutual

theorem spells_print (d : Nat) :
    ∀ (v : Json) (r : List Char), Spells (.value v.tree) (v.print l d ++ r) r
  | bool true, r => .literal .true r
  | bool false, r => .literal .false r
  | number n, r => .number (number_decimal n) r
  | text s, r => by
      have h := Spells.text (body_quote s r)
      simpa [print, tree, quote] using h
  | list [], r => .emptyList (.bare '[' _) (.bare ']' r)
  | list (item :: rest), r => by
      have hitem := spells_print (d + 1) item (printItems l d rest ++ r)
      have h := Spells.list (hl.mark_line '[' (d + 1) _) hitem (spells_printItems d rest r)
      simpa [print, tree, treeItems] using h
  | object [], r => .emptyObject (.bare '\x7b' _) (.bare '\x7d' r)
  | object ((name, value) :: rest), r => by
      have hvalue := spells_print (d + 1) value (printEntries l d rest ++ r)
      have h := Spells.object (hl.mark_line '\x7b' (d + 1) _) (hl.spells_entry name hvalue)
        (spells_printEntries d rest r)
      simpa [print, tree, treeEntries] using h

theorem spells_printItems (d : Nat) :
    ∀ (items : List Json) (r : List Char),
      Spells (.items (treeItems items)) (printItems l d items ++ r) r
  | [], r => by
      have h := Spells.noItems (hl.line_mark ']' d r)
      simpa [printItems, treeItems] using h
  | item :: rest, r => by
      have hitem := spells_print (d + 1) item (printItems l d rest ++ r)
      have h := Spells.items (hl.mark_line ',' (d + 1) _) hitem (spells_printItems d rest r)
      simpa [printItems, treeItems] using h

theorem spells_printEntries (d : Nat) :
    ∀ (entries : List (String × Json)) (r : List Char),
      Spells (.entries (treeEntries entries)) (printEntries l d entries ++ r) r
  | [], r => by
      have h := Spells.noEntries (hl.line_mark '\x7d' d r)
      simpa [printEntries, treeEntries] using h
  | (name, value) :: rest, r => by
      have hvalue := spells_print (d + 1) value (printEntries l d rest ++ r)
      have h := Spells.entries (hl.mark_line ',' (d + 1) _) (hl.spells_entry name hvalue)
        (spells_printEntries d rest r)
      simpa [printEntries, treeEntries] using h

end

/-- A printed value is a text for this value and for no other. -/
theorem isText_toText_iff (v : Json) (t : JsonTree) :
    IsText (v.toText l).toList t ↔ t = v.tree := by
  have hv : IsText (v.toText l).toList v.tree := by
    refine ⟨[], v.print l 0, [], by simp, by simp, by simp [toText], ?_⟩
    simpa using spells_print hl 0 v []
  refine ⟨fun h => h.unique hv, ?_⟩
  rintro rfl
  exact hv

theorem toText_injective {v v' : Json} (h : v.toText l = v'.toText l) : v = v' := by
  have ht : IsText (v'.toText l).toList v.tree := h ▸ (isText_toText_iff hl v _).mpr rfl
  exact tree_injective ((isText_toText_iff hl v' _).mp ht)

end print
end Json
end MessageSchema
