import MessageSchema.Generator.Request
import MessageSchema.Proofs.Wire.Records

/-! # Components of records

A record is put together from texts, numbers and inner messages, each under one tag, and taken apart
by access to the values of one kind under one tag.  Access finds what stands under its tag and
nothing else; a record put together from components that its shape knows fits the shape. -/

namespace MessageSchema

@[simp] theorem getLast?_toList {α : Type} (a? : Option α) : a?.toList.getLast? = a? := by
  cases a? <;> rfl

namespace Record

/-- Texts under one tag. -/
def ofTexts (tag : Nat) (l : List String) : Record := l.map fun s => (tag, .text s)

/-- Numbers under one tag. -/
def ofVarints (tag : Nat) (l : List UInt64) : Record := l.map fun n => (tag, .varint n)

@[simp] theorem ofText?_eq (tag : Nat) (s? : Option String) :
    ofText? tag s? = ofTexts tag s?.toList := by
  cases s? <;> rfl

@[simp] theorem ofVarint?_eq (tag : Nat) (n? : Option UInt64) :
    ofVarint? tag n? = ofVarints tag n?.toList := by
  cases n? <;> rfl

@[simp] theorem ofInt32?_eq (tag : Nat) (n? : Option Int32) :
    ofInt32? tag n? = ofVarints tag (n?.map Varint.ofInt32).toList := by
  cases n? <;> rfl

/-! ### Access -/

/-- Items that a reader finds again one by one, or not at all, it finds again as a list. -/
theorem filterMap_map_ite {α β : Type} {p : Prop} [Decidable p] {f : β → Option α} {g : α → β}
    (h : ∀ a, f (g a) = if p then some a else none) (l : List α) :
    (l.map g).filterMap f = if p then l else [] := by
  induction l with
  | nil => simp
  | cons a l ih =>
      rw [List.map_cons, List.filterMap_cons, h, ih]
      by_cases hp : p <;> simp [hp]

section access
variable (tag tag' : Nat) (r r' : Record) (ss : List String) (ns : List UInt64) (rs : List Record)

@[simp] theorem texts_append : texts tag (r ++ r') = texts tag r ++ texts tag r' :=
  List.filterMap_append

@[simp] theorem varints_append : varints tag (r ++ r') = varints tag r ++ varints tag r' :=
  List.filterMap_append

@[simp] theorem messages_append : messages tag (r ++ r') = messages tag r ++ messages tag r' :=
  List.filterMap_append

@[simp] theorem texts_ofTexts : texts tag (ofTexts tag' ss) = if tag' = tag then ss else [] := by
  rw [texts, ofTexts]
  apply filterMap_map_ite
  exact fun _ => rfl

@[simp] theorem texts_ofVarints : texts tag (ofVarints tag' ns) = [] := by
  simp [texts, ofVarints]

@[simp] theorem texts_ofMessages : texts tag (ofMessages tag' rs) = [] := by
  simp [texts, ofMessages]

@[simp] theorem varints_ofTexts : varints tag (ofTexts tag' ss) = [] := by
  simp [varints, ofTexts]

@[simp] theorem varints_ofVarints :
    varints tag (ofVarints tag' ns) = if tag' = tag then ns else [] := by
  rw [varints, ofVarints]
  apply filterMap_map_ite
  exact fun _ => rfl

@[simp] theorem varints_ofMessages : varints tag (ofMessages tag' rs) = [] := by
  simp [varints, ofMessages]

@[simp] theorem messages_ofTexts : messages tag (ofTexts tag' ss) = [] := by
  simp [messages, ofTexts]

@[simp] theorem messages_ofVarints : messages tag (ofVarints tag' ns) = [] := by
  simp [messages, ofVarints]

@[simp] theorem messages_ofMessages :
    messages tag (ofMessages tag' rs) = if tag' = tag then rs else [] := by
  rw [messages, ofMessages]
  apply filterMap_map_ite
  exact fun _ => rfl

end access

/-! ### Shapes and depths -/

section fits
variable {shape inner : Shape} {tag : Nat} {r r' : Record}

theorem fits_of_forall (h : ∀ e ∈ r, ∃ c, shape.component? e.1 = some c ∧ e.2.Fits c.slot) :
    r.Fits shape := by
  induction r with
  | nil => trivial
  | cons e rest ih =>
      exact ⟨h e List.mem_cons_self, ih fun e he => h e (List.mem_cons_of_mem _ he)⟩

theorem Fits.append (h : r.Fits shape) (h' : r'.Fits shape) : Fits shape (r ++ r') := by
  induction r with
  | nil => exact h'
  | cons e rest ih => exact ⟨h.1, ih h.2⟩

theorem fits_ofTexts (h : (shape.component? tag).map Component.slot = some .text)
    (ss : List String) : (ofTexts tag ss).Fits shape := by
  obtain ⟨c, hc, hslot⟩ := Option.map_eq_some_iff.mp h
  apply fits_of_forall
  intro e he
  obtain ⟨s, -, rfl⟩ := List.mem_map.mp he
  exact ⟨c, hc, by rw [hslot]; trivial⟩

theorem fits_ofVarints (h : (shape.component? tag).map Component.slot = some .varint)
    (ns : List UInt64) : (ofVarints tag ns).Fits shape := by
  obtain ⟨c, hc, hslot⟩ := Option.map_eq_some_iff.mp h
  apply fits_of_forall
  intro e he
  obtain ⟨n, -, rfl⟩ := List.mem_map.mp he
  exact ⟨c, hc, by rw [hslot]; trivial⟩

theorem fits_ofMessages (h : (shape.component? tag).map Component.slot = some (.message inner))
    {rs : List Record} (hrs : ∀ r ∈ rs, r.Fits inner) : (ofMessages tag rs).Fits shape := by
  obtain ⟨c, hc, hslot⟩ := Option.map_eq_some_iff.mp h
  apply fits_of_forall
  intro e he
  obtain ⟨r, hr, rfl⟩ := List.mem_map.mp he
  exact ⟨c, hc, by rw [hslot]; exact hrs r hr⟩

theorem depth_le_iff {n : Nat} : r.depth ≤ n ↔ ∀ e ∈ r, e.2.depth ≤ n := by
  induction r with
  | nil => simp [depth]
  | cons e rest ih => rw [depth, Nat.max_le, ih, List.forall_mem_cons]

theorem depth_append_le_iff {n : Nat} :
    Record.depth (r ++ r') ≤ n ↔ r.depth ≤ n ∧ r'.depth ≤ n := by
  simp only [depth_le_iff, List.forall_mem_append]

theorem depth_ofTexts (tag : Nat) (ss : List String) : (ofTexts tag ss).depth = 0 := by
  apply Nat.le_zero.mp
  rw [depth_le_iff]
  simp [ofTexts, WireValue.depth]

theorem depth_ofVarints (tag : Nat) (ns : List UInt64) : (ofVarints tag ns).depth = 0 := by
  apply Nat.le_zero.mp
  rw [depth_le_iff]
  simp [ofVarints, WireValue.depth]

theorem depth_ofMessages_le {n : Nat} {rs : List Record} (h : ∀ r ∈ rs, r.depth ≤ n) :
    (ofMessages tag rs).depth ≤ n + 1 := by
  rw [depth_le_iff]
  simpa [ofMessages, WireValue.depth] using h

end fits

end Record
end MessageSchema
