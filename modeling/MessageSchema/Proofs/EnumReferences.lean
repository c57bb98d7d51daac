import MessageSchema.Proofs.Expansion
import Mathlib.Data.List.Nodup

/-! # References to enums

A field of enum type takes over the values of those enums of its own message that its type name
ends with, each after the name of the message and with a dot in front of both names.  Where the
names hold no dot, this suffix of characters is a suffix of components: the type name is cut at its
dots into at least three components, and the last two are the names of message and enum
(`Message.namesEnum_iff_denotes`).  So no name is matched by the end of a longer one, and enums of
different names are never matched together.

Main statement: the values of a field are those of the enums that its type name denotes, in the
order of declaration, and a field that is repeated carries them on its array
(`Context.enumItems_of_components`). -/

namespace MessageSchema

namespace Message

/-- The type name has at least three components, of which the last two are the names of `owner` and
of its enum `e`. -/
def Denotes (owner : Message) (e : EnumType) (typeName : String) : Prop :=
  3 ≤ (Text.pieces '.' typeName).length ∧ [owner.name, e.name] <:+ Text.pieces '.' typeName

instance (owner : Message) (e : EnumType) (typeName : String) :
    Decidable (owner.Denotes e typeName) :=
  inferInstanceAs (Decidable (_ ∧ _))

/-- A type name for the enum `e` of `owner`; `scope` is what leads to the owner. -/
def enumReference (owner : Message) (scope : String) (e : EnumType) : String :=
  scope ++ "." ++ owner.name ++ "." ++ e.name

/-- No name in the message, of itself or of one of its enums, holds a dot. -/
def NamesUndotted (owner : Message) : Prop :=
  '.' ∉ owner.name.toList ∧ ∀ e ∈ owner.enums, '.' ∉ e.name.toList

instance : DecidablePred NamesUndotted := fun owner =>
  inferInstanceAs (Decidable ('.' ∉ owner.name.toList ∧ ∀ e ∈ owner.enums, '.' ∉ e.name.toList))

variable {owner : Message} {e e' : EnumType} {typeName scope : String}

/-! ### Suffixes of characters and of components -/

theorem namesEnum_iff :
    owner.namesEnum e typeName ↔ ∃ scope, typeName = owner.enumReference scope e := by
  rw [namesEnum, List.isSuffixOf_iff_suffix]
  constructor
  · rintro ⟨before, h⟩
    refine ⟨String.ofList before, String.toList_inj.mp ?_⟩
    rw [← h]
    simp [enumReference]
  · rintro ⟨scope, rfl⟩
    exact ⟨scope.toList, by simp [enumReference]⟩

/-- Whatever leads to the owner, a reference ends with the names of owner and enum. -/
theorem pieces_enumReference (howner : '.' ∉ owner.name.toList) (he : '.' ∉ e.name.toList) :
    Text.pieces '.' (owner.enumReference scope e) =
      Text.pieces '.' scope ++ [owner.name, e.name] := by
  have hdots : owner.enumReference scope e =
      scope ++ String.singleton '.' ++ owner.name ++ String.singleton '.' ++ e.name := rfl
  rw [hdots, Text.pieces_append, Text.pieces_append, Text.pieces_of_not_mem howner,
    Text.pieces_of_not_mem he, List.append_assoc]
  rfl

theorem Denotes.exists_reference (h : owner.Denotes e typeName) :
    ∃ scope, typeName = owner.enumReference scope e := by
  obtain ⟨hlength, before, hpieces⟩ := h
  have hne : before ≠ [] := by
    rintro rfl
    rw [← hpieces] at hlength
    simp at hlength
  refine ⟨Text.joined '.' before, ?_⟩
  calc typeName = Text.joined '.' (before ++ [owner.name] ++ [e.name]) := by
        rw [List.append_assoc, List.singleton_append, hpieces, Text.joined_pieces]
    _ = Text.joined '.' before ++ String.singleton '.' ++ owner.name ++ String.singleton '.' ++
          e.name := by
        rw [Text.joined_concat _ (by simp), Text.joined_concat _ hne]

theorem denotes_enumReference (howner : '.' ∉ owner.name.toList) (he : '.' ∉ e.name.toList)
    (scope : String) : owner.Denotes e (owner.enumReference scope e) := by
  rw [Denotes, pieces_enumReference howner he]
  refine ⟨?_, List.suffix_append _ _⟩
  have hlength := List.length_pos_iff.mpr (Text.pieces_ne_nil '.' scope)
  rw [List.length_append, List.length_cons, List.length_singleton]
  omega

theorem namesEnum_iff_denotes (howner : '.' ∉ owner.name.toList) (he : '.' ∉ e.name.toList) :
    owner.namesEnum e typeName ↔ owner.Denotes e typeName := by
  rw [namesEnum_iff]
  constructor
  · rintro ⟨scope, rfl⟩
    exact denotes_enumReference howner he scope
  · exact Denotes.exists_reference

/-! ### The enums that a type name denotes -/

theorem Denotes.name_eq (h : owner.Denotes e typeName) (h' : owner.Denotes e' typeName) :
    e.name = e'.name := by
  have hsuffix := List.suffix_of_suffix_length_le h.2 h'.2 (by simp)
  simpa using hsuffix.eq_of_length (by simp)

/-- The enums that a type name denotes, in the order of declaration. -/
def denoted (owner : Message) (typeName : String) : List EnumType :=
  owner.enums.filter (owner.Denotes · typeName)

theorem mem_denoted_iff :
    e ∈ owner.denoted typeName ↔ e ∈ owner.enums ∧ owner.Denotes e typeName := by
  rw [denoted, List.mem_filter, decide_eq_true_eq]

theorem length_denoted_le (hn : (owner.enums.map EnumType.name).Nodup) (typeName : String) :
    (owner.denoted typeName).length ≤ 1 := by
  have hnames : ((owner.denoted typeName).map EnumType.name).Nodup :=
    hn.sublist (List.filter_sublist.map _)
  have hall : ∀ e ∈ owner.denoted typeName, owner.Denotes e typeName :=
    fun e he => (mem_denoted_iff.mp he).2
  generalize owner.denoted typeName = enums at hnames hall
  cases enums with
  | nil => exact Nat.zero_le _
  | cons e rest =>
      cases rest with
      | nil => exact Nat.le_refl _
      | cons e' rest =>
          have hname := (hall e List.mem_cons_self).name_eq
            (hall e' (List.mem_cons_of_mem _ List.mem_cons_self))
          simp [hname] at hnames

theorem enumItems_eq (h : owner.NamesUndotted) (typeName : String) :
    owner.enumItems typeName = (owner.denoted typeName).flatMap EnumType.items := by
  rw [enumItems, denoted]
  congr 1
  apply List.filter_congr
  intro e he
  rw [Bool.eq_iff_iff, decide_eq_true_eq]
  exact namesEnum_iff_denotes h.1 (h.2 e he)

theorem items_infix_enumItems (h : owner.NamesUndotted) (he : e ∈ owner.denoted typeName) :
    e.items <:+: owner.enumItems typeName := by
  obtain ⟨before, after, hsplit⟩ := List.append_of_mem he
  rw [enumItems_eq h, hsplit, List.flatMap_append, List.flatMap_cons, ← List.append_assoc]
  exact List.infix_append _ _ _

theorem enumItems_eq_items (h : owner.NamesUndotted) (hn : (owner.enums.map EnumType.name).Nodup)
    (he : e ∈ owner.denoted typeName) : owner.enumItems typeName = e.items := by
  have hle := length_denoted_le hn typeName
  obtain ⟨before, after, hsplit⟩ := List.append_of_mem he
  rw [hsplit, List.length_append, List.length_cons] at hle
  obtain rfl : before = [] := List.length_eq_zero_iff.mp (by omega)
  obtain rfl : after = [] := List.length_eq_zero_iff.mp (by omega)
  rw [enumItems_eq h, hsplit]
  exact List.append_nil _

theorem enumItems_eq_nil (h : owner.NamesUndotted)
    (hlength : (Text.pieces '.' typeName).length < 3) : owner.enumItems typeName = [] := by
  have hnil : owner.denoted typeName = [] := by
    apply List.eq_nil_iff_forall_not_mem.mpr
    intro e he
    have := (mem_denoted_iff.mp he).2.1
    omega
  rw [enumItems_eq h, hnil]
  rfl

/-- A name with at most one dot in front of it has too few components to denote an enum. -/
theorem enumItems_of_short (h : owner.NamesUndotted) (he : e ∈ owner.enums) :
    owner.enumItems e.name = [] ∧ owner.enumItems ("." ++ e.name) = [] ∧
      owner.enumItems (owner.name ++ "." ++ e.name) = [] := by
  have hname := Text.pieces_of_not_mem (h.2 e he)
  have hdotted : ∀ s : String, '.' ∉ s.toList →
      (Text.pieces '.' (s ++ String.singleton '.' ++ e.name)).length < 3 := by
    intro s hs
    rw [Text.pieces_append, Text.pieces_of_not_mem hs, hname]
    simp
  refine ⟨enumItems_eq_nil h ?_, enumItems_eq_nil h ?_, enumItems_eq_nil h (hdotted _ h.1)⟩
  · simp [hname]
  · exact hdotted "" (by simp)

end Message

/-! ### Fields of enum type -/

namespace Context

/-- A field of enum type is a choice between names and numbers with the values that its type name
selects; if it is repeated, the values stand on the array and the items list none. -/
theorem outcome_fieldIn_of_enumeration (ctx : Context) (chain : List Place) (m : Located Message)
    {f : Field} (hf : f.type? = some 14) :
    (f.label = .repeated → (ctx.fieldIn chain m f).outcome = .ok
      { Schema.array (.ofKind .textOrInteger) with enumItems := m.item.enumItems f.typeName }) ∧
    (f.label ≠ .repeated → (ctx.fieldIn chain m f).outcome = .ok
      { Schema.ofKind .textOrInteger with enumItems := m.item.enumItems f.typeName }) := by
  have htype : f.fieldType? = some .enumeration := by
    rw [Field.fieldType?, hf]
    rfl
  rw [fieldIn, outcome_fieldSchema_of_leaf htype rfl]
  cases f.label <;> simp [Label.ofLeaf, Schema.repeated, Schema.ofKind]

/-- In a message whose names hold no dot, a field of enum type lists the values of exactly those
enums of the message that its type name denotes, and carries them on its own node, be it repeated or
not.  If the enums have different names, there is at most one such enum.  A reference to an enum of
the message lists its values whatever leads to the message, and a name of fewer than three
components lists none. -/
theorem enumItems_of_components (m : Located Message) (hm : m.item.NamesUndotted) :
    (∀ typeName, m.item.enumItems typeName =
      (m.item.enums.filter (m.item.Denotes · typeName)).flatMap fun e =>
        e.members.flatMap fun v => [.name v.name, .number v.number]) ∧
    ((m.item.enums.map EnumType.name).Nodup →
      ∀ typeName, (m.item.enums.filter (m.item.Denotes · typeName)).length ≤ 1) ∧
    (∀ e ∈ m.item.enums, ∀ scope,
      e.items <:+: m.item.enumItems (scope ++ "." ++ m.item.name ++ "." ++ e.name) ∧
      ((m.item.enums.map EnumType.name).Nodup →
        m.item.enumItems (scope ++ "." ++ m.item.name ++ "." ++ e.name) = e.items)) ∧
    (∀ typeName, (Text.pieces '.' typeName).length < 3 → m.item.enumItems typeName = []) ∧
    (∀ e ∈ m.item.enums, m.item.enumItems e.name = [] ∧ m.item.enumItems ("." ++ e.name) = [] ∧
      m.item.enumItems (m.item.name ++ "." ++ e.name) = []) ∧
    ∀ (ctx : Context) (chain : List Place) (f : Field), f.type? = some 14 →
      (f.label = .repeated → (ctx.fieldIn chain m f).outcome = .ok
        { Schema.array (.ofKind .textOrInteger) with enumItems := m.item.enumItems f.typeName }) ∧
      (f.label ≠ .repeated → (ctx.fieldIn chain m f).outcome = .ok
        { Schema.ofKind .textOrInteger with enumItems := m.item.enumItems f.typeName }) := by
  refine ⟨Message.enumItems_eq hm, Message.length_denoted_le, ?_,
    fun _ => Message.enumItems_eq_nil hm, fun _ => Message.enumItems_of_short hm,
    fun ctx chain _ => ctx.outcome_fieldIn_of_enumeration chain m⟩
  intro e he scope
  have hdenoted : e ∈ m.item.denoted (m.item.enumReference scope e) :=
    Message.mem_denoted_iff.mpr ⟨he, Message.denotes_enumReference hm.1 (hm.2 e he) scope⟩
  exact ⟨Message.items_infix_enumItems hm hdenoted,
    fun hn => Message.enumItems_eq_items hm hn hdenoted⟩

/-! ### A lamp and its modes -/

namespace LampTypes

/-- The modes that a lamp was in. -/
def past : Field :=
  { name? := some "past", label? := some 3, type? := some 14,
    typeName? := some ".home.hall.Lamp.Mode" }

/-- The name of the first enum ends the name of the second one. -/
def lamp : Located Message :=
  ⟨[0],
    { name? := some "Lamp", fields := [past]
      enums :=
        [{ name? := some "Mode", members := [{ name? := some "ON", number? := some 1 }] },
         { name? := some "NightMode", members := [{ name? := some "DIM", number? := some 2 }] }] }⟩

def context : Context := ⟨Registry.empty, [], {}⟩

/-- The values of a mode are found whatever leads to the lamp, but not under a longer name of the
message and not where nothing leads to it. -/
theorem enumItems_lamp :
    lamp.item.NamesUndotted ∧
      (context.fieldIn [] lamp past).outcome = .ok
        { Schema.array (.ofKind .textOrInteger) with enumItems := [.name "ON", .number 1] } ∧
      lamp.item.enumItems ".home.hall.NightLamp.Mode" = [] ∧
      lamp.item.enumItems "Lamp.Mode" = [] := by
  have hm : lamp.item.NamesUndotted := by decide
  have hn : (lamp.item.enums.map EnumType.name).Nodup := by decide
  obtain ⟨hitems, -, hreference, -, hshort, hfield⟩ := enumItems_of_components lamp hm
  have hmode : lamp.item.enumItems past.typeName = [.name "ON", .number 1] :=
    (hreference _ List.mem_cons_self ".home.hall").2 hn
  refine ⟨hm, ?_, ?_, (hshort _ List.mem_cons_self).2.2⟩
  · rw [(hfield context [] past rfl).1 rfl, hmode]
  · rw [hitems]
    decide

end LampTypes

end Context
end MessageSchema
