import MessageSchema.Proofs.AdditionalProperties
import MessageSchema.Proofs.DocumentTexts
import Mathlib.Data.Finset.Card

/-! # Properties in the order of insertion

Entries keep a name where it was first inserted and the value that was last inserted under it
(`Entries.keys_ofList`, `Entries.get?_ofList_eq_some_iff`).  The properties of a message are the
schemas of its fields, inserted in order, so of two fields with one name the later one counts and
stands in the place of the earlier one.

`Context.Unfolds` says of a whole schema what follows, without insertions: at every level there is
one property for each name of a field, made of the last field of that name.  Main statement: entries
keep the order of insertion, a converted message has the one schema that unfolds it, and no object
in its document has two equal keys (`Context.properties_in_insertion_order`). -/

namespace MessageSchema

/-! ### Entries after many insertions -/

namespace Entries

variable {α : Type} {name : String} {a : α}

/-- Names stand in the order of their first insertion. -/
theorem keys_ofList (entries : List (String × α)) :
    (ofList entries).keys = (names entries).eraseDups := by
  induction entries using List.reverseRecOn with
  | nil => rfl
  | append_singleton entries e ih =>
      have hinsert : ofList (entries ++ [e]) = insert e.1 e.2 (ofList entries) :=
        insertAll_append ∅ entries [e]
      rw [hinsert, keys_insert, ih, names_append, List.eraseDups_append]
      by_cases h : e.1 ∈ names entries
      · have hnone : (names [e]).removeAll (names entries) = [] := by
          simpa [List.removeAll] using h
        rw [if_pos (List.mem_eraseDups.mpr h), hnone, List.eraseDups_nil, List.append_nil]
      · have hone : (names [e]).removeAll (names entries) = [e.1] := by
          simpa [List.removeAll] using h
        rw [if_neg fun hm => h (List.mem_eraseDups.mp hm), hone]
        rfl

/-- There is one entry for each name. -/
theorem length_ofList (entries : List (String × α)) :
    (ofList entries).length = (names entries).toFinset.card := by
  have hnames : (ofList entries).keys.toFinset = (names entries).toFinset := by
    ext name
    rw [List.mem_toFinset, List.mem_toFinset, keys_ofList, List.mem_eraseDups]
  rw [← hnames, List.toFinset_card_of_nodup (nodup_keys _), ← names_toList, names,
    List.length_map, length]

/-- The value of a name is the last one inserted under it. -/
theorem get?_ofList_eq_some_iff (entries : List (String × α)) :
    get? name (ofList entries) = some a ↔
      ∃ before after, entries = before ++ (name, a) :: after ∧ name ∉ names after := by
  have hlast : get? name (ofList entries) =
      (entries.reverse.find? (·.1 = name)).map Prod.snd :=
    (get?_insertAll name ∅ entries).trans Option.or_none
  have hnot : ∀ after : List (String × α),
      (∀ e ∈ after.reverse, !decide (e.1 = name)) ↔ name ∉ names after := by
    intro after
    simp only [names, List.mem_map, not_exists, not_and, List.mem_reverse, Bool.not_eq_true',
      decide_eq_false_iff_not]
  rw [hlast, Option.map_eq_some_iff]
  constructor
  · rintro ⟨⟨n, b⟩, hfind, rfl⟩
    obtain ⟨hn, after, before, hsplit, hafter⟩ := List.find?_eq_some_iff_append.mp hfind
    obtain rfl : n = name := of_decide_eq_true hn
    refine ⟨before.reverse, after.reverse, ?_, (hnot _).mp (by simpa using hafter)⟩
    rw [← entries.reverse_reverse, hsplit]
    simp
  · rintro ⟨before, after, rfl, hafter⟩
    refine ⟨(name, a), List.find?_eq_some_iff_append.mpr ⟨by simp, ?_⟩, rfl⟩
    exact ⟨after.reverse, before.reverse, by simp, (hnot after).mpr hafter⟩

end Entries

/-! ### Schemas made of the last fields -/

namespace Context

mutual

/-- The schema is an object with one property for each name of a field of `m`, in the order in which
the names first occur, and each property is that of the last field of its name. -/
inductive Unfolds (ctx : Context) : List Place → Located Message → Schema → Prop where
  | message {chain : List Place} {m : Located Message} (ps : Entries Schema)
      (hnames : ps.keys = (m.item.fields.map Field.name).eraseDups)
      (hlast : ∀ name f node, m.item.lastField? name = some f → Entries.get? name ps = some node →
        UnfoldsField ctx chain m f node) :
      Unfolds ctx chain m (ctx.objectWith ps)

/-- The schema is that of a field of `m` while `m` is expanded inside messages at the places of
`chain`: what a field without messages takes from its type, a node without properties for a message
on the chain, or the schema of the message that the field opens. -/
inductive UnfoldsField (ctx : Context) : List Place → Located Message → Field → Schema → Prop where
  | leaf {chain : List Place} {m : Located Message} {f : Field} {type : FieldType} {s : Schema}
      (ht : f.fieldType? = some type) (hs : f.leaf? m.item type = some s) :
      UnfoldsField ctx chain m f (f.label.ofLeaf s)
  | cut {chain : List Place} {m t : Located Message} {f : Field} (ht : ctx.Resolves f t)
      (hp : t.place ∈ m.place :: chain) (hl : f.label ≠ .required) :
      UnfoldsField ctx chain m f (ctx.cutNode f.label)
  | opens {chain : List Place} {m t : Located Message} {f : Field} {s : Schema}
      (ht : ctx.Resolves f t) (hp : t.place ∉ m.place :: chain)
      (hs : Unfolds ctx (m.place :: chain) t s) :
      UnfoldsField ctx chain m f (f.label.ofExpanded s)

end

variable {ctx : Context} {chain : List Place} {m : Located Message} {f : Field}
variable {s s' node node' : Schema} {ps : Entries Schema}

theorem names_of_outcome_fieldSchemas {owner : Message} {convert : Field → Conversion Schema}
    {fields : List Field} (h : (fieldSchemas owner convert ∅ fields).outcome = .ok ps) :
    ps.keys = (fields.map Field.name).eraseDups := by
  obtain ⟨value, -, rfl⟩ := outcome_fieldSchemas_eq_ok_iff.mp h
  refine (Entries.keys_ofList _).trans ?_
  rw [Entries.names, List.map_map]
  rfl

/-- A field that converts has the one schema that unfolds it, if this holds of the message that it
opens. -/
theorem unfoldsField_iff (hn : (ctx.fieldIn chain m f).outcome = .ok node)
    (h : ∀ t s, ctx.Resolves f t → t.place ∉ m.place :: chain →
      (ctx.expand (m.place :: chain) t).outcome = .ok s →
        ∀ s', ctx.Unfolds (m.place :: chain) t s' ↔ s' = s) :
    ctx.UnfoldsField chain m f node' ↔ node' = node := by
  constructor
  · intro hnode
    cases hnode with
    | leaf ht hs =>
        rw [fieldIn, outcome_fieldSchema_of_leaf ht hs] at hn
        exact Except.ok.inj hn
    | cut ht hp hl =>
        rw [fieldIn, outcome_fieldSchema_of_cut ht hp hl] at hn
        exact Except.ok.inj hn
    | opens ht hp hs' =>
        obtain ⟨s, hs, rfl⟩ := exists_ok_of_opens ht hp hn
        rw [(h _ _ ht hp hs _).mp hs']
  · rintro rfl
    cases made_of_outcome_fieldIn hn with
    | leaf type s ht hs => exact .leaf ht hs
    | cut t ht hp hl => exact .cut ht hp hl
    | opens t s ht hp hs => exact .opens ht hp ((h t s ht hp hs s).mpr rfl)

/-- A message that converts has the one schema that unfolds it. -/
theorem unfolds_expand_iff (hs : (ctx.expand chain m).outcome = .ok s) :
    ctx.Unfolds chain m s' ↔ s' = s := by
  induction chain, m using ctx.expand_induction generalizing s s' with
  | step chain m ih =>
      obtain ⟨ps, hps, rfl⟩ := outcome_expand_eq_ok_iff.mp hs
      have hnames := names_of_outcome_fieldSchemas hps
      have hfield : ∀ f node node', (ctx.fieldIn chain m f).outcome = .ok node →
          (ctx.UnfoldsField chain m f node' ↔ node' = node) :=
        fun f _ _ hn => unfoldsField_iff hn fun t _ ht hp hs _ => ih f t ht hp hs
      constructor
      · rintro ⟨ps', hnames', hlast⟩
        congr 1
        refine Entries.ext_get? (hnames'.trans hnames.symm) fun name node' node hnode' hnode => ?_
        obtain ⟨f, hf, hconvert⟩ := (get?_of_outcome_fieldSchemas_last hps).mp hnode
        exact (hfield f node node' hconvert).mp (hlast name f node' hf hnode')
      · rintro rfl
        refine .message ps hnames fun name f node hf hnode => ?_
        obtain ⟨f', hf', hconvert⟩ := (get?_of_outcome_fieldSchemas_last hps).mp hnode
        obtain rfl : f = f' := Option.some.inj (hf.symm.trans hf')
        exact (hfield f node node hconvert).mpr rfl

/-- Entries inserted in any order under any names have each name once, in the order in which the
names were first inserted, with the value that was last inserted under it; and there are no other
entries than these.  So a converted message has one property for each name of a field, made of the
last field of that name, and this holds at every level; and no object in its document has two equal
keys. -/
theorem properties_in_insertion_order :
    (∀ inserted : List (String × Schema),
      (Entries.ofList inserted).keys.Nodup ∧
      (Entries.ofList inserted).keys = (Entries.names inserted).eraseDups ∧
      Entries.names (Entries.ofList inserted).toList = (Entries.ofList inserted).keys ∧
      (Entries.ofList inserted).length = (Entries.names inserted).toFinset.card ∧
      (∀ name s, Entries.get? name (Entries.ofList inserted) = some s ↔
        ∃ before after, inserted = before ++ (name, s) :: after ∧ name ∉ Entries.names after) ∧
      (∀ name, Entries.get? name (Entries.ofList inserted) = none ↔
        name ∉ Entries.names inserted) ∧
      ∀ entries, entries.foldl (fun es e => Entries.insert e.1 e.2 es) (Entries.ofList inserted) =
        Entries.ofList (inserted ++ entries)) ∧
    (∀ ps : Entries Schema, Entries.ofList ps.toList = ps) ∧
    ∀ (ctx : Context) (m : Located Message) (s : Schema), (ctx.schemaOf m).outcome = .ok s →
      s.properties.keys = (m.item.fields.map Field.name).eraseDups ∧
      (∀ name node, Entries.get? name s.properties = some node ↔
        ∃ f, m.item.lastField? name = some f ∧ (ctx.fieldIn [] m f).outcome = .ok node) ∧
      (∀ s', ctx.Unfolds [] m s' ↔ s' = s) ∧
      ∃ tree : JsonTree, (∀ t, JsonText.IsText s.documentText.toList t ↔ t = tree) ∧
        tree.KeysUnique := by
  refine ⟨?_, Entries.ofList_toList, ?_⟩
  · intro inserted
    refine ⟨Entries.nodup_keys _, Entries.keys_ofList inserted, Entries.names_toList _,
      Entries.length_ofList inserted, fun _ _ => Entries.get?_ofList_eq_some_iff inserted, ?_,
      ?_⟩
    · intro name
      rw [Entries.get?_eq_none_iff, Entries.keys_ofList, List.mem_eraseDups]
    · intro entries
      exact (Entries.foldl_insert _ _).trans (Entries.insertAll_append ∅ inserted entries).symm
  · intro ctx m s hs
    have hunfolds : ∀ s', ctx.Unfolds [] m s' ↔ s' = s := fun _ => unfolds_expand_iff hs
    obtain ⟨ps, hps, rfl⟩ := outcome_expand_eq_ok_iff.mp hs
    exact ⟨names_of_outcome_fieldSchemas hps, fun _ _ => get?_of_outcome_fieldSchemas_last hps,
      hunfolds, _, Json.isText_toText_iff Json.Layout.blank_pretty _,
      (ctx.objectWith ps).keysUnique_documentJson⟩

/-! ### A parcel with fields of equal names -/

namespace ParcelTypes

/-- The lines of an address, of which there were two kinds. -/
def address : Located Message :=
  ⟨[0],
    { name? := some "Address"
      fields :=
        [{ name? := some "line", label? := some 3, type? := some 9 },
         { name? := some "code", label? := some 1, type? := some 5 },
         { name? := some "line", label? := some 1, type? := some 9 }] }⟩

/-- A parcel goes to one address, and in the second version to several. -/
def parcel : Located Message :=
  ⟨[1],
    { name? := some "Parcel"
      fields :=
        [{ name? := some "to", label? := some 1, type? := some 11, typeName? := some ".Address" },
         { name? := some "weight", label? := some 2, type? := some 1 },
         { name? := some "to", label? := some 3, type? := some 11,
           typeName? := some ".Address" }] }⟩

def context : Context := ⟨(Registry.empty.insert [] address).insert [] parcel, [], {}⟩

/-- The schema of a parcel; the second version of each field counts. -/
def schema : Schema :=
  context.objectWith
    [("to", Schema.array (context.objectWith
        [("line", Schema.ofType .text), ("code", Schema.ofType .integer)])),
      ("weight", Schema.ofType .number)]

theorem unfolds_parcel :
    (context.schemaOf parcel).outcome = .ok schema ∧
      schema.properties.keys = (parcel.item.fields.map Field.name).eraseDups ∧
      context.Unfolds [] parcel schema ∧
      ∃ tree : JsonTree, JsonText.IsText schema.documentText.toList tree ∧ tree.KeysUnique := by
  have hs : (context.schemaOf parcel).outcome = .ok schema := by cbv
  obtain ⟨hnames, -, hunfolds, tree, htext, hkeys⟩ :=
    properties_in_insertion_order.2.2 context parcel schema hs
  exact ⟨hs, hnames, (hunfolds schema).mpr rfl, tree, (htext tree).mpr rfl, hkeys⟩

end ParcelTypes

end Context
end MessageSchema
