import MessageSchema.Schema.Basic
import MessageSchema.Proofs.Json.Printing

/-! # Documents as JSON texts

A node is written as an object with an entry for each keyword that is set, in the order of
`Keyword.all` (`Schema.entries_eq`).  What stands under the keywords (`Schema.value?`) tells all
about the node, so different nodes have different entries (`Schema.toJson_injective`).

Main statement: the text of a document stands for the object with the dialect in front of the
entries of its schema and for nothing else, no two schemas have the same document, and no object in
it has two equal keys (`Schema.isText_documentText`). -/

namespace MessageSchema

open JsonText (IsText)

/-! ### Induction -/

/-- What holds of a union whenever it holds of its alternatives, and of types, holds of every
kind. -/
theorem Kind.induction {P : Kind → Prop} (simple : ∀ t, P (.simple t))
    (union : ∀ ks, (∀ k ∈ ks, P k) → P (.union ks)) : ∀ k, P k
  | .simple t => simple t
  | .union ks => union ks fun k _ => Kind.induction simple union k
termination_by k => sizeOf k
decreasing_by
  have hlt := List.sizeOf_lt_of_mem ‹k ∈ ks›
  simp only [Kind.union.sizeOf_spec]
  omega

mutual

/-- What holds of a schema whenever it holds of its items and its properties holds of every
schema. -/
theorem Schema.induction {P : Schema → Prop}
    (step : ∀ s, (∀ items ∈ s.items?, P items) → (∀ e ∈ s.properties, P e.2) → P s) : ∀ s, P s
  | ⟨_, items?, ⟨rows⟩, _, _⟩ =>
      step _ (Schema.induction_items step items?) (Schema.induction_rows step rows)

theorem Schema.induction_items {P : Schema → Prop}
    (step : ∀ s, (∀ items ∈ s.items?, P items) → (∀ e ∈ s.properties, P e.2) → P s) :
    ∀ items? : Option Schema, ∀ items ∈ items?, P items
  | some items, _, rfl => Schema.induction step items

theorem Schema.induction_rows {P : Schema → Prop}
    (step : ∀ s, (∀ items ∈ s.items?, P items) → (∀ e ∈ s.properties, P e.2) → P s) :
    ∀ {names : List String} (rows : Rows Schema names), ∀ e ∈ rows.toList, P e.2
  | _, .cons _ s rest _, e, he =>
      (List.mem_cons.mp he).elim (fun h => h ▸ Schema.induction step s)
        (Schema.induction_rows step rest e)

end

/-! ### Keywords -/

/-- The keywords of nodes. -/
inductive Keyword where
  | type
  | oneOf
  | items
  | properties
  | additionalProperties
  | enum
deriving DecidableEq, Repr

namespace Keyword

/-- The key of a keyword. -/
def name : Keyword → String
  | type => "type"
  | oneOf => "oneOf"
  | items => "items"
  | properties => "properties"
  | additionalProperties => "additionalProperties"
  | enum => "enum"

/-- The keywords in the order in which they are written. -/
def all : List Keyword := [type, oneOf, items, properties, additionalProperties, enum]

theorem mem_all (k : Keyword) : k ∈ all := by cases k <;> decide

theorem name_injective {k k' : Keyword} (h : k.name = k'.name) : k = k' := by
  cases k <;> cases k' <;> first | rfl | exact absurd h (by decide)

theorem nodup_map_name_all : (all.map name).Nodup := by decide

end Keyword

namespace Schema

/-- What stands under a keyword of a node: nothing if it is unset or empty. -/
def value? (s : Schema) : Keyword → Option Json
  | .type =>
      match s.kind with
      | .simple t => some (.text t.name)
      | .union _ => none
  | .oneOf =>
      match s.kind with
      | .simple _ => none
      | .union ks => some (.list (ks.map fun k => (ofKind k).toJson))
  | .items => s.items?.map toJson
  | .properties =>
      if s.properties.isEmpty then none
      else some (.object (Entries.mapValues toJson s.properties))
  | .additionalProperties => s.additionalProperties?.map .bool
  | .enum => if s.enumItems = [] then none else some (.list (s.enumItems.map EnumItem.toJson))

theorem rowEntries_eq : ∀ {names : List String} (rows : Rows Schema names),
    rowEntries rows = (rows.map toJson).toList
  | _, .nil => rfl
  | _, .cons name s rest _ => congrArg ((name, s.toJson) :: ·) (rowEntries_eq rest)

/-- The entries of properties are those of the properties one by one. -/
theorem propertyEntries_eq (ps : Entries Schema) :
    propertyEntries ps = Entries.mapValues toJson ps := by
  obtain ⟨rows⟩ := ps
  exact rowEntries_eq rows

theorem toJson_ofKind (k : Kind) : (ofKind k).toJson = .object [k.entry] := rfl

theorem entries_alternatives (ks : List Kind) :
    Kind.entries ks = ks.map fun k => (ofKind k).toJson := by
  induction ks with
  | nil => rfl
  | cons k rest ih => rw [Kind.entries, ih, List.map_cons, toJson_ofKind]

/-- The entry of a keyword, if it is set. -/
def entryOf? (s : Schema) (k : Keyword) : Option (String × Json) := (s.value? k).map (k.name, ·)

/-- The entries of a node are those of its keywords, in order. -/
theorem entries_eq (s : Schema) : s.entries = Keyword.all.filterMap s.entryOf? := by
  have hcons : ∀ k ks, List.filterMap s.entryOf? (k :: ks) =
      (s.entryOf? k).toList ++ List.filterMap s.entryOf? ks := by
    intro k ks
    cases h : s.entryOf? k <;> simp [h]
  have hkind : [s.kind.entry] = (s.entryOf? .type).toList ++ (s.entryOf? .oneOf).toList := by
    rw [entryOf?, entryOf?, value?, value?]
    cases s.kind with
    | simple t => rfl
    | union ks =>
        rw [Kind.entry, entries_alternatives]
        rfl
  rw [Keyword.all]
  simp only [hcons, List.filterMap_nil, List.append_nil]
  rw [← List.append_assoc (s.entryOf? .type).toList, ← hkind]
  obtain ⟨kind, items?, properties, additional?, enumItems⟩ := s
  rw [entries.eq_def]
  simp only [propertyEntries_eq]
  obtain ⟨rows⟩ := properties
  cases items? <;> cases rows <;> cases additional? <;> cases enumItems <;> rfl

end Schema

/-! ### Nodes from their entries -/

theorem eq_of_map_eq {α β : Type} {f : α → β} {l l' : List α}
    (hf : ∀ a ∈ l, ∀ b, f a = f b → a = b) (h : l.map f = l'.map f) : l = l' := by
  induction l generalizing l' with
  | nil => exact (List.map_eq_nil_iff.mp h.symm).symm
  | cons a rest ih =>
      cases l' with
      | nil => cases h
      | cons b rest' =>
          obtain ⟨hab, hrest⟩ := List.cons.inj h
          have htail := ih (fun c hc => hf c (List.mem_cons_of_mem _ hc)) hrest
          rw [hf a List.mem_cons_self b hab, htail]

theorem eq_of_ite_nil_eq {α β : Type} {f : List α → β} {l l' : List α}
    (h : (if l = [] then none else some (f l)) = if l' = [] then none else some (f l')) :
    f l = f l' := by
  split at h <;> split at h <;> simp_all

theorem SimpleType.name_injective {t t' : SimpleType} (h : t.name = t'.name) : t = t' := by
  cases t <;> cases t' <;> first | rfl | exact absurd h (by decide)

theorem EnumItem.toJson_injective {a b : EnumItem} (h : a.toJson = b.toJson) : a = b := by
  cases a with
  | name s =>
      cases b with
      | name s' => simpa [toJson] using h
      | number => simp [toJson] at h
  | number n =>
      cases b with
      | name => simp [toJson] at h
      | number n' =>
          have hn : n.toInt = n'.toInt := by simpa [toJson] using h
          rw [Int32.toInt_inj.mp hn]

theorem Kind.entry_injective (k : Kind) : ∀ k' : Kind, k.entry = k'.entry → k = k' := by
  induction k using Kind.induction with
  | simple t =>
      intro k' h
      cases k' with
      | simple t' =>
          have hname : t.name = t'.name := by simpa [entry] using h
          rw [SimpleType.name_injective hname]
      | union => simp [entry] at h
  | union ks ih =>
      intro k' h
      cases k' with
      | simple => simp [entry] at h
      | union ks' =>
          have hlist : ks.map (fun k => (Schema.ofKind k).toJson) =
              ks'.map fun k => (Schema.ofKind k).toJson := by
            simpa [entry, Schema.entries_alternatives] using h
          rw [eq_of_map_eq ?_ hlist]
          intro k hk k' hjson
          simp only [Schema.toJson_ofKind, Json.object.injEq, List.cons.injEq, and_true] at hjson
          exact ih k hk k' hjson

namespace Schema

theorem lookup_filterMap_entryOf? (s : Schema) (k : Keyword) {ks : List Keyword} (hks : ks.Nodup) :
    (ks.filterMap s.entryOf?).lookup k.name = if k ∈ ks then s.value? k else none := by
  induction ks with
  | nil => rfl
  | cons k' rest ih =>
      obtain ⟨hk', hrest⟩ := List.nodup_cons.mp hks
      have ih := ih hrest
      by_cases hk : k' = k
      · subst hk
        rw [if_neg hk'] at ih
        cases hv : s.value? k' <;> simp [entryOf?, hv, ih]
      · have hname : k'.name ≠ k.name := fun h => hk (Keyword.name_injective h)
        have hmem : k ∈ k' :: rest ↔ k ∈ rest := by simp [Ne.symm hk]
        cases hv : s.value? k' <;> simp [entryOf?, hv, ih, hmem, hname, Entries.lookup_cons]

/-- What stands under a keyword is found under its name. -/
theorem lookup_entries (s : Schema) (k : Keyword) : s.entries.lookup k.name = s.value? k := by
  rw [entries_eq, s.lookup_filterMap_entryOf? k (by decide), if_pos k.mem_all]

theorem head?_entries (s : Schema) : s.entries.head? = some s.kind.entry := by
  cases s
  rfl

section injective
variable {s s' : Schema}

theorem kind_eq_of_entries_eq (h : s.entries = s'.entries) : s.kind = s'.kind := by
  apply Kind.entry_injective
  have hhead := s.head?_entries
  rw [h, s'.head?_entries] at hhead
  exact (Option.some.inj hhead).symm

theorem items?_eq_of_value?_eq (h : s.value? .items = s'.value? .items)
    (ih : ∀ items ∈ s.items?, ∀ items' : Schema, items.toJson = items'.toJson → items = items') :
    s.items? = s'.items? := by
  have hmap : s.items?.map toJson = s'.items?.map toJson := h
  cases hs : s.items? with
  | none =>
      rw [hs] at hmap
      exact (Option.map_eq_none_iff.mp hmap.symm).symm
  | some items =>
      rw [hs] at hmap
      obtain ⟨items', hs', hjson⟩ := Option.map_eq_some_iff.mp hmap.symm
      rw [hs', ih items hs items' hjson.symm]

theorem properties_eq_of_value?_eq (h : s.value? .properties = s'.value? .properties)
    (ih : ∀ e ∈ s.properties, ∀ p : Schema, e.2.toJson = p.toJson → e.2 = p) :
    s.properties = s'.properties := by
  simp only [value?, Entries.isEmpty_iff, Entries.toList_mapValues] at h
  have hmap := Json.object.inj (eq_of_ite_nil_eq
    (f := fun l : List (String × Schema) => Json.object (l.map fun e => (e.1, e.2.toJson))) h)
  apply Entries.ext_toList
  refine eq_of_map_eq (fun e he e' hpair => ?_) hmap
  obtain ⟨hname, hjson⟩ := Prod.mk.inj hpair
  exact Prod.ext hname (ih e he e'.2 hjson)

theorem enumItems_eq_of_value?_eq (h : s.value? .enum = s'.value? .enum) :
    s.enumItems = s'.enumItems := by
  rw [value?, value?] at h
  have hmap := Json.list.inj
    (eq_of_ite_nil_eq (f := fun items => Json.list (items.map EnumItem.toJson)) h)
  exact eq_of_map_eq (fun _ _ _ => EnumItem.toJson_injective) hmap

theorem additionalProperties?_eq_of_value?_eq
    (h : s.value? .additionalProperties = s'.value? .additionalProperties) :
    s.additionalProperties? = s'.additionalProperties? :=
  Option.map_injective (fun _ _ => Json.bool.inj) h

end injective

theorem toJson_injective (s : Schema) : ∀ s' : Schema, s.toJson = s'.toJson → s = s' := by
  induction s using Schema.induction with
  | step s ihItems ihProperties =>
      intro s' h
      have hentries : s.entries = s'.entries := Json.object.inj h
      have hvalue : ∀ k, s.value? k = s'.value? k := by
        intro k
        rw [← s.lookup_entries, hentries, s'.lookup_entries]
      have hkind := kind_eq_of_entries_eq hentries
      have hitems := items?_eq_of_value?_eq (hvalue .items) ihItems
      have hproperties := properties_eq_of_value?_eq (hvalue .properties) ihProperties
      have hadditional := additionalProperties?_eq_of_value?_eq (hvalue .additionalProperties)
      have henum := enumItems_eq_of_value?_eq (hvalue .enum)
      cases s
      cases s'
      rw [mk.injEq]
      exact ⟨hkind, hitems, hproperties, hadditional, henum⟩

/-! ### Keys -/

theorem names_entries_sublist (s : Schema) :
    (Entries.names s.entries).Sublist (Keyword.all.map Keyword.name) := by
  rw [entries_eq]
  induction Keyword.all with
  | nil => exact .slnil
  | cons k rest ih =>
      cases hv : s.value? k with
      | none => simpa [Entries.names, entryOf?, hv] using ih.cons k.name
      | some v => simpa [Entries.names, entryOf?, hv] using ih

theorem nodup_names_entries (s : Schema) : (Entries.names s.entries).Nodup :=
  s.names_entries_sublist.nodup Keyword.nodup_map_name_all

/-- No node has the entry that declares the dialect. -/
theorem dialect_not_mem_names (s : Schema) : "$schema" ∉ Entries.names s.entries := by
  intro h
  have hname := s.names_entries_sublist.subset h
  revert hname
  decide

theorem mem_entries_iff {s : Schema} {e : String × Json} :
    e ∈ s.entries ↔ ∃ k v, s.value? k = some v ∧ (k.name, v) = e := by
  rw [entries_eq, List.mem_filterMap]
  constructor
  · rintro ⟨k, -, hk⟩
    obtain ⟨v, hv, rfl⟩ := Option.map_eq_some_iff.mp hk
    exact ⟨k, v, hv, rfl⟩
  · rintro ⟨k, v, hv, rfl⟩
    exact ⟨k, k.mem_all, by rw [entryOf?, hv]; rfl⟩

theorem keysUnique_ofKind (k : Kind) : (ofKind k).toJson.tree.KeysUnique := by
  induction k using Kind.induction with
  | simple t =>
      rw [toJson_ofKind, Json.keysUnique_object_iff]
      exact ⟨by simp, by simpa [Kind.entry] using .text _⟩
  | union ks ih =>
      rw [toJson_ofKind, Json.keysUnique_object_iff]
      refine ⟨by simp, ?_⟩
      simp only [List.mem_singleton, forall_eq, Kind.entry, entries_alternatives]
      exact Json.keysUnique_list_iff.mpr (List.forall_mem_map.mpr ih)

theorem keysUnique_enumItem (item : EnumItem) : item.toJson.tree.KeysUnique := by
  cases item with
  | name s => exact .text _
  | number n => exact .number _

theorem keysUnique_properties {ps : Entries Schema}
    (h : ∀ e ∈ ps, e.2.toJson.tree.KeysUnique) :
    (Json.object (Entries.mapValues toJson ps)).tree.KeysUnique := by
  rw [Json.keysUnique_object_iff]
  constructor
  · show (Entries.names _).Nodup
    rw [Entries.names_toList]
    exact Entries.nodup_keys _
  · rw [Entries.toList_mapValues]
    exact List.forall_mem_map.mpr h

/-- The value of a keyword has objects with equal keys only if one of the nodes below it has. -/
theorem keysUnique_value {s : Schema} {k : Keyword} {v : Json} (hv : s.value? k = some v)
    (hitems : ∀ items ∈ s.items?, items.toJson.tree.KeysUnique)
    (hproperties : ∀ e ∈ s.properties, e.2.toJson.tree.KeysUnique) : v.tree.KeysUnique := by
  cases k with
  | type =>
      rw [value?] at hv
      cases hkind : s.kind <;> simp [hkind] at hv
      exact hv ▸ .text _
  | oneOf =>
      rw [value?] at hv
      cases hkind : s.kind <;> simp [hkind] at hv
      rw [← hv]
      exact Json.keysUnique_list_iff.mpr (List.forall_mem_map.mpr fun k _ => keysUnique_ofKind k)
  | items =>
      obtain ⟨items, hs, rfl⟩ := Option.map_eq_some_iff.mp hv
      exact hitems items hs
  | properties =>
      rw [value?] at hv
      split at hv
      · cases hv
      · exact Option.some.inj hv ▸ keysUnique_properties hproperties
  | additionalProperties =>
      obtain ⟨allow, -, rfl⟩ := Option.map_eq_some_iff.mp hv
      exact .bool allow
  | enum =>
      rw [value?] at hv
      split at hv
      · cases hv
      · rw [← Option.some.inj hv]
        exact Json.keysUnique_list_iff.mpr
          (List.forall_mem_map.mpr fun item _ => keysUnique_enumItem item)

/-- No object in the JSON value of a node has two equal keys. -/
theorem keysUnique_toJson (s : Schema) : s.toJson.tree.KeysUnique := by
  induction s using Schema.induction with
  | step s ihItems ihProperties =>
      rw [toJson, Json.keysUnique_object_iff]
      refine ⟨s.nodup_names_entries, fun e he => ?_⟩
      obtain ⟨k, v, hv, rfl⟩ := mem_entries_iff.mp he
      exact keysUnique_value hv ihItems ihProperties

/-! ### Documents -/

theorem keysUnique_documentJson (s : Schema) : s.documentJson.tree.KeysUnique := by
  have hjson := s.keysUnique_toJson
  rw [toJson, Json.keysUnique_object_iff] at hjson
  have hdialect : (Json.text dialect).tree.KeysUnique := .text _
  rw [documentJson, Json.keysUnique_object_iff, List.map_cons, List.nodup_cons,
    List.forall_mem_cons]
  exact ⟨⟨s.dialect_not_mem_names, hjson.1⟩, hdialect, hjson.2⟩

theorem documentText_injective {s s' : Schema} (h : s.documentText = s'.documentText) : s = s' := by
  have hjson := Json.toText_injective Json.Layout.blank_pretty h
  rw [documentJson, documentJson] at hjson
  apply toJson_injective
  rw [toJson, toJson, (List.cons.inj (Json.object.inj hjson)).2]

/-- The text of a document is a JSON text, and by the grammar it stands for the object with the
dialect in front of the entries of the schema and for nothing else.  The entries of every node are
those of its keywords that are set, in order, and none of them declares a dialect.  No object in the
document has two equal keys.  Different schemas have different documents. -/
theorem isText_documentText (s : Schema) :
    (∀ t, IsText s.documentText.toList t ↔
      t = (Json.object (("$schema", .text dialect) :: s.entries)).tree) ∧
    (∀ node : Schema, node.entries =
      Keyword.all.filterMap fun k => (node.value? k).map fun v => (k.name, v)) ∧
    (∀ node : Schema, "$schema" ∉ Entries.names node.entries) ∧
    (Json.object (("$schema", .text dialect) :: s.entries)).tree.KeysUnique ∧
    ∀ s' : Schema, s'.documentText = s.documentText ↔ s' = s := by
  refine ⟨?_, entries_eq, dialect_not_mem_names, s.keysUnique_documentJson, ?_⟩
  · exact Json.isText_toText_iff Json.Layout.blank_pretty s.documentJson
  · intro s'
    refine ⟨documentText_injective, ?_⟩
    rintro rfl
    rfl

end Schema
end MessageSchema
