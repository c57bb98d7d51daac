import MessageSchema.Proofs.Expansion
import Mathlib.Data.List.Basic

/-! # The schema of a message as an unfolding

A path of property names is followed through a schema from object to object, an array of objects
being entered (`Schema.node?`).  When the fields of each message have different names, the paths
of the schema of a message are the simple walks from the message, read by the names of their
fields, and a field that leads back to a message on its walk stands for a node without properties
(`Context.node?_schemaOf_iff_walk`).

The proofs speak of the schema of a message inside a chain: from a walk that avoids the chain to a
node by induction on the walk (`Context.Walk.node?_expand`), and from a node to a walk by induction
on the path (`Context.exists_walk_of_node?`). -/

namespace MessageSchema

namespace Schema

/-- The node whose properties a path goes on with: the items of an array of objects, and every
other node itself. -/
def entered (s : Schema) : Schema :=
  match s.kind, s.items? with
  | .simple .array, some items => if items.kind.isObject then items else s
  | _, _ => s

/-- The node at the end of a path of property names. -/
def node? (s : Schema) : List String → Option Schema
  | [] => some s
  | name :: rest => (Entries.get? name s.entered.properties).bind (·.node? rest)

/-- The node is an object, or an array of objects, without properties. -/
def IsCut (s : Schema) : Prop :=
  s.properties = ∅ ∧
    ((s.kind = .simple .object ∧ s.items? = none) ∨
      (s.kind = .simple .array ∧ ∃ items, s.items? = some items ∧ items.kind = .simple .object ∧
        items.properties = ∅))

/-- Nodes that are entered alike have the same nodes below them. -/
theorem node?_congr {s s' : Schema} (h : s.entered.properties = s'.entered.properties)
    {names : List String} (hn : names ≠ []) : s.node? names = s'.node? names := by
  cases names with
  | nil => exact absurd rfl hn
  | cons name rest => rw [node?, node?, h]

end Schema

theorem Label.entered_ofExpanded (l : Label) {s : Schema} (h : s.kind = .simple .object) :
    (l.ofExpanded s).entered.properties = s.properties := by
  cases l with
  | optional => rfl
  | required => rfl
  | repeated =>
      rw [ofExpanded, Schema.entered]
      simp [Schema.array, Schema.ofType, Schema.ofKind, Kind.isObject, h]

theorem Field.entered_ofLeaf {owner : Message} {f : Field} {type : FieldType} {s : Schema}
    (h : f.leaf? owner type = some s) (l : Label) : (l.ofLeaf s).entered.properties = ∅ := by
  cases type <;> cases h <;> cases l <;> rfl

namespace Context

theorem entered_cutNode (ctx : Context) (l : Label) : (ctx.cutNode l).entered.properties = ∅ := by
  cases l <;> rfl

theorem isCut_cutNode (ctx : Context) (l : Label) : (ctx.cutNode l).IsCut := by
  cases l with
  | optional => exact ⟨rfl, .inl ⟨rfl, rfl⟩⟩
  | required => exact ⟨rfl, .inl ⟨rfl, rfl⟩⟩
  | repeated => exact ⟨rfl, .inr ⟨rfl, _, rfl, rfl, rfl⟩⟩

/-- Every message that fields lead to from `m` has fields of different names. -/
def NamesDistinct (ctx : Context) (m : Located Message) : Prop :=
  ∀ d, ctx.Reaches m d → (d.item.fields.map Field.name).Nodup

variable {ctx : Context} {chain : List Place} {m t : Located Message} {f : Field} {s : Schema}

theorem NamesDistinct.nodup (h : ctx.NamesDistinct m) : (m.item.fields.map Field.name).Nodup :=
  h m .refl

theorem NamesDistinct.of_field (h : ctx.NamesDistinct m) (hf : f ∈ m.item.fields)
    (ht : ctx.Resolves f t) : ctx.NamesDistinct t :=
  fun d hd => h d (.head ⟨f, hf, ht⟩ hd)

/-- The properties below an expanded message are the schemas of its fields. -/
theorem get?_entered_expand_iff (hs : (ctx.expand chain m).outcome = .ok s)
    (hd : ctx.NamesDistinct m) {name : String} {node : Schema} :
    Entries.get? name s.entered.properties = some node ↔
      ∃ f ∈ m.item.fields, f.name = name ∧ (ctx.fieldIn chain m f).outcome = .ok node := by
  obtain ⟨ps, hps, rfl⟩ := outcome_expand_eq_ok_iff.mp hs
  exact get?_of_outcome_fieldSchemas hps hd.nodup

theorem kind_of_expand (hs : (ctx.expand chain m).outcome = .ok s) : s.kind = .simple .object := by
  obtain ⟨ps, -, rfl⟩ := outcome_expand_eq_ok_iff.mp hs
  rfl

/-- Below a field that opens a message stands what stands below that message. -/
theorem exists_expand_of_opens (ht : ctx.Resolves f t) (hp : t.place ∉ m.place :: chain)
    {node : Schema} (hn : (ctx.fieldIn chain m f).outcome = .ok node) :
    ∃ s, (ctx.expand (m.place :: chain) t).outcome = .ok s ∧
      ∀ names, names ≠ [] → node.node? names = s.node? names := by
  obtain ⟨s, hs, rfl⟩ := exists_ok_of_opens ht hp hn
  refine ⟨s, hs, fun names hne => Schema.node?_congr ?_ hne⟩
  have hkind := kind_of_expand hs
  rw [Label.entered_ofExpanded _ hkind, Schema.entered, hkind]

theorem exists_property (hs : (ctx.expand chain m).outcome = .ok s) (hd : ctx.NamesDistinct m)
    (hf : f ∈ m.item.fields) :
    ∃ node, (ctx.fieldIn chain m f).outcome = .ok node ∧
      Entries.get? f.name s.entered.properties = some node := by
  obtain ⟨ps, hps, -⟩ := outcome_expand_eq_ok_iff.mp hs
  obtain ⟨node, hnode⟩ := exists_ok_of_outcome_fieldSchemas hps f hf
  exact ⟨node, hnode, (get?_entered_expand_iff hs hd).mpr ⟨f, hf, rfl, hnode⟩⟩

theorem isCut_of_resolves (ht : ctx.Resolves f t) (hp : t.place ∈ m.place :: chain) {node : Schema}
    (hn : (ctx.fieldIn chain m f).outcome = .ok node) : node.IsCut := by
  by_cases hl : f.label = .required
  · rw [fieldIn, outcome_fieldSchema_of_fault (.recursive ht hl hp)] at hn
    cases hn
  · rw [fieldIn, outcome_fieldSchema_of_cut ht hp hl] at hn
    obtain rfl := Except.ok.inj hn
    exact isCut_cutNode ctx f.label

/-- There is a node below that of a field only if the field opens a message. -/
theorem exists_opens_of_node? {node below : Schema} {name : String} {rest : List String}
    (hn : (ctx.fieldIn chain m f).outcome = .ok node)
    (hb : node.node? (name :: rest) = some below) :
    ∃ t, ctx.Resolves f t ∧ t.place ∉ m.place :: chain := by
  have hne : node.entered.properties ≠ ∅ := by
    intro he
    rw [Schema.node?, he] at hb
    cases hb
  cases made_of_outcome_fieldIn hn with
  | leaf type s ht hs => exact absurd (Field.entered_ofLeaf hs f.label) hne
  | cut t ht hp hl => exact absurd (entered_cutNode ctx f.label) hne
  | opens t s ht hp hs => exact ⟨t, ht, hp⟩

/-- A simple walk that avoids the chain leads to a node, which has no properties if the last field
leads back to the walk or to the chain. -/
theorem Walk.node?_expand {route : Route} (hw : ctx.Walk m route)
    (hs : (ctx.expand chain m).outcome = .ok s) (hd : ctx.NamesDistinct m)
    (hn : (route.places ++ chain).Nodup) :
    ∃ node, s.node? route.names = some node ∧
      ∀ last t, route.getLast? = some last → ctx.Resolves last.field t →
        t.place ∈ route.places ++ chain → node.IsCut := by
  induction hw generalizing chain s with
  | @last m i f hf =>
      obtain ⟨node, hnode, hget⟩ := exists_property hs hd (List.mem_of_getElem? hf)
      refine ⟨node, ?_, ?_⟩
      · show (Entries.get? f.name s.entered.properties).bind (·.node? []) = some node
        rw [hget]
        rfl
      · intro last t hlast ht hp
        obtain rfl := Option.some.inj hlast
        exact isCut_of_resolves ht hp hnode
  | @step m t i f rest hf ht hw ih =>
      have hperm := Route.places_perm m i f rest chain
      have hn' := hperm.nodup_iff.mpr hn
      have hfield := List.mem_of_getElem? hf
      obtain ⟨first, hfirst, hget⟩ := exists_property hs hd hfield
      obtain ⟨s', hs', hbelow⟩ := exists_expand_of_opens ht (hw.place_not_mem hn') hfirst
      obtain ⟨node, hnode, hcut⟩ := ih hs' (hd.of_field hfield ht) hn'
      refine ⟨node, ?_, ?_⟩
      · show (Entries.get? f.name s.entered.properties).bind (·.node? (Route.names rest)) =
          some node
        rw [hget, Option.bind_some, hbelow _ hw.names_ne_nil]
        exact hnode
      · intro last u hlast hu hp
        rw [List.getLast?_cons_of_ne_nil hw.ne_nil] at hlast
        exact hcut last u hlast hu (hperm.mem_iff.mpr hp)

/-- A path that leads to a node is read off a simple walk that avoids the chain. -/
theorem exists_walk_of_node? {names : List String} (hne : names ≠ [])
    (hs : (ctx.expand chain m).outcome = .ok s) (hd : ctx.NamesDistinct m)
    (hm : (m.place :: chain).Nodup) {node : Schema} (hnode : s.node? names = some node) :
    ∃ route, ctx.Walk m route ∧ (route.places ++ chain).Nodup ∧ route.names = names := by
  induction names generalizing chain m s with
  | nil => exact absurd rfl hne
  | cons name rest ih =>
      obtain ⟨first, hget, hrest⟩ := Option.bind_eq_some_iff.mp hnode
      obtain ⟨f, hf, rfl, hfirst⟩ := (get?_entered_expand_iff hs hd).mp hget
      obtain ⟨i, hi⟩ := List.getElem?_of_mem hf
      cases rest with
      | nil => exact ⟨[⟨m, i, f⟩], .last hi, hm, rfl⟩
      | cons next rest =>
          obtain ⟨t, ht, hp⟩ := exists_opens_of_node? hfirst hrest
          obtain ⟨s', hs', hbelow⟩ := exists_expand_of_opens ht hp hfirst
          have hnames : next :: rest ≠ [] := List.cons_ne_nil _ _
          rw [hbelow _ hnames] at hrest
          obtain ⟨route, hw, hn, hroute⟩ :=
            ih hnames hs' (hd.of_field hf ht) (List.nodup_cons.mpr ⟨hp, hm⟩) hrest
          refine ⟨⟨m, i, f⟩ :: route, .step hi ht hw, ?_, ?_⟩
          · exact (Route.places_perm m i f route chain).nodup_iff.mp hn
          · show f.name :: route.names = _
            rw [hroute]

/-- Where the fields of each message have different names, the paths of the schema of a message
are the simple walks from it, and a last field that leads back to its walk stands for a node
without properties. -/
theorem node?_schemaOf_iff_walk (hs : (ctx.schemaOf m).outcome = .ok s)
    (hd : ∀ d, ctx.Reaches m d → (d.item.fields.map Field.name).Nodup) :
    (∀ name rest, (s.node? (name :: rest)).isSome ↔
      ∃ route, ctx.Walk m route ∧ route.Simple ∧ route.names = name :: rest) ∧
    ∀ route last t, ctx.Walk m route → route.Simple → route.getLast? = some last →
      ctx.Resolves last.field t → t.place ∈ route.places →
        ∃ node, s.node? route.names = some node ∧ node.IsCut := by
  have hnil : ∀ route : Route, route.places ++ [] = route.places := fun _ => List.append_nil _
  constructor
  · intro name rest
    constructor
    · intro h
      obtain ⟨node, hnode⟩ := Option.isSome_iff_exists.mp h
      obtain ⟨route, hw, hn, hroute⟩ :=
        exists_walk_of_node? (List.cons_ne_nil name rest) hs hd (by simp) hnode
      rw [hnil] at hn
      exact ⟨route, hw, hn, hroute⟩
    · rintro ⟨route, hw, hn, hroute⟩
      obtain ⟨node, hnode, -⟩ := hw.node?_expand hs hd ((hnil route).symm ▸ hn)
      rw [← hroute, hnode]
      rfl
  · intro route last t hw hn hlast ht hp
    obtain ⟨node, hnode, hcut⟩ := hw.node?_expand hs hd ((hnil route).symm ▸ hn)
    exact ⟨node, hnode, hcut last t hlast ht ((hnil route).symm ▸ hp)⟩

/-! ### Two messages that refer to each other -/

namespace FolderTypes

/-- Any number of entries. -/
def entries : Field :=
  { name? := some "entries", label? := some 3, type? := some 11, typeName? := some "Entry" }

/-- The folder that an entry stands for. -/
def target : Field :=
  { name? := some "target", label? := some 1, type? := some 11, typeName? := some ".Folder" }

def folder : Located Message := ⟨[0], { name? := some "Folder", fields := [entries] }⟩

def entry : Located Message :=
  ⟨[1], { name? := some "Entry"
          fields := [{ name? := some "name", label? := some 2, type? := some 9 }, target] }⟩

def context : Context where
  registry := (Registry.empty.insert [] folder).insert [] entry
  package := []
  options := {}

/-- The schema of a folder; the folder of an entry is not expanded again. -/
def schema : Schema :=
  context.objectWith
    [("entries", Schema.array (context.objectWith
      [("name", Schema.ofType .text), ("target", Schema.object (some true))]))]

theorem node?_schemaOf_folder :
    (context.schemaOf folder).outcome = .ok schema ∧
      (∀ d, context.Reaches folder d → (d.item.fields.map Field.name).Nodup) ∧
      (∃ route, context.Walk folder route ∧ route.Simple ∧ route.names = ["entries", "target"]) ∧
      (¬ ∃ route, context.Walk folder route ∧ route.Simple ∧
        route.names = ["entries", "target", "entries"]) ∧
      ∃ node, schema.node? ["entries", "target"] = some node ∧ node.IsCut := by
  have hs : (context.schemaOf folder).outcome = .ok schema := by cbv
  have hd : ∀ d, context.Reaches folder d → (d.item.fields.map Field.name).Nodup := by
    intro d h
    have hall : ∀ d ∈ folder :: context.registry.declared,
        (d.item.fields.map Field.name).Nodup := by decide
    exact hall d (List.mem_cons.mpr h.eq_or_mem_declared)
  obtain ⟨hpaths, hcut⟩ := node?_schemaOf_iff_walk hs hd
  have hentry : context.Resolves entries entry := ⟨⟨11, rfl, .inr rfl⟩, by decide⟩
  have hfolder : context.Resolves target folder := ⟨⟨11, rfl, .inr rfl⟩, by decide⟩
  have hwalk : context.Walk folder [⟨folder, 0, entries⟩, ⟨entry, 1, target⟩] :=
    .step rfl hentry (.last rfl)
  refine ⟨hs, hd, (hpaths "entries" ["target"]).mp (by decide), ?_, ?_⟩
  · intro h
    have := (hpaths "entries" ["target", "entries"]).mpr h
    revert this
    decide
  · exact hcut _ _ folder hwalk (by decide) rfl hfolder (by decide)

end FolderTypes

end Context
end MessageSchema
