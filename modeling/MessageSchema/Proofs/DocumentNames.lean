import MessageSchema.Proofs.JobRun
import Mathlib.Data.List.Flatten
import Mathlib.Data.List.Nodup

/-! # The names of documents

A document is named after its type alone, without the package.  Types of one package that have
different names therefore have documents of different names, whichever files declare them, while
types of two packages may share a name and then share the name of their documents.

Main statement: if all top-level types of a job differ in their packages or in their names, the
documents of each package have different names, and so have all documents of the job if and only if
types of the same name among those with documents are of the same package
(`Job.nodup_names_within_package`).  Documents of different packages can have the same name
(`Job.AddressTypes.names_documents_collide`). -/

namespace MessageSchema

theorem Document.nameFor_injective : Function.Injective Document.nameFor := by
  intro s t h
  exact (String.append_left_inj _).mp h

namespace File

/-- The names of the types of a file that have documents: its messages, or its enums if there is no
message. -/
def documentTypes (f : File) : List String :=
  if f.messages = [] then f.enums.map EnumType.name else f.messages.map Message.name

/-- The names of all messages and enums that a file declares at the top level, each with the package
of the file. -/
def qualifiedNames (f : File) : List (String × String) :=
  (f.messages.map Message.name ++ f.enums.map EnumType.name).map (f.package, ·)

/-- The names of the types that have documents, each with the package of the file. -/
def documentKeys (f : File) : List (String × String) := f.documentTypes.map (f.package, ·)

theorem documentNames_eq (f : File) : f.documentNames = f.documentTypes.map Document.nameFor := rfl

theorem documentTypes_eq (f : File) : f.documentTypes = f.documentKeys.map Prod.snd := by
  simp [documentKeys, Function.comp_def]

theorem documentKeys_sublist (f : File) : f.documentKeys.Sublist f.qualifiedNames := by
  refine List.Sublist.map _ ?_
  rw [documentTypes]
  split
  · exact List.sublist_append_right _ _
  · exact List.sublist_append_left _ _

theorem mem_documentKeys {f : File} {package name : String} :
    (package, name) ∈ f.documentKeys ↔ package = f.package ∧ name ∈ f.documentTypes := by
  simp [documentKeys, eq_comm, and_comm]

end File

/-! ### Names of the types of several files -/

section files
variable {files files' : List (Located File)}

theorem nodup_documentKeys (hs : files'.Sublist files)
    (hn : (files.flatMap fun f => f.item.qualifiedNames).Nodup) :
    (files'.flatMap fun f => f.item.documentKeys).Nodup := by
  have hkeys : (files'.flatMap fun f => f.item.documentKeys).Sublist
      (files'.flatMap fun f => f.item.qualifiedNames) :=
    List.Sublist.flatMap_right files' fun f _ => f.item.documentKeys_sublist
  exact hn.sublist (hkeys.trans (hs.flatMap _))

/-- Documents of types that differ in package or name have different names as long as no two
packages have types of the same name. -/
theorem nodup_documentNames_iff (hk : (files.flatMap fun f => f.item.documentKeys).Nodup) :
    (files.flatMap fun f => f.item.documentNames).Nodup ↔
      ∀ f ∈ files, ∀ g ∈ files, ∀ name ∈ f.item.documentTypes, name ∈ g.item.documentTypes →
        f.item.package = g.item.package := by
  have hnames : (files.flatMap fun f => f.item.documentNames) =
      ((files.flatMap fun f => f.item.documentKeys).map Prod.snd).map Document.nameFor := by
    simp only [List.map_flatMap, File.documentNames_eq, File.documentTypes_eq]
  rw [hnames, List.nodup_map_iff Document.nameFor_injective, List.nodup_map_iff_inj_on hk]
  constructor
  · intro h f hf g hg name hname hname'
    have heq := h (f.item.package, name)
      (List.mem_flatMap.mpr ⟨f, hf, File.mem_documentKeys.mpr ⟨rfl, hname⟩⟩) (g.item.package, name)
      (List.mem_flatMap.mpr ⟨g, hg, File.mem_documentKeys.mpr ⟨rfl, hname'⟩⟩) rfl
    exact (Prod.mk.inj heq).1
  · rintro h ⟨package, name⟩ hx ⟨package', name'⟩ hy rfl
    obtain ⟨f, hf, hx⟩ := List.mem_flatMap.mp hx
    obtain ⟨g, hg, hy⟩ := List.mem_flatMap.mp hy
    obtain ⟨rfl, hname⟩ := File.mem_documentKeys.mp hx
    obtain ⟨rfl, hname'⟩ := File.mem_documentKeys.mp hy
    rw [h f hf g hg _ hname hname']

end files

namespace Job

theorem map_name_flatten {r : Registry} {options : Options} {done : List (Located File)}
    {blocks : List (List Document)}
    (h : List.Forall₂ (fun f block => (r.documents options f).outcome = .ok block) done blocks) :
    blocks.flatten.map Document.name = done.flatMap fun f => f.item.documentNames := by
  induction h with
  | nil => rfl
  | cons hf _ ih =>
      rw [List.flatten_cons, List.map_append, List.flatMap_cons, ih,
        Registry.map_name_of_documents hf]

/-- If all top-level types of the files differ in package or name, the documents for the files of
one package have different names.  All documents of the job have different names if and only if
no two packages among the files converted have types of the same name with documents. -/
theorem nodup_names_within_package {job : Job}
    (hn : (job.files.flatMap fun f => f.item.qualifiedNames).Nodup) :
    ∃ done left, job.requested = done ++ left ∧
      (left = [] ∧ job.run.value.failure? = none ∨
        ∃ f later e, left = f :: later ∧ job.run.value.failure? = some ⟨f.item.name, e⟩) ∧
      job.run.value.documents.map Document.name =
        (done.flatMap fun f => f.item.documentNames) ∧
      (∀ package, ((done.filter fun f => f.item.package = package).flatMap
        fun f => f.item.documentNames).Nodup) ∧
      ((job.run.value.documents.map Document.name).Nodup ↔
        ∀ f ∈ done, ∀ g ∈ done, ∀ name ∈ f.item.documentTypes, name ∈ g.item.documentTypes →
          f.item.package = g.item.package) := by
  obtain ⟨done, left, blocks, hrequested, hblocks, hdocs, hstop⟩ :=
    documents_split (.ofHistory job.history) job.options job.requested
  rw [← value_run] at hdocs hstop
  have hnames := map_name_flatten hblocks
  rw [← hdocs] at hnames
  have hdone : done.Sublist job.files := by
    have hprefix : done.Sublist job.requested := hrequested ▸ List.sublist_append_left _ _
    exact hprefix.trans List.filter_sublist
  refine ⟨done, left, hrequested, ?_, hnames, ?_, ?_⟩
  · refine hstop.imp_right ?_
    rintro ⟨f, later, e, hleft, -, hfailure⟩
    exact ⟨f, later, e, hleft, hfailure⟩
  · intro package
    refine (nodup_documentNames_iff
      (nodup_documentKeys (List.filter_sublist.trans hdone) hn)).mpr ?_
    intro f hf g hg _ _ _
    have hf' := (List.mem_filter.mp hf).2
    have hg' := (List.mem_filter.mp hg).2
    rw [decide_eq_true_eq] at hf' hg'
    rw [hf', hg']
  · rw [hnames]
    exact nodup_documentNames_iff (nodup_documentKeys hdone hn)

/-! ### Two packages with types of the same name -/

namespace AddressTypes

def european : File where
  name? := some "eu.proto"
  package? := some "eu"
  messages := [{ name? := some "Address" }, { name? := some "Order" }]

def american : File where
  name? := some "us.proto"
  package? := some "us"
  messages := [{ name? := some "Address" }]

/-- A file without messages in the package of another file. -/
def codes : File where
  name? := some "codes.proto"
  package? := some "eu"
  enums := [{ name? := some "Status" }]

def job : Job := .ofFiles [european, american, codes] ["eu.proto", "us.proto", "codes.proto"] {}

theorem map_name_documents :
    job.run.value.documents.map Document.name =
      ["Address.jsonschema", "Order.jsonschema", "Address.jsonschema", "Status.jsonschema"] := by
  cbv

/-- All types differ in package or name and all files in their names, and yet two documents have the
same name. -/
theorem names_documents_collide :
    (job.files.flatMap fun f => f.item.qualifiedNames).Nodup ∧
      (job.files.map fun f => f.item.name).Nodup ∧
      ¬ (job.run.value.documents.map Document.name).Nodup := by
  refine ⟨by decide, by decide, ?_⟩
  rw [map_name_documents]
  decide

/-- The three documents of the first package have different names. -/
theorem nodup_names_european :
    (job.files.flatMap fun f => f.item.qualifiedNames).Nodup ∧
      ∃ done left, job.requested = done ++ left ∧
        job.run.value.documents.map Document.name =
          (done.flatMap fun f => f.item.documentNames) ∧
        ((done.filter fun f => f.item.package = "eu").flatMap
          fun f => f.item.documentNames).Nodup := by
  have hn : (job.files.flatMap fun f => f.item.qualifiedNames).Nodup := by decide
  obtain ⟨done, left, hrequested, -, hnames, hpackage, -⟩ := nodup_names_within_package hn
  exact ⟨hn, done, left, hrequested, hnames, hpackage "eu"⟩

end AddressTypes

end Job

end MessageSchema
