import MessageSchema.Proofs.Reordering
import Mathlib.Data.List.Pairwise
import Mathlib.Data.List.Perm.Basic
import Mathlib.Logic.Equiv.Basic

/-! # The order of the files of a job

The files of a job stand each at its own index.  Putting them into another order renames the
indices (`Located.exists_renaming`), and if the top-level messages of all files have different
packages or names, the registrations of the job are reordered in the sense of `History.Reorders`.

Main statement: every file makes the same documents or fails with the same error, whatever the
order of the files is; so the job succeeds in every order or in none, and the order of the files
decides only about the order of the blocks of documents (`Job.run_of_perm`). -/

namespace MessageSchema

/-! ### Indices after a permutation -/

namespace Located

variable {α : Type}

theorem renamed_renamed (σ τ : Nat → Nat) (x : Located α) :
    (x.renamed σ).renamed τ = x.renamed (τ ∘ σ) := by
  obtain ⟨place, item⟩ := x
  cases place <;> rfl

theorem map_renamed_enumerate {σ : Nat → Nat} {start : Nat} (h : ∀ i, start ≤ i → σ i = i)
    (l : List α) : (enumerate [] start l).map (renamed σ) = enumerate [] start l := by
  induction l generalizing start with
  | nil => rfl
  | cons a rest ih =>
      rw [enumerate, List.map_cons, ih fun i hi => h i (by omega)]
      congr 1
      show (⟨[σ start], a⟩ : Located α) = ⟨[start], a⟩
      rw [h start (Nat.le_refl _)]

theorem renamed_singleton (σ : Nat → Nat) (i : Nat) (a : α) :
    (⟨[i], a⟩ : Located α).renamed σ = ⟨[σ i], a⟩ := rfl

/-- Items in another order stand at renamed indices. -/
theorem exists_renaming {l l' : List α} (h : l.Perm l') (start : Nat) :
    ∃ σ : Nat → Nat, σ.Injective ∧ (∀ i < start, σ i = i) ∧
      ((enumerate [] start l).map (renamed σ)).Perm (enumerate [] start l') := by
  induction h generalizing start with
  | nil => exact ⟨id, Function.injective_id, fun _ _ => rfl, .nil⟩
  | @cons a rest rest' _ ih =>
      obtain ⟨σ, hσ, hfix, hperm⟩ := ih (start + 1)
      refine ⟨σ, hσ, fun i hi => hfix i (by omega), ?_⟩
      rw [enumerate, enumerate, List.map_cons, List.nil_append, renamed_singleton,
        hfix start (by omega)]
      exact hperm.cons _
  | swap a b rest =>
      refine ⟨Equiv.swap start (start + 1), Equiv.injective _, ?_, ?_⟩
      · intro i hi
        exact Equiv.swap_apply_of_ne_of_ne (by omega) (by omega)
      · have hfix : ∀ i, start + 1 + 1 ≤ i → Equiv.swap start (start + 1) i = i := by
          intro i hi
          exact Equiv.swap_apply_of_ne_of_ne (by omega) (by omega)
        simp only [enumerate, List.nil_append, List.map_cons, renamed_singleton,
          Equiv.swap_apply_left, Equiv.swap_apply_right, map_renamed_enumerate hfix]
        exact .swap _ _ _
  | trans _ _ ih ih' =>
      obtain ⟨σ, hσ, hfix, hperm⟩ := ih start
      obtain ⟨τ, hτ, hfix', hperm'⟩ := ih' start
      refine ⟨τ ∘ σ, hτ.comp hσ, ?_, ?_⟩
      · intro i hi
        rw [Function.comp_apply, hfix i hi, hfix' i hi]
      · have hmap := (hperm.map (renamed τ)).trans hperm'
        rw [List.map_map] at hmap
        simpa only [Function.comp_def, renamed_renamed] using hmap

end Located

/-! ### Jobs for the same files -/

theorem eq_of_mem_flatMap {α β : Type} {l : List α} {g : α → List β} (hn : (l.flatMap g).Nodup)
    {a a' : α} (ha : a ∈ l) (ha' : a' ∈ l) {b : β} (hb : b ∈ g a) (hb' : b ∈ g a') : a = a' := by
  by_contra hne
  have : Std.Symm (Function.onFun List.Disjoint g) := ⟨fun _ _ => List.disjoint_symm⟩
  exact (List.nodup_flatMap.mp hn).2.forall ha ha' hne hb hb'

/-- The packages and names for which a file registers its messages. -/
def File.keys (f : File) : List (PackagePath × String) :=
  f.messages.map fun m => (PackagePath.ofText f.package, m.name)

theorem Located.map_key_registrations (f : Located File) :
    f.registrations.map Registration.key = f.item.keys := by
  rw [registrations, List.map_map, File.keys, ← f.map_item_messages, List.map_map]
  rfl

theorem Located.registrations_renamed {f : Located File} (hf : f.place ≠ []) (σ : Nat → Nat) :
    (f.renamed σ).registrations = History.renamed σ f.registrations := by
  rw [registrations, messages, within_renamed hf, List.map_map, History.renamed, registrations,
    List.map_map]
  rfl

namespace Job

/-- What a job makes of a file. -/
def outcome (job : Job) (f : Located File) : Except ConversionError (List Document) :=
  (job.registry.value.documents job.options f).outcome

section reorders
variable {job job' : Job} {σ : Nat → Nat}

theorem map_key_history (job : Job) :
    job.history.map Registration.key = job.files.flatMap fun f => f.item.keys := by
  rw [history, List.map_flatMap]
  congr 1
  funext f
  exact f.map_key_registrations

theorem renamed_history (σ : Nat → Nat) (hplace : ∀ f ∈ job.files, f.place ≠ []) :
    job.history.renamed σ =
      (job.files.map (Located.renamed σ)).flatMap Located.registrations := by
  rw [history, History.renamed, List.map_flatMap, List.flatMap_map]
  apply List.flatMap_congr
  intro f hf
  exact (Located.registrations_renamed (hplace f hf) σ).symm

/-- `job'` is `job` with its files in any order and at renamed places. -/
structure Reorders (σ : Nat → Nat) (job job' : Job) : Prop where
  files : (job.files.map (Located.renamed σ)).Perm job'.files
  targets : job'.targets = job.targets
  options : job'.options = job.options
  place : ∀ f ∈ job.files, f.place ≠ []
  history : job.history.Reorders σ job'.history

/-- The same files in another order. -/
theorem exists_reorders {files files' : List File} (hp : files.Perm files')
    (hn : (files.flatMap File.keys).Nodup) (targets : List String) (options : Options) :
    ∃ σ, Reorders σ (ofFiles files targets options) (ofFiles files' targets options) := by
  obtain ⟨σ, hσ, -, hfiles⟩ := Located.exists_renaming hp 0
  have hplace : ∀ f ∈ (ofFiles files targets options).files, f.place ≠ [] :=
    fun f hf => Located.place_ne_nil_of_mem_enumerate hf
  refine ⟨σ, hfiles, rfl, rfl, hplace, hσ, ?_, ?_, ?_⟩
  · rw [renamed_history σ hplace]
    exact hfiles.flatMap_right _
  · rw [map_key_history, ← List.flatMap_map Located.item File.keys]
    show (((Located.enumerate [] 0 files).map Located.item).flatMap File.keys).Nodup
    rwa [Located.map_item_enumerate]
  · intro e he
    obtain ⟨f, hf, he⟩ := List.mem_flatMap.mp he
    obtain ⟨m, hm, rfl⟩ := List.mem_map.mp he
    exact Located.place_ne_nil_of_mem_enumerate hm

/-! ### The documents of each file -/

namespace Reorders

theorem outcome_renamed (h : Reorders σ job job') {f : Located File} (hf : f ∈ job.files) :
    job'.outcome (f.renamed σ) = job.outcome f := by
  rw [outcome, outcome, value_registry, value_registry, h.options]
  exact h.history.outcome_documents job.options (h.place f hf)

/-- A file with messages is known by what it declares. -/
theorem eq_of_item_eq (h : Reorders σ job job') {f g : Located File} (hf : f ∈ job.files)
    (hg : g ∈ job.files) (hm : f.item.messages ≠ []) (hitem : g.item = f.item) : g = f := by
  have hkeys := h.history.keys
  rw [map_key_history] at hkeys
  obtain ⟨m, hmem⟩ := List.exists_mem_of_ne_nil _ hm
  have hkey : (PackagePath.ofText f.item.package, m.name) ∈ f.item.keys :=
    List.mem_map.mpr ⟨m, hmem, rfl⟩
  exact eq_of_mem_flatMap hkeys hg hf (hitem ▸ hkey) hkey

theorem outcome_eq (h : Reorders σ job job') {f f' : Located File} (hf : f ∈ job.files)
    (hf' : f' ∈ job'.files) (hitem : f'.item = f.item) : job'.outcome f' = job.outcome f := by
  obtain ⟨g, hg, rfl⟩ := List.mem_map.mp (h.files.mem_iff.mpr hf')
  by_cases hm : f.item.messages = []
  · -- equal files without messages can stand anywhere, their documents are those of their enums
    rw [outcome, outcome, Registry.outcome_documents, Registry.outcome_documents, hitem, if_pos hm,
      if_pos hm]
  · obtain rfl := h.eq_of_item_eq hf hg hm hitem
    exact h.outcome_renamed hg

theorem map_outcome_perm (h : Reorders σ job job') :
    (job'.requested.map job'.outcome).Perm (job.requested.map job.outcome) := by
  have hrequested := h.files.filter fun f => f.item.name ∈ job.targets
  rw [List.filter_map] at hrequested
  have hmap := hrequested.map job'.outcome
  have houtcome : job.requested.map (job'.outcome ∘ Located.renamed σ) =
      job.requested.map job.outcome := by
    apply List.map_congr_left
    intro f hf
    exact h.outcome_renamed (List.mem_of_mem_filter hf)
  rw [List.map_map] at hmap
  rw [requested, h.targets, ← houtcome]
  exact hmap.symm

end Reorders

/-! ### The whole output -/

/-- A job fails if some requested file does, and otherwise it returns the documents of all of
them. -/
theorem exists_blocks (job : Job) :
    (∃ blocks : List (List Document), job.requested.map job.outcome = blocks.map .ok ∧
      job.run.value.documents = blocks.flatten ∧ job.run.value.failure? = none) ∨
    ∃ e, .error e ∈ job.requested.map job.outcome ∧ job.run.value.failure? ≠ none := by
  obtain ⟨done, left, blocks, hfiles, hblocks, hdocs, hstop⟩ :=
    documents_split job.registry.value job.options job.requested
  rw [value_run, ← value_registry, hdocs]
  rcases hstop with ⟨rfl, hnone⟩ | ⟨f, later, e, rfl, he, hsome⟩
  · left
    rw [List.append_nil] at hfiles
    have hmap : List.Forall₂ Eq (done.map job.outcome) (blocks.map .ok) := by
      rw [List.forall₂_map_left_iff, List.forall₂_map_right_iff]
      exact hblocks
    rw [List.forall₂_eq_eq_eq] at hmap
    exact ⟨blocks, hfiles ▸ hmap, rfl, hnone⟩
  · right
    refine ⟨e, ?_, ?_⟩
    · rw [hfiles]
      exact List.mem_map.mpr ⟨f, by simp, he⟩
    · rw [hsome]
      exact Option.some_ne_none _

theorem failure?_eq_none_iff (job : Job) :
    job.run.value.failure? = none ↔ ∀ e, .error e ∉ job.requested.map job.outcome := by
  rcases job.exists_blocks with ⟨blocks, hmap, -, hnone⟩ | ⟨e, he, hsome⟩
  · refine iff_of_true hnone ?_
    intro e he
    rw [hmap] at he
    obtain ⟨_, _, he⟩ := List.mem_map.mp he
    cases he
  · exact iff_of_false hsome fun h => h e he

theorem Reorders.failure?_iff (h : Reorders σ job job') :
    job'.run.value.failure? = none ↔ job.run.value.failure? = none := by
  rw [failure?_eq_none_iff, failure?_eq_none_iff]
  simp only [h.map_outcome_perm.mem_iff]

theorem Reorders.exists_blocks_perm (h : Reorders σ job job')
    (hnone : job.run.value.failure? = none) :
    ∃ blocks blocks' : List (List Document), blocks'.Perm blocks ∧
      job.requested.map job.outcome = blocks.map .ok ∧
      job'.requested.map job'.outcome = blocks'.map .ok ∧
      job.run.value.documents = blocks.flatten ∧ job'.run.value.documents = blocks'.flatten := by
  rcases job.exists_blocks with ⟨blocks, hmap, hdocs, -⟩ | ⟨-, -, hsome⟩
  · rcases job'.exists_blocks with ⟨blocks', hmap', hdocs', -⟩ | ⟨-, -, hsome'⟩
    · refine ⟨blocks, blocks', ?_, hmap, hmap', hdocs, hdocs'⟩
      have hperm := h.map_outcome_perm
      rw [hmap, hmap', List.map_perm_map_iff fun _ _ => Except.ok.inj] at hperm
      exact hperm
    · exact absurd (h.failure?_iff.mpr hnone) hsome'
  · exact absurd hnone hsome

/-- If all top-level messages have different packages or names, the order of the files makes no
difference to what the job makes of each file, and so none to its success; and a successful job
returns the same blocks of documents, one for each requested file, in the order of the files. -/
theorem run_of_perm {files files' : List File} (hp : files.Perm files')
    (hn : (files.flatMap File.keys).Nodup) (targets : List String) (options : Options) :
    let job := ofFiles files targets options
    let job' := ofFiles files' targets options
    (∀ f ∈ job.files, ∀ f' ∈ job'.files, f'.item = f.item → job'.outcome f' = job.outcome f) ∧
    (job'.run.value.failure? = none ↔ job.run.value.failure? = none) ∧
    (job.run.value.failure? = none → ∃ blocks blocks' : List (List Document), blocks'.Perm blocks ∧
      job.requested.map job.outcome = blocks.map .ok ∧
      job'.requested.map job'.outcome = blocks'.map .ok ∧
      job.run.value.documents = blocks.flatten ∧ job'.run.value.documents = blocks'.flatten) := by
  intro job job'
  obtain ⟨σ, h⟩ := exists_reorders hp hn targets options
  exact ⟨fun f hf f' hf' hitem => h.outcome_eq hf hf' hitem, h.failure?_iff, h.exists_blocks_perm⟩

end reorders

/-! ### Two files that refer to each other -/

namespace BookTypes

/-- A book names its author, in the other file. -/
def book : Message where
  name? := some "Book"
  fields := [{ name? := some "author", type? := some 11, typeName? := some ".people.Author" }]

/-- An author has books. -/
def author : Message where
  name? := some "Author"
  fields := [{ name? := some "books", label? := some 3, type? := some 11
               typeName? := some ".shelf.Book" }]

def books : File where
  name? := some "book.proto"
  package? := some "shelf"
  messages := [book]

def authors : File where
  name? := some "author.proto"
  package? := some "people"
  messages := [author]

def job : Job := ofFiles [books, authors] ["author.proto", "book.proto"] {}

/-- The same job with the files the other way round. -/
def swapped : Job := ofFiles [authors, books] ["author.proto", "book.proto"] {}

/-- An object with one property. -/
def objectOf (name : String) (s : Schema) : Schema :=
  { Schema.object (some true) with properties := [(name, s)] }

/-- The author of a book has books that are not expanded again. -/
def bookSchema : Schema := objectOf "author" (objectOf "books" (.array (.object (some true))))

/-- The books of an author have an author that is not expanded again. -/
def authorSchema : Schema := objectOf "books" (.array (objectOf "author" (.object (some true))))

theorem outcome_books : job.outcome ⟨[0], books⟩ = .ok [.ofSchema "Book" bookSchema] := by
  have hp : job.registry.value.package? books.package = some ["shelf"] := by decide
  have hs : ((Context.mk job.registry.value ["shelf"] {}).schemaOf ⟨[0, 0], book⟩).outcome =
      .ok bookSchema := by
    cbv
  have hmessages : Located.messages ⟨[0], books⟩ = [⟨[0, 0], book⟩] := rfl
  rw [outcome, Registry.outcome_documents_of_package? (List.cons_ne_nil _ _) hp, hmessages,
    documentsBy_cons]
  exact hs ▸ rfl

theorem outcome_authors : job.outcome ⟨[1], authors⟩ = .ok [.ofSchema "Author" authorSchema] := by
  have hp : job.registry.value.package? authors.package = some ["people"] := by decide
  have hs : ((Context.mk job.registry.value ["people"] {}).schemaOf ⟨[1, 0], author⟩).outcome =
      .ok authorSchema := by
    cbv
  have hmessages : Located.messages ⟨[1], authors⟩ = [⟨[1, 0], author⟩] := rfl
  rw [outcome, Registry.outcome_documents_of_package? (List.cons_ne_nil _ _) hp, hmessages,
    documentsBy_cons]
  exact hs ▸ rfl

theorem failure?_job : job.run.value.failure? = none := by
  have hrequested : job.requested = [⟨[0], books⟩, ⟨[1], authors⟩] := rfl
  rw [failure?_eq_none_iff, hrequested, List.map_cons, List.map_cons, outcome_books,
    outcome_authors]
  simp

/-- Both jobs succeed, and each file makes the same documents in both. -/
theorem run_swapped :
    job.run.value.failure? = none ∧ swapped.run.value.failure? = none ∧
      swapped.outcome ⟨[1], books⟩ = .ok [.ofSchema "Book" bookSchema] ∧
      swapped.outcome ⟨[0], authors⟩ = .ok [.ofSchema "Author" authorSchema] ∧
      ∃ blocks blocks' : List (List Document), blocks'.Perm blocks ∧
        job.run.value.documents = blocks.flatten ∧
        swapped.run.value.documents = blocks'.flatten := by
  have hn : ([books, authors].flatMap File.keys).Nodup := by decide
  obtain ⟨houtcome, hfailure, hblocks⟩ :=
    run_of_perm (.swap authors books []) hn ["author.proto", "book.proto"] {}
  have hbooks : swapped.outcome ⟨[1], books⟩ = job.outcome ⟨[0], books⟩ :=
    houtcome _ (.head _) _ (.tail _ (.head _)) rfl
  have hauthors : swapped.outcome ⟨[0], authors⟩ = job.outcome ⟨[1], authors⟩ :=
    houtcome _ (.tail _ (.head _)) _ (.head _) rfl
  obtain ⟨blocks, blocks', hperm, -, -, hdocs, hdocs'⟩ := hblocks failure?_job
  exact ⟨failure?_job, hfailure.mpr failure?_job, hbooks.trans outcome_books,
    hauthors.trans outcome_authors, blocks, blocks', hperm, hdocs, hdocs'⟩

end BookTypes

end Job

end MessageSchema
