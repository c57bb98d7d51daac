import MessageSchema.Job
import MessageSchema.Proofs.Readings
import Mathlib.Data.List.Forall2

/-! # What a job makes

A job registers the messages of all its files before it converts any of them, so every file sees
the registry of the whole `Job.history`.  The documents of a file are those of its messages, or of
its enums if it has no message, in the order of declaration (`Registry.outcome_documents`).

Main statement: the documents of a job are those of the longest run of requested files that
convert, file after file, and its failure is that of the file at which this run ends
(`Job.run_collects_longest_prefix`). -/

namespace MessageSchema

/-! ### Registrations -/

/-- The registrations of a file: its messages in order under its package. -/
def Located.registrations (f : Located File) : History :=
  f.messages.map fun m => ⟨f.item.package, m⟩

/-- The registrations of a job: those of all its files in order. -/
def Job.history (job : Job) : History := job.files.flatMap Located.registrations

namespace Registry

theorem registerEach_append (r : Registry) (history later : History) :
    (r.registerEach (history ++ later)).value =
      ((r.registerEach history).value.registerEach later).value := by
  induction history generalizing r with
  | nil => rfl
  | cons e history ih => exact ih _

theorem value_registerAll (r : Registry) (package : String) (ms : List (Located Message)) :
    (r.registerAll package ms).value = (r.registerEach (ms.map fun m => ⟨package, m⟩)).value := by
  induction ms generalizing r with
  | nil => rfl
  | cons m rest ih => exact ih _

theorem value_registerFiles (r : Registry) (files : List (Located File)) :
    (r.registerFiles files).value =
      (r.registerEach (files.flatMap Located.registrations)).value := by
  induction files generalizing r with
  | nil => rfl
  | cons f rest ih =>
      rw [List.flatMap_cons, registerEach_append]
      refine (ih _).trans ?_
      rw [value_registerAll]
      rfl

end Registry

theorem Job.value_registry (job : Job) : job.registry.value = .ofHistory job.history :=
  Registry.value_registerFiles ..

theorem Job.mem_history {job : Job} {f : Located File} {m : Located Message} (hf : f ∈ job.files)
    (hm : m ∈ f.messages) : ⟨f.item.package, m⟩ ∈ job.history :=
  List.mem_flatMap.mpr ⟨f, hf, List.mem_map_of_mem hm⟩

/-! ### The documents of one file -/

/-- The names of the documents of a file: one for each message, or for each enum if there is no
message. -/
def File.documentNames (f : File) : List String :=
  (if f.messages = [] then f.enums.map EnumType.name else f.messages.map Message.name).map
    Document.nameFor

theorem Located.map_item_messages (f : Located File) :
    f.messages.map Located.item = f.item.messages :=
  Located.map_item_enumerate ..

theorem Located.messages_eq_nil_iff {f : Located File} :
    f.messages = [] ↔ f.item.messages = [] := by
  rw [← f.map_item_messages, List.map_eq_nil_iff]

theorem Job.exists_registration {job : Job} {f : Located File} (hf : f ∈ job.files)
    (hm : f.item.messages ≠ []) : ∃ e ∈ job.history, e.package = f.item.package := by
  cases h : f.messages with
  | nil => exact absurd (Located.messages_eq_nil_iff.mp h) hm
  | cons m rest => exact ⟨_, Job.mem_history hf (h ▸ List.mem_cons_self), rfl⟩

theorem value_enumDocuments (label : String) (enums : List EnumType) :
    (enumDocuments label enums).value = enums.map fun e => .ofSchema e.name e.toSchema := by
  induction enums with
  | nil => rfl
  | cons e rest ih =>
      rw [List.map_cons, ← ih]
      rfl

/-- The documents of messages whose schemas are `schema`, or the first failure. -/
def documentsBy (schema : Located Message → Except ConversionError Schema)
    (ms : List (Located Message)) : Except ConversionError (List Document) :=
  ms.mapM fun m => Document.ofSchema m.item.name <$> schema m

section documentsBy
variable {schema schema' : Located Message → Except ConversionError Schema}
variable {m : Located Message} {ms rest : List (Located Message)} {block : List Document}
variable {e : ConversionError}

theorem documentsBy_cons (schema : Located Message → Except ConversionError Schema)
    (m : Located Message) (rest : List (Located Message)) :
    documentsBy schema (m :: rest) =
      schema m >>= fun s =>
        (Document.ofSchema m.item.name s :: ·) <$> documentsBy schema rest := by
  rw [documentsBy, List.mapM_cons]
  cases schema m <;> rfl

theorem documentsBy_cons_eq_ok_iff :
    documentsBy schema (m :: rest) = .ok block ↔
      ∃ s others, schema m = .ok s ∧ documentsBy schema rest = .ok others ∧
        block = .ofSchema m.item.name s :: others := by
  rw [documentsBy_cons]
  cases schema m <;> cases documentsBy schema rest <;>
    simp [bind, Except.bind, Functor.map, Except.map, eq_comm]

theorem documentsBy_cons_eq_error_iff :
    documentsBy schema (m :: rest) = .error e ↔
      schema m = .error e ∨ ∃ s, schema m = .ok s ∧ documentsBy schema rest = .error e := by
  rw [documentsBy_cons]
  cases schema m <;> cases documentsBy schema rest <;>
    simp [bind, Except.bind, Functor.map, Except.map]

theorem documentsBy_congr (h : ∀ m ∈ ms, schema m = schema' m) :
    documentsBy schema ms = documentsBy schema' ms := by
  induction ms with
  | nil => rfl
  | cons m rest ih =>
      rw [documentsBy_cons, documentsBy_cons, h m List.mem_cons_self,
        ih fun m' hm' => h m' (List.mem_cons_of_mem _ hm')]

/-- Documents are made of the schemas of their messages. -/
theorem forall₂_of_documentsBy (h : documentsBy schema ms = .ok block) :
    List.Forall₂ (fun m d => ∃ s, schema m = .ok s ∧ d = .ofSchema m.item.name s) ms block := by
  induction ms generalizing block with
  | nil =>
      obtain rfl := Except.ok.inj h
      exact .nil
  | cons m rest ih =>
      obtain ⟨s, others, hs, hothers, rfl⟩ := documentsBy_cons_eq_ok_iff.mp h
      exact .cons ⟨s, hs, rfl⟩ (ih hothers)

theorem exists_ok_of_documentsBy (h : documentsBy schema ms = .ok block) :
    ∀ m ∈ ms, ∃ s, schema m = .ok s := by
  intro m hm
  obtain ⟨i, hi, rfl⟩ := List.getElem_of_mem hm
  have hforall := forall₂_of_documentsBy h
  obtain ⟨s, hs, -⟩ := hforall.get hi (hforall.length_eq ▸ hi)
  exact ⟨s, hs⟩

/-- Documents fail at a message such that the messages before it do not. -/
theorem exists_split_of_documentsBy (h : documentsBy schema ms = .error e) :
    ∃ converted m rest, ms = converted ++ m :: rest ∧
      (∀ c ∈ converted, ∃ s, schema c = .ok s) ∧ schema m = .error e := by
  induction ms with
  | nil => cases h
  | cons m rest ih =>
      rcases documentsBy_cons_eq_error_iff.mp h with hm | ⟨s, hs, hrest⟩
      · exact ⟨[], m, rest, rfl, fun c hc => absurd hc List.not_mem_nil, hm⟩
      · obtain ⟨converted, m', later, rfl, hconverted, hm'⟩ := ih hrest
        refine ⟨m :: converted, m', later, rfl, ?_, hm'⟩
        intro c hc
        rcases List.mem_cons.mp hc with rfl | hc
        · exact ⟨s, hs⟩
        · exact hconverted c hc

theorem exists_error_of_documentsBy (h : documentsBy schema ms = .error e) :
    ∃ m ∈ ms, schema m = .error e := by
  obtain ⟨converted, m, rest, rfl, -, hm⟩ := exists_split_of_documentsBy h
  exact ⟨m, List.mem_append_right _ List.mem_cons_self, hm⟩

theorem map_name_of_documentsBy (h : documentsBy schema ms = .ok block) :
    block.map Document.name = ms.map fun m => Document.nameFor m.item.name := by
  have hforall := forall₂_of_documentsBy h
  clear h
  induction hforall with
  | nil => rfl
  | cons hd _ ih =>
      obtain ⟨s, -, rfl⟩ := hd
      rw [List.map_cons, List.map_cons, ih]
      rfl

end documentsBy

theorem Context.outcome_messageDocuments (ctx : Context) (label : String)
    (ms : List (Located Message)) :
    (ctx.messageDocuments label ms).outcome =
      documentsBy (fun m => (ctx.schemaOf m).outcome) ms := by
  induction ms with
  | nil => rfl
  | cons m rest ih =>
      rw [messageDocuments, documentsBy_cons, ← ih, Conversion.outcome_bind,
        Conversion.outcome_lift]
      refine (Conversion.outcome_bind _ _).trans ?_
      congr 1
      funext s
      exact Conversion.outcome_bind _ _

namespace Registry

variable {r : Registry} {options : Options} {f : Located File}

/-- A file without messages makes the documents of its enums, any other file those of its messages
as they are seen in the package that its package text names. -/
theorem outcome_documents (r : Registry) (options : Options) (f : Located File) :
    (r.documents options f).outcome =
      if f.item.messages = [] then .ok (f.item.enums.map fun e => .ofSchema e.name e.toSchema)
      else match r.package? f.item.package with
        | none => .error (.packageNotFound f.item.package)
        | some package =>
            documentsBy (fun m => ((Context.mk r package options).schemaOf m).outcome)
              f.messages := by
  rw [documents, Conversion.outcome_bind, Conversion.outcome_lift]
  refine (Conversion.outcome_bind _ _).trans ?_
  rw [Conversion.outcome_lift]
  cases hm : f.messages with
  | nil =>
      rw [if_pos (Located.messages_eq_nil_iff.mp hm)]
      exact congrArg Except.ok (value_enumDocuments ..)
  | cons m rest =>
      have hne : f.item.messages ≠ [] := by
        rw [Ne, ← Located.messages_eq_nil_iff, hm]
        exact List.cons_ne_nil _ _
      rw [if_neg hne]
      cases r.package? f.item.package with
      | none => rfl
      | some package => exact Context.outcome_messageDocuments ..

theorem outcome_documents_of_package? (hm : f.item.messages ≠ []) {package : PackagePath}
    (hp : r.package? f.item.package = some package) :
    (r.documents options f).outcome =
      documentsBy (fun m => ((Context.mk r package options).schemaOf m).outcome) f.messages := by
  rw [outcome_documents, if_neg hm, hp]

theorem map_name_of_documents {block : List Document}
    (h : (r.documents options f).outcome = .ok block) :
    block.map Document.name = f.item.documentNames := by
  rw [outcome_documents] at h
  split at h
  next hm =>
    obtain rfl := Except.ok.inj h
    simp [File.documentNames, hm, Document.ofSchema, Function.comp_def]
  next hm =>
    split at h
    · cases h
    · rw [map_name_of_documentsBy h, File.documentNames, if_neg hm, ← f.map_item_messages]
      simp [Function.comp_def]

end Registry

/-! ### The run over the requested files -/

namespace Job

theorem value_documents_cons (r : Registry) (options : Options) (f : Located File)
    (rest : List (Located File)) :
    (documents r options (f :: rest)).value =
      match (r.documents options f).outcome with
      | .error cause => { failure? := some ⟨f.item.name, cause⟩ }
      | .ok block =>
          let output := (documents r options rest).value
          { output with documents := block ++ output.documents } := by
  rw [documents, Conversion.outcome]
  simp only [Logged.value_bind]
  cases (r.documents options f).run.value with
  | error cause => rfl
  | ok block => rfl

/-- A run makes the documents of the files before the first one that fails. -/
theorem documents_split (r : Registry) (options : Options) (files : List (Located File)) :
    ∃ done left blocks,
      files = done ++ left ∧
      List.Forall₂ (fun f block => (r.documents options f).outcome = .ok block) done blocks ∧
      (documents r options files).value.documents = blocks.flatten ∧
      (left = [] ∧ (documents r options files).value.failure? = none ∨
        ∃ f later e, left = f :: later ∧ (r.documents options f).outcome = .error e ∧
          (documents r options files).value.failure? = some ⟨f.item.name, e⟩) := by
  induction files with
  | nil => exact ⟨[], [], [], rfl, .nil, rfl, .inl ⟨rfl, rfl⟩⟩
  | cons f rest ih =>
      rw [value_documents_cons]
      cases hf : (r.documents options f).outcome with
      | error e => exact ⟨[], f :: rest, [], rfl, .nil, rfl, .inr ⟨f, rest, e, rfl, hf, rfl⟩⟩
      | ok block =>
          obtain ⟨done, left, blocks, rfl, hblocks, hdocs, hstop⟩ := ih
          refine ⟨f :: done, left, block :: blocks, rfl, .cons hf hblocks, ?_, hstop⟩
          show block ++ _ = _
          rw [hdocs, List.flatten_cons]

theorem value_run (job : Job) :
    job.run.value = (documents (.ofHistory job.history) job.options job.requested).value := by
  rw [← job.value_registry]
  rfl

/-- Only the names of the given files count among the targets. -/
theorem requested_congr {job : Job} {targets : List String}
    (h : ∀ f ∈ job.files, f.item.name ∈ targets ↔ f.item.name ∈ job.targets) :
    { job with targets }.requested = job.requested := by
  apply List.filter_congr
  intro f hf
  exact decide_eq_decide.mpr (h f hf)

/-- The documents of a job are those of the requested files before the first one that fails, block
after block, each block in the order of declaration.  All files are converted with the registry of
the whole job, which holds for each package and name the last registration among all files; the
first failure is reported with its file; and of the targets only the names of given files count. -/
theorem run_collects_longest_prefix (job : Job) :
    (∀ path name, (Registry.ofHistory job.history).type? path name =
      job.history.last? path name) ∧
    (∃ done left blocks,
      job.files.filter (fun f => f.item.name ∈ job.targets) = done ++ left ∧
      List.Forall₂ (fun f block =>
        ((Registry.ofHistory job.history).documents job.options f).outcome = .ok block ∧
          block.map Document.name = f.item.documentNames) done blocks ∧
      job.run.value.documents = blocks.flatten ∧
      (left = [] ∧ job.run.value.failure? = none ∨
        ∃ f later e, left = f :: later ∧
          ((Registry.ofHistory job.history).documents job.options f).outcome = .error e ∧
          job.run.value.failure? = some ⟨f.item.name, e⟩ ∧
          job.run.value.failure?.map JobFailure.text =
            some ("Failed to convert " ++ f.item.name ++ ": " ++ e.text))) ∧
    ∀ targets : List String,
      (∀ f ∈ job.files, f.item.name ∈ targets ↔ f.item.name ∈ job.targets) →
        { job with targets }.run = job.run := by
  refine ⟨Registry.type?_ofHistory job.history, ?_, ?_⟩
  · obtain ⟨done, left, blocks, hfiles, hblocks, hdocs, hstop⟩ :=
      documents_split (.ofHistory job.history) job.options job.requested
    rw [value_run]
    refine ⟨done, left, blocks, hfiles, ?_, hdocs, hstop.imp_right ?_⟩
    · exact hblocks.imp fun f block h => ⟨h, Registry.map_name_of_documents h⟩
    · rintro ⟨f, later, e, hleft, he, hfailure⟩
      refine ⟨f, later, e, hleft, he, hfailure, ?_⟩
      rw [hfailure]
      rfl
  · intro targets h
    have hrequested := requested_congr h
    rw [run, run, hrequested]
    rfl

end Job

end MessageSchema
