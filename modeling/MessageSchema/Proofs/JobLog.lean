import MessageSchema.Proofs.Cycles
import MessageSchema.Proofs.FileLog
import MessageSchema.Proofs.PackageTexts

/-! # The log of a job

A job reports the registration of every message and then, file after file, the documents that it
begins.  Since documents are announced before they are made, a job that fails announces more
documents than it returns (`Registry.FailsAfter`).

Main statements: the registrations come first, and what is announced are the returned documents and
the ones begun in the file that failed (`Job.log_agrees_with_documents`); errors are reported by
what fails and by nothing else, outward from the field where the failure arises to the file, whose
report is the end of the log (`Job.reports_failures_outward`). -/

namespace MessageSchema

/-! ### Registrations -/

theorem Event.shown_typeRegistered (message : String) (package : PackagePath) :
    (Event.typeRegistered message package).shown = (.debug, "registered message type",
      [("message", .quoted message), ("package", .quoted package.name)]) := rfl

namespace Registry

theorem events_registerAll (r : Registry) (package : String) (ms : List (Located Message)) :
    (r.registerAll package ms).events =
      ms.map fun m => .typeRegistered m.item.name (PackagePath.ofText package) := by
  induction ms generalizing r with
  | nil => rfl
  | cons m rest ih =>
      rw [registerAll, Logged.events_bind, ih]
      rfl

theorem events_registerFiles (r : Registry) (files : List (Located File)) :
    (r.registerFiles files).events = files.flatMap fun f =>
      f.item.messages.map fun m => .typeRegistered m.name (PackagePath.ofText f.item.package) := by
  induction files generalizing r with
  | nil => rfl
  | cons f rest ih =>
      rw [registerFiles, Logged.events_bind, ih, events_registerAll, List.flatMap_cons,
        ← f.map_item_messages, List.map_map]
      rfl

end Registry

/-! ### The run over the requested files -/

namespace Job

variable {r : Registry} {options : Options}

/-- What is emitted for the documents of a file. -/
def fileLog (r : Registry) (options : Options) (f : Located File) : List Event :=
  .fileStarted f.item.name :: (r.documents options f).events

theorem outputs_fileLog (r : Registry) (options : Options) (f : Located File) :
    Event.outputs (fileLog r options f) = Event.outputs (r.documents options f).events :=
  Event.outputs_append [.fileStarted f.item.name] _

theorem events_documents_cons (r : Registry) (options : Options) (f : Located File)
    (rest : List (Located File)) :
    (documents r options (f :: rest)).events = fileLog r options f ++
      (match (r.documents options f).outcome with
      | .error cause => [.fileFailed cause f.item.name]
      | .ok _ => (documents r options rest).events) := by
  rw [documents, Conversion.outcome, fileLog, Conversion.events]
  simp only [Logged.events_bind, Logged.events_emit, List.cons_append]
  cases (r.documents options f).run.value with
  | error cause => rfl
  | ok block => simp

/-- Files that convert emit their logs one after the other, and leave the end of the log to the
files after them. -/
theorem events_documents_append {done : List (Located File)} {blocks : List (List Document)}
    (h : List.Forall₂ (fun f block => (r.documents options f).outcome = .ok block) done blocks)
    (left : List (Located File)) :
    (documents r options (done ++ left)).events =
      done.flatMap (fileLog r options) ++ (documents r options left).events := by
  induction h with
  | nil => rfl
  | cons hf _ ih =>
      rw [List.cons_append, events_documents_cons, hf, ih, List.flatMap_cons, List.append_assoc]

theorem not_ofRegistration_of_documents (r : Registry) (options : Options)
    (files : List (Located File)) :
    ∀ event ∈ (documents r options files).events, ¬ event.OfRegistration := by
  induction files with
  | nil => exact fun event hevent => absurd hevent List.not_mem_nil
  | cons f rest ih =>
      intro event hevent
      rw [events_documents_cons] at hevent
      rcases List.mem_append.mp hevent with hevent | hevent
      · rcases List.mem_cons.mp hevent with rfl | hevent
        · exact id
        · exact Registry.not_ofRegistration_of_documents r options f event hevent
      · split at hevent
        · obtain rfl := List.mem_singleton.mp hevent
          exact id
        · exact ih event hevent

theorem outputs_flatMap_fileLog {done : List (Located File)} {blocks : List (List Document)}
    (h : List.Forall₂ (fun f block => (r.documents options f).outcome = .ok block) done blocks) :
    Event.outputs (done.flatMap (fileLog r options)) =
      blocks.flatten.map fun d => some (.bare d.name) := by
  induction h with
  | nil => rfl
  | cons hf _ ih =>
      rw [List.flatMap_cons, List.flatten_cons, Event.outputs_append, List.map_append, ih,
        outputs_fileLog, Registry.outputs_documents hf]

theorem level_ne_error_of_fileLogs {done : List (Located File)} {blocks : List (List Document)}
    (h : List.Forall₂ (fun f block => (r.documents options f).outcome = .ok block) done blocks) :
    ∀ event ∈ done.flatMap (fileLog r options), event.level ≠ .error := by
  induction h with
  | nil => exact fun event hevent => absurd hevent List.not_mem_nil
  | cons hf _ ih =>
      intro event hevent
      rw [List.flatMap_cons] at hevent
      rcases List.mem_append.mp hevent with hevent | hevent
      · rcases List.mem_cons.mp hevent with rfl | hevent
        · exact Level.noConfusion
        · exact Registry.level_ne_error_of_documents hf event hevent
      · exact ih event hevent

theorem events_run (job : Job) :
    job.run.events = job.registry.events ++
      (documents (.ofHistory job.history) job.options job.requested).events := by
  rw [run, Logged.events_bind, value_registry]

theorem level_ne_of_registry (job : Job) {l : Level} (hl : l ≠ .debug) :
    ∀ event ∈ job.registry.events, event.level ≠ l := by
  intro event hevent
  rw [registry, Registry.events_registerFiles] at hevent
  obtain ⟨f, -, hevent⟩ := List.mem_flatMap.mp hevent
  obtain ⟨m, -, rfl⟩ := List.mem_map.mp hevent
  exact hl.symm

/-- A job registers, converts the files before the first one that fails, and begins this one. -/
theorem exists_events_run (job : Job) :
    ∃ done left blocks,
      job.requested = done ++ left ∧
      List.Forall₂ (fun f block =>
        ((Registry.ofHistory job.history).documents job.options f).outcome = .ok block)
        done blocks ∧
      job.run.value.documents = blocks.flatten ∧
      (left = [] ∧ job.run.value.failure? = none ∧
        job.run.events = job.registry.events ++
          done.flatMap (fileLog (.ofHistory job.history) job.options) ∨
      ∃ f later e begun, left = f :: later ∧
        (Registry.ofHistory job.history).FailsAfter job.options f e begun ∧
        job.run.value.failure? = some ⟨f.item.name, e⟩ ∧
        job.run.events = job.registry.events ++
          done.flatMap (fileLog (.ofHistory job.history) job.options) ++
          fileLog (.ofHistory job.history) job.options f ++ [.fileFailed e f.item.name]) := by
  obtain ⟨done, left, blocks, hrequested, hblocks, hdocs, hstop⟩ :=
    documents_split (.ofHistory job.history) job.options job.requested
  rw [events_run, value_run]
  refine ⟨done, left, blocks, hrequested, hblocks, hdocs, ?_⟩
  rw [hrequested, events_documents_append hblocks]
  rcases hstop with ⟨rfl, hnone⟩ | ⟨f, later, e, rfl, hf, hsome⟩
  · refine .inl ⟨rfl, ?_, ?_⟩
    · rw [← hrequested, hnone]
    · simp [documents]
  · obtain ⟨begun, hbegun⟩ := Registry.exists_failsAfter hf
    refine .inr ⟨f, later, e, begun, rfl, hbegun, ?_, ?_⟩
    · rw [← hrequested, hsome]
    · rw [events_documents_cons, hf]
      simp only [List.append_assoc]

/-- The log of a job agrees with its documents.  It begins with one report for each message of each
file, in order, by name and by the package text without its leading dots, and no later event has
the text of such a report.  What is announced are the documents that the job returns, in order, and
after them those of the messages of the file that failed, up to the message that failed. -/
theorem log_agrees_with_documents (job : Job) :
    (∃ registered later, job.run.events = registered ++ later ∧
      registered.map Event.shown = (job.files.flatMap fun f => f.item.messages.map fun m =>
        (Level.debug, "registered message type", [("message", Datum.quoted m.name),
          ("package", Datum.quoted (Text.stripLeading '.' f.item.package))])) ∧
      ∀ event ∈ later, event.text ≠ "registered message type") ∧
    ∃ done left blocks,
      job.requested = done ++ left ∧
      List.Forall₂ (fun f block =>
        ((Registry.ofHistory job.history).documents job.options f).outcome = .ok block)
        done blocks ∧
      job.run.value.documents = blocks.flatten ∧
      (left = [] ∧ job.run.value.failure? = none ∧
        Event.outputs job.run.events = job.run.value.documents.map (fun d => some (.bare d.name)) ∨
      ∃ f later e begun, left = f :: later ∧
        job.run.value.failure? = some ⟨f.item.name, e⟩ ∧
        (Registry.ofHistory job.history).FailsAfter job.options f e begun ∧
        Event.outputs job.run.events = job.run.value.documents.map (fun d => some (.bare d.name)) ++
          begun.map fun m => some (.bare (Document.nameFor m.item.name))) := by
  have hregistry : Event.outputs job.registry.events = [] :=
    Event.outputs_eq_nil (job.level_ne_of_registry (by decide))
  constructor
  · refine ⟨_, _, job.events_run, ?_, ?_⟩
    · rw [registry, Registry.events_registerFiles, List.map_flatMap]
      simp only [List.map_map, Function.comp_def, Event.shown_typeRegistered,
        PackagePath.name_ofText]
    · intro event hevent
      exact Event.text_ne_of_not_ofRegistration (not_ofRegistration_of_documents _ _ _ event hevent)
  · obtain ⟨done, left, blocks, hrequested, hblocks, hdocs, hstop⟩ := job.exists_events_run
    refine ⟨done, left, blocks, hrequested, hblocks, hdocs, ?_⟩
    rw [hdocs, ← outputs_flatMap_fileLog hblocks]
    rcases hstop with ⟨hleft, hnone, hevents⟩ | ⟨f, later, e, begun, hleft, hbegun, hsome, hevents⟩
    · refine .inl ⟨hleft, hnone, ?_⟩
      rw [hevents, Event.outputs_append, hregistry, List.nil_append]
    · refine .inr ⟨f, later, e, begun, hleft, hsome, hbegun, ?_⟩
      have hlast : Event.outputs [.fileFailed e f.item.name] = [] := rfl
      rw [hevents, Event.outputs_append, Event.outputs_append, Event.outputs_append, hregistry,
        hlast, outputs_fileLog, hbegun.outputs_documents, List.nil_append, List.append_nil]

/-- A job without failure reports no error. -/
theorem level_ne_error_of_run {job : Job} (h : job.run.value.failure? = none) :
    ∀ event ∈ job.run.events, event.level ≠ .error := by
  obtain ⟨done, left, blocks, -, hblocks, -, hstop⟩ := job.exists_events_run
  rcases hstop with ⟨-, -, hevents⟩ | ⟨f, later, e, begun, -, -, hsome, -⟩
  · intro event hevent
    rw [hevents] at hevent
    rcases List.mem_append.mp hevent with hevent | hevent
    · exact job.level_ne_of_registry (by decide) event hevent
    · exact level_ne_error_of_fileLogs hblocks event hevent
  · rw [hsome] at h
    cases h

/-- A job that fails ends its log with what the failing message emits and with the report of its
file, and reports no error before. -/
theorem exists_events_of_failure {job : Job} {file : String} {e : ConversionError}
    (h : job.run.value.failure? = some ⟨file, e⟩) :
    ∃ f ∈ job.requested, f.item.name = file ∧ ∃ before inner,
      job.run.events = before ++ inner ++ [.fileFailed e file] ∧
      (∀ event ∈ before, event.level ≠ .error) ∧
      ((Registry.ofHistory job.history).package? f.item.package = none ∧
          e = .packageNotFound f.item.package ∧ inner = [] ∨
        ∃ package m,
          (Registry.ofHistory job.history).package? f.item.package = some package ∧
          m ∈ f.messages ∧
          ((Context.mk (.ofHistory job.history) package job.options).schemaOf m).outcome =
            .error e ∧
          inner =
            ((Context.mk (.ofHistory job.history) package job.options).schemaOf m).events) := by
  obtain ⟨done, left, blocks, hrequested, hblocks, -, hstop⟩ := job.exists_events_run
  rcases hstop with ⟨-, hnone, -⟩ | ⟨f, later, e', begun, rfl, hbegun, hsome, hevents⟩
  · rw [hnone] at h
    cases h
  · rw [hsome] at h
    obtain ⟨rfl, rfl⟩ := JobFailure.mk.inj (Option.some.inj h)
    obtain ⟨earlier, inner, hdocuments, hearlier, hinner⟩ := hbegun.exists_events_documents
    let logs := done.flatMap (fileLog (.ofHistory job.history) job.options)
    have hf : f ∈ job.requested := by
      rw [hrequested]
      exact List.mem_append_right _ List.mem_cons_self
    refine ⟨f, hf, rfl, job.registry.events ++ logs ++ .fileStarted f.item.name :: earlier, inner,
      ?_, ?_, hinner⟩
    · rw [hevents, fileLog, hdocuments]
      simp only [logs, List.append_assoc, List.cons_append]
    · simp only [List.mem_append, List.mem_cons]
      rintro event ((hevent | hevent) | (rfl | hevent))
      · exact job.level_ne_of_registry (by decide) event hevent
      · exact level_ne_error_of_fileLogs hblocks event hevent
      · exact Level.noConfusion
      · exact hearlier event hevent

/-- Errors are reported by what fails and by nothing else.  A conversion that fails ends its log
with the reports of the fields through which its first flaw is reached, from the innermost field
to that of the top-level message, each with the text of the error.  A job that fails ends its log
with what the failing message emits, if the file has its package, and with one report of the file
that has the same text. -/
theorem reports_failures_outward :
    (∀ (ctx : Context) (m : Located Message) (e : ConversionError),
      (ctx.schemaOf m).outcome = .error e →
        ∃ route before reports, ctx.Flaw m route e ∧
          (∀ route' e', ctx.Flaw m route' e' → route' = route ∨ route.Precedes route') ∧
          (ctx.schemaOf m).events = before ++ reports ∧
          (∀ event ∈ before, event.level ≠ .error) ∧
          reports.map Event.shown = route.reverse.map fun step =>
            (.error, "failed to convert field: " ++ e.text,
              [("field", .quoted step.field.name), ("message", .quoted step.owner.item.name)])) ∧
    (∀ (ctx : Context) (m : Located Message) (s : Schema),
      (ctx.schemaOf m).outcome = .ok s →
        ∀ event ∈ (ctx.schemaOf m).events, event.level ≠ .error) ∧
    ∀ job : Job,
      (job.run.value.failure? = none → ∀ event ∈ job.run.events, event.level ≠ .error) ∧
      ∀ file e, job.run.value.failure? = some ⟨file, e⟩ →
        ∃ f ∈ job.requested, f.item.name = file ∧ ∃ before inner last,
          job.run.events = before ++ inner ++ [last] ∧
          (∀ event ∈ before, event.level ≠ .error) ∧
          last.shown = (.error, "failed to convert file: " ++ e.text, [("file", .quoted file)]) ∧
          ((Registry.ofHistory job.history).package? f.item.package = none ∧
              e = .packageNotFound f.item.package ∧ inner = [] ∨
            ∃ package m,
              (Registry.ofHistory job.history).package? f.item.package = some package ∧
              m ∈ f.messages ∧
              let ctx := Context.mk (.ofHistory job.history) package job.options
              (ctx.schemaOf m).outcome = .error e ∧ inner = (ctx.schemaOf m).events) := by
  refine ⟨?_, ?_, ?_⟩
  · intro ctx m e h
    obtain ⟨route, hflaw, hfirst, before, hevents, hbefore⟩ := Context.exists_traced_of_schemaOf h
    refine ⟨route, before, route.trace e, hflaw, hfirst, hevents, hbefore, ?_⟩
    rw [Route.trace, List.map_map]
    rfl
  · intro ctx m s hs
    exact ctx.level_ne_error_of_expand [] m ⟨s, hs⟩
  · refine fun job => ⟨level_ne_error_of_run, ?_⟩
    intro file e h
    obtain ⟨f, hf, hname, before, inner, hevents, hbefore, hinner⟩ := exists_events_of_failure h
    exact ⟨f, hf, hname, before, inner, .fileFailed e file, hevents, hbefore, rfl, hinner⟩

end Job

/-- A page fails inside its link, whose field is reported first. -/
theorem Context.LinkTypes.reports_page :
    ∃ before reports, (context.schemaOf page).events = before ++ reports ∧
      (∀ event ∈ before, event.level ≠ .error) ∧
      reports = [.fieldFailed (.recursiveType "source" "Link" ".Page") "source" "Link",
        .fieldFailed (.recursiveType "source" "Link" ".Page") "next" "Page"] := by
  obtain ⟨route, before, reports, -, -, hevents, hbefore, hshown⟩ :=
    Job.reports_failures_outward.1 context page (.recursiveType "source" "Link" ".Page") (by cbv)
  have hreports : ∀ event ∈ reports, event.level = .error := by
    intro event hevent
    have hmem := List.mem_map_of_mem (f := Event.shown) hevent
    rw [hshown] at hmem
    obtain ⟨step, -, hstep⟩ := List.mem_map.mp hmem
    exact (congrArg Prod.fst hstep).symm
  have hfilter : (context.schemaOf page).events.filter (·.level = .error) = reports := by
    rw [hevents, List.filter_append, List.filter_eq_nil_iff.mpr (by simpa using hbefore),
      List.nil_append, List.filter_eq_self.mpr (by simpa using hreports)]
  refine ⟨before, reports, hevents, hbefore, ?_⟩
  rw [← hfilter]
  cbv

end MessageSchema
