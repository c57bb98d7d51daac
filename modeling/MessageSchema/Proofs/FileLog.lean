import MessageSchema.Proofs.FailureTrace
import MessageSchema.Proofs.JobRun

/-! # The log of a file

The documents of a file are announced before they are made: each message by one event of level info,
followed by the events of its conversion (`Context.messageLog`), and each enum of a file without
messages by such an event alone.

A file that converts announces its documents (`Registry.outputs_documents`) and reports no error.
A file that fails announces the documents of its messages up to the one that fails, and ends its log
with what that message emits (`Registry.FailsAfter`). -/

namespace MessageSchema

theorem Text.append_ne_of_not_prefix {s u : String} (t : String) (h : ¬ s.toList <+: u.toList) :
    s ++ t ≠ u := by
  rintro rfl
  rw [String.toList_append] at h
  exact h (List.prefix_append ..)

namespace Event

/-- The data `output` of the events of level info. -/
def outputs (events : List Event) : List (Option Datum) :=
  (events.filter (·.level = .info)).map fun e => e.data.lookup "output"

theorem outputs_append (events later : List Event) :
    outputs (events ++ later) = outputs events ++ outputs later := by
  rw [outputs, List.filter_append, List.map_append]
  rfl

theorem outputs_flatMap {α : Type} (l : List α) (g : α → List Event) :
    outputs (l.flatMap g) = l.flatMap fun a => outputs (g a) := by
  induction l with
  | nil => rfl
  | cons a l ih => rw [List.flatMap_cons, List.flatMap_cons, outputs_append, ih]

theorem outputs_eq_nil {events : List Event} (h : ∀ e ∈ events, e.level ≠ .info) :
    outputs events = [] := by
  rw [outputs, List.map_eq_nil_iff, List.filter_eq_nil_iff]
  intro e he
  rw [decide_eq_true_eq]
  exact h e he

theorem OfConversion.level_ne_info {e : Event} (h : e.OfConversion) : e.level ≠ .info := by
  cases e <;> first | exact Level.noConfusion | exact h.elim

/-- The event reports a registration. -/
def OfRegistration : Event → Prop
  | typeRegistered .. => True
  | _ => False

theorem OfConversion.not_ofRegistration {e : Event} (h : e.OfConversion) : ¬ e.OfRegistration := by
  cases e <;> first | exact id | exact h.elim

/-- Only the report of a registration has this text. -/
theorem text_ne_of_not_ofRegistration {e : Event} (h : ¬ e.OfRegistration) :
    e.text ≠ "registered message type" := by
  cases e with
  | typeRegistered => exact (h trivial).elim
  | fieldFailed cause => exact Text.append_ne_of_not_prefix cause.text (by decide)
  | fileFailed cause => exact Text.append_ne_of_not_prefix cause.text (by decide)
  | _ => exact ne_of_beq_false rfl

end Event

/-! ### The documents of one file -/

/-- The reports of how much a file declares. -/
def File.notices (f : File) : List Event :=
  (Logged.emitMany f.messages.length (.manyMessages · f.label)).events ++
    (Logged.emitMany f.enums.length (.manyEnums · f.label)).events

theorem Logged.mem_events_emitMany {count : Nat} {e : Nat → Event} {event : Event}
    (h : event ∈ (emitMany count e).events) : event = e count := by
  rw [emitMany] at h
  split at h
  · exact List.mem_singleton.mp h
  · cases h

theorem File.mem_notices {f : File} {event : Event} (h : event ∈ f.notices) :
    event = .manyMessages f.messages.length f.label ∨
      event = .manyEnums f.enums.length f.label :=
  (List.mem_append.mp h).imp Logged.mem_events_emitMany Logged.mem_events_emitMany

theorem File.outputs_notices (f : File) : Event.outputs f.notices = [] := by
  apply Event.outputs_eq_nil
  intro event hevent
  rcases File.mem_notices hevent with rfl | rfl <;> exact Level.noConfusion

theorem File.level_ne_error_of_notices (f : File) : ∀ event ∈ f.notices, event.level ≠ .error := by
  intro event hevent
  rcases File.mem_notices hevent with rfl | rfl <;> exact Level.noConfusion

theorem events_enumDocuments (label : String) (enums : List EnumType) :
    (enumDocuments label enums).events =
      enums.map fun e => .enumDocument label (Document.nameFor e.name) := by
  induction enums with
  | nil => rfl
  | cons e rest ih =>
      rw [List.map_cons, ← ih, enumDocuments, Logged.events_bind, Logged.events_bind]
      simp

namespace Context

variable {ctx : Context} {label : String} {m : Located Message}
variable {converted : List (Located Message)}

/-- What is emitted for the document of a message. -/
def messageLog (ctx : Context) (label : String) (m : Located Message) : List Event :=
  .messageDocument label (Document.nameFor m.item.name) :: (ctx.schemaOf m).events

theorem events_messageDocuments_cons (ctx : Context) (label : String) (m : Located Message)
    (rest : List (Located Message)) :
    (ctx.messageDocuments label (m :: rest)).events = ctx.messageLog label m ++
      (match (ctx.schemaOf m).outcome with
      | .ok _ => (ctx.messageDocuments label rest).events
      | .error _ => []) := by
  rw [messageDocuments, Conversion.events_bind, Conversion.events_lift, Conversion.outcome_lift]
  simp only [Conversion.events_bind, messageLog, Logged.events_emit,
    List.cons_append]
  cases (ctx.schemaOf m).outcome with
  | error e => rfl
  | ok s => cases (ctx.messageDocuments label rest).outcome <;> simp

/-- Messages that convert emit their logs one after the other, and leave the end of the log to the
messages after them. -/
theorem events_messageDocuments_append (label : String)
    (h : ∀ m ∈ converted, ∃ s, (ctx.schemaOf m).outcome = .ok s) (rest : List (Located Message)) :
    (ctx.messageDocuments label (converted ++ rest)).events =
      converted.flatMap (ctx.messageLog label) ++ (ctx.messageDocuments label rest).events := by
  induction converted with
  | nil => rfl
  | cons m converted ih =>
      obtain ⟨s, hs⟩ := h m List.mem_cons_self
      rw [List.cons_append, events_messageDocuments_cons, hs, List.flatMap_cons, List.append_assoc]
      rw [ih fun c hc => h c (List.mem_cons_of_mem _ hc)]

theorem outputs_messageLog (ctx : Context) (label : String) (m : Located Message) :
    Event.outputs (ctx.messageLog label m) =
      [some (.bare (Document.nameFor m.item.name))] := by
  have hconversion : Event.outputs (ctx.schemaOf m).events = [] :=
    Event.outputs_eq_nil fun e he => (ofConversion_of_mem_events_expand [] m he).level_ne_info
  rw [messageLog, ← List.singleton_append, Event.outputs_append, hconversion]
  rfl

theorem outputs_flatMap_messageLog (ctx : Context) (label : String)
    (ms : List (Located Message)) :
    Event.outputs (ms.flatMap (ctx.messageLog label)) =
      ms.map fun m => some (.bare (Document.nameFor m.item.name)) := by
  simp only [Event.outputs_flatMap, outputs_messageLog, List.map_eq_flatMap]

theorem level_ne_error_of_messageLog (hm : ∃ s, (ctx.schemaOf m).outcome = .ok s) :
    ∀ event ∈ ctx.messageLog label m, event.level ≠ .error := by
  intro event hevent
  rcases List.mem_cons.mp hevent with rfl | hevent
  · exact Level.noConfusion
  · exact level_ne_error_of_expand ctx [] m hm event hevent

theorem not_ofRegistration_of_messageDocuments (ctx : Context) (label : String)
    (ms : List (Located Message)) :
    ∀ event ∈ (ctx.messageDocuments label ms).events, ¬ event.OfRegistration := by
  induction ms with
  | nil => exact fun event hevent => absurd hevent List.not_mem_nil
  | cons m rest ih =>
      intro event hevent
      rw [events_messageDocuments_cons] at hevent
      rcases List.mem_append.mp hevent with hevent | hevent
      · rcases List.mem_cons.mp hevent with rfl | hevent
        · exact id
        · exact (ofConversion_of_mem_events_expand [] m hevent).not_ofRegistration
      · cases hm : (ctx.schemaOf m).outcome with
        | ok s =>
            rw [hm] at hevent
            exact ih event hevent
        | error e =>
            rw [hm] at hevent
            cases hevent

end Context

namespace Registry

variable {r : Registry} {options : Options} {f : Located File}
variable {e : ConversionError} {begun : List (Located Message)}

/-- The documents of a file fail with `e` after those of the messages `begun` were begun. -/
inductive FailsAfter (r : Registry) (options : Options) (f : Located File) :
    ConversionError → List (Located Message) → Prop
  /-- The package of the file is not found. -/
  | package (hm : f.messages ≠ []) (hp : r.package? f.item.package = none) :
      FailsAfter r options f (.packageNotFound f.item.package) []
  /-- The messages `converted` convert, and the next one fails. -/
  | message (package : PackagePath) (converted rest : List (Located Message)) (m : Located Message)
      (e : ConversionError) (hp : r.package? f.item.package = some package)
      (hmessages : f.messages = converted ++ m :: rest)
      (hconverted : ∀ c ∈ converted,
        ∃ s, ((Context.mk r package options).schemaOf c).outcome = .ok s)
      (hm : ((Context.mk r package options).schemaOf m).outcome = .error e) :
      FailsAfter r options f e (converted ++ [m])

theorem events_documents (r : Registry) (options : Options) (f : Located File) :
    (r.documents options f).events = f.item.notices ++
      (if f.item.messages = [] then
        f.item.enums.map fun e => .enumDocument f.item.label (Document.nameFor e.name)
      else match r.package? f.item.package with
        | none => []
        | some package =>
            ((Context.mk r package options).messageDocuments f.item.label f.messages).events) := by
  rw [documents, File.notices, Conversion.events_bind, Conversion.events_lift,
    Conversion.outcome_lift, List.append_assoc]
  simp only [Conversion.events_bind, Conversion.events_lift, Conversion.outcome_lift]
  congr 2
  cases hm : f.messages with
  | nil =>
      rw [if_pos (Located.messages_eq_nil_iff.mp hm), Conversion.events_lift, events_enumDocuments]
  | cons m rest =>
      have hne : f.item.messages ≠ [] := by
        rw [Ne, ← Located.messages_eq_nil_iff, hm]
        exact List.cons_ne_nil _ _
      rw [if_neg hne]
      cases r.package? f.item.package with
      | none => rfl
      | some package => rfl

theorem events_documents_of_package? (hm : f.messages ≠ []) {package : PackagePath}
    (hp : r.package? f.item.package = some package) :
    (r.documents options f).events = f.item.notices ++
      ((Context.mk r package options).messageDocuments f.item.label f.messages).events := by
  rw [events_documents, if_neg (mt Located.messages_eq_nil_iff.mpr hm), hp]

/-! ### Files that convert -/

/-- A file that converts has no messages, or all of them convert. -/
theorem exists_events_of_documents {block : List Document}
    (h : (r.documents options f).outcome = .ok block) :
    (r.documents options f).events = f.item.notices ++
        (f.item.enums.map fun e => .enumDocument f.item.label (Document.nameFor e.name)) ∧
      block = f.item.enums.map (fun e => .ofSchema e.name e.toSchema) ∨
    ∃ package,
      (∀ m ∈ f.messages, ∃ s, ((Context.mk r package options).schemaOf m).outcome = .ok s) ∧
      (r.documents options f).events = f.item.notices ++
        f.messages.flatMap ((Context.mk r package options).messageLog f.item.label) ∧
      block.map Document.name = f.messages.map fun m => Document.nameFor m.item.name := by
  rw [outcome_documents] at h
  by_cases hm : f.item.messages = []
  · rw [if_pos hm] at h
    refine .inl ⟨?_, (Except.ok.inj h).symm⟩
    rw [events_documents, if_pos hm]
  · rw [if_neg hm] at h
    cases hp : r.package? f.item.package with
    | none =>
        rw [hp] at h
        cases h
    | some package =>
        rw [hp] at h
        have hok := exists_ok_of_documentsBy h
        refine .inr ⟨package, hok, ?_, map_name_of_documentsBy h⟩
        have hevents := Context.events_messageDocuments_append f.item.label hok []
        rw [List.append_nil] at hevents
        rw [events_documents_of_package? (mt Located.messages_eq_nil_iff.mp hm) hp, hevents]
        congr 1
        exact List.append_nil _

/-- A file that converts announces its documents. -/
theorem outputs_documents {block : List Document}
    (h : (r.documents options f).outcome = .ok block) :
    Event.outputs (r.documents options f).events = block.map fun d => some (.bare d.name) := by
  rcases exists_events_of_documents h with ⟨hevents, rfl⟩ | ⟨package, -, hevents, hnames⟩
  · rw [hevents, Event.outputs_append, File.outputs_notices, List.nil_append, List.map_map,
      List.map_eq_flatMap, Event.outputs_flatMap, List.map_eq_flatMap]
    rfl
  · have hblock : block.map (fun d => some (Datum.bare d.name)) =
        (block.map Document.name).map fun name => some (.bare name) := by
      rw [List.map_map]
      rfl
    rw [hevents, Event.outputs_append, File.outputs_notices, List.nil_append,
      Context.outputs_flatMap_messageLog, hblock, hnames, List.map_map]
    rfl

/-- A file that converts reports no error. -/
theorem level_ne_error_of_documents {block : List Document}
    (h : (r.documents options f).outcome = .ok block) :
    ∀ event ∈ (r.documents options f).events, event.level ≠ .error := by
  intro event hevent
  rcases exists_events_of_documents h with ⟨hevents, -⟩ | ⟨package, hok, hevents, -⟩
  · rw [hevents] at hevent
    rcases List.mem_append.mp hevent with hevent | hevent
    · exact f.item.level_ne_error_of_notices event hevent
    · obtain ⟨e, -, rfl⟩ := List.mem_map.mp hevent
      exact Level.noConfusion
  · rw [hevents] at hevent
    rcases List.mem_append.mp hevent with hevent | hevent
    · exact f.item.level_ne_error_of_notices event hevent
    · obtain ⟨m, hm, hevent⟩ := List.mem_flatMap.mp hevent
      exact Context.level_ne_error_of_messageLog (hok m hm) event hevent

/-! ### Files that fail -/

theorem exists_failsAfter (h : (r.documents options f).outcome = .error e) :
    ∃ begun, r.FailsAfter options f e begun := by
  rw [outcome_documents] at h
  split at h
  · cases h
  next hm =>
    have hne := mt Located.messages_eq_nil_iff.mp hm
    cases hp : r.package? f.item.package with
    | none =>
        rw [hp] at h
        obtain rfl := Except.error.inj h
        exact ⟨[], .package hne hp⟩
    | some package =>
        rw [hp] at h
        obtain ⟨converted, m, rest, hmessages, hconverted, hm⟩ := exists_split_of_documentsBy h
        exact ⟨_, .message package converted rest m e hp hmessages hconverted hm⟩

theorem events_documents_of_error {package : PackagePath} {converted rest : List (Located Message)}
    {m : Located Message} (hp : r.package? f.item.package = some package)
    (hmessages : f.messages = converted ++ m :: rest)
    (hconverted : ∀ c ∈ converted, ∃ s, ((Context.mk r package options).schemaOf c).outcome = .ok s)
    (hm : ((Context.mk r package options).schemaOf m).outcome = .error e) :
    (r.documents options f).events = f.item.notices ++
      ((converted ++ [m]).flatMap ((Context.mk r package options).messageLog f.item.label)) := by
  have hne : f.messages ≠ [] := by simp [hmessages]
  rw [events_documents_of_package? hne hp, hmessages,
    Context.events_messageDocuments_append _ hconverted, Context.events_messageDocuments_cons, hm]
  simp

/-- A file that fails announces the documents that it begins. -/
theorem FailsAfter.outputs_documents (h : r.FailsAfter options f e begun) :
    Event.outputs (r.documents options f).events =
      begun.map fun m => some (.bare (Document.nameFor m.item.name)) := by
  cases h with
  | package hm hp =>
      rw [events_documents, if_neg (mt Located.messages_eq_nil_iff.mpr hm), hp, List.append_nil,
        File.outputs_notices]
      rfl
  | message package converted rest m e hp hmessages hconverted hm =>
      rw [events_documents_of_error hp hmessages hconverted hm, Event.outputs_append,
        File.outputs_notices, List.nil_append, Context.outputs_flatMap_messageLog]

/-- A file that fails ends its log with what the message emits that fails, and reports no error
before that; without its package it reports none. -/
theorem FailsAfter.exists_events_documents (h : r.FailsAfter options f e begun) :
    ∃ earlier inner, (r.documents options f).events = earlier ++ inner ∧
      (∀ event ∈ earlier, event.level ≠ .error) ∧
      (r.package? f.item.package = none ∧ e = .packageNotFound f.item.package ∧ inner = [] ∨
        ∃ package m, r.package? f.item.package = some package ∧ m ∈ f.messages ∧
          ((Context.mk r package options).schemaOf m).outcome = .error e ∧
          inner = ((Context.mk r package options).schemaOf m).events) := by
  cases h with
  | package hm hp =>
      refine ⟨f.item.notices, [], ?_, f.item.level_ne_error_of_notices, .inl ⟨hp, rfl, rfl⟩⟩
      rw [events_documents, if_neg (mt Located.messages_eq_nil_iff.mpr hm), hp]
  | message package converted rest m e hp hmessages hconverted hm =>
      let ctx := Context.mk r package options
      let begun : Event := .messageDocument f.item.label (Document.nameFor m.item.name)
      refine ⟨f.item.notices ++ converted.flatMap (ctx.messageLog f.item.label) ++ [begun],
        (ctx.schemaOf m).events, ?_, ?_, .inr ⟨package, m, hp, ?_, hm, rfl⟩⟩
      · rw [events_documents_of_error hp hmessages hconverted hm]
        simp [Context.messageLog, ctx, begun]
      · simp only [List.mem_append, List.mem_singleton]
        rintro event ((hevent | hevent) | rfl)
        · exact f.item.level_ne_error_of_notices event hevent
        · obtain ⟨c, hc, hevent⟩ := List.mem_flatMap.mp hevent
          exact Context.level_ne_error_of_messageLog (hconverted c hc) event hevent
        · exact Level.noConfusion
      · simp [hmessages]

theorem not_ofRegistration_of_documents (r : Registry) (options : Options) (f : Located File) :
    ∀ event ∈ (r.documents options f).events, ¬ event.OfRegistration := by
  intro event hevent
  rw [events_documents] at hevent
  rcases List.mem_append.mp hevent with hevent | hevent
  · rcases File.mem_notices hevent with rfl | rfl <;> exact id
  · split at hevent
    · obtain ⟨e, -, rfl⟩ := List.mem_map.mp hevent
      exact id
    · split at hevent
      · cases hevent
      · exact Context.not_ofRegistration_of_messageDocuments _ _ _ event hevent

end Registry

end MessageSchema
