import MessageSchema.CommandLine
import MessageSchema.Proofs.FileOrder
import MessageSchema.Proofs.Wire.Requests
import MessageSchema.Proofs.Wire.Responses

/-! # Every input is answered

The relations of this module say which response and which exit status an input asks for, by the
cause that decides about them: bytes that are no request, a parameter text with an unknown word, a
requested file that fails, or nothing of this kind.  Each cause fixes error text, feature number,
files and status together.

Main statement: the response and the status of a run are the ones that its input asks for, and the
output of the run is read back as this response (`Settings.run_answers`).  Every cause occurs
(`Settings.ClockTypes`). -/

namespace MessageSchema

/-! ### Jobs -/

namespace Job

/-- The response and the status that a job asks for. -/
inductive Answered (job : Job) : Response → Nat → Prop
  /-- All requested files convert. -/
  | all (blocks : List (List Document))
      (hblocks : List.Forall₂ (fun f block => job.outcome f = .ok block) job.requested blocks) :
      Answered job
        { supportedFeatures? := some 1, files := blocks.flatten.map ResponseFile.ofDocument } 0
  /-- The requested files before `f` convert, and `f` fails. -/
  | before (done later : List (Located File)) (f : Located File) (blocks : List (List Document))
      (e : ConversionError) (hrequested : job.requested = done ++ f :: later)
      (hblocks : List.Forall₂ (fun f block => job.outcome f = .ok block) done blocks)
      (hf : job.outcome f = .error e) :
      Answered job
        { error? := some ("Failed to convert " ++ f.item.name ++ ": " ++ e.text)
          supportedFeatures? := some 1
          files := blocks.flatten.map ResponseFile.ofDocument } 1

/-- Files that convert contribute their documents and leave the end of the run to the files after
them. -/
theorem value_documents_append {r : Registry} {options : Options} {done : List (Located File)}
    {blocks : List (List Document)}
    (h : List.Forall₂ (fun f block => (r.documents options f).outcome = .ok block) done blocks)
    (left : List (Located File)) :
    (documents r options (done ++ left)).value =
      { documents := blocks.flatten ++ (documents r options left).value.documents
        failure? := (documents r options left).value.failure? } := by
  induction h with
  | nil => rfl
  | @cons f block done blocks hf _ ih =>
      rw [List.cons_append, value_documents_cons, hf, ih, List.flatten_cons, List.append_assoc]

theorem value_run_requested (job : Job) :
    job.run.value = (documents job.registry.value job.options job.requested).value := by
  rw [value_run, ← value_registry]

/-- The exit status that reports a failure. -/
def statusOf (failure? : Option JobFailure) : Nat := if failure?.isSome then 1 else 0

theorem answered_run (job : Job) :
    job.Answered (.ofOutput job.run.value) (statusOf job.run.value.failure?) := by
  obtain ⟨done, left, blocks, hrequested, hblocks, hdocs, hstop⟩ :=
    documents_split job.registry.value job.options job.requested
  rw [← value_run_requested] at hdocs hstop
  rcases hstop with ⟨rfl, hnone⟩ | ⟨f, later, e, rfl, hf, hsome⟩
  · rw [List.append_nil] at hrequested
    rw [Response.ofOutput, hdocs, hnone]
    exact .all blocks (hrequested ▸ hblocks)
  · rw [Response.ofOutput, hdocs, hsome]
    exact .before done later f blocks e hrequested hblocks hf

/-- A job asks for the response and the status of its run and for no others. -/
theorem answered_iff {job : Job} {response : Response} {status : Nat} :
    job.Answered response status ↔
      response = .ofOutput job.run.value ∧ status = statusOf job.run.value.failure? := by
  refine ⟨fun h => ?_, ?_⟩
  · cases h with
    | all blocks hblocks =>
        have hvalue := value_documents_append hblocks []
        rw [List.append_nil, ← value_run_requested] at hvalue
        rw [hvalue]
        simp only [documents, Logged.value_pure, List.append_nil]
        exact ⟨rfl, rfl⟩
    | before done later f blocks e hrequested hblocks hf =>
        have hleft : (documents job.registry.value job.options (f :: later)).value =
            { failure? := some ⟨f.item.name, e⟩ } := by
          rw [outcome] at hf
          rw [value_documents_cons, hf]
        have hvalue := value_documents_append hblocks (f :: later)
        rw [← hrequested, ← value_run_requested, hleft] at hvalue
        rw [hvalue]
        simp only [List.append_nil]
        exact ⟨rfl, rfl⟩
  · rintro ⟨rfl, rfl⟩
    exact job.answered_run

end Job

/-! ### Inputs -/

namespace Settings

/-- The response and the status that an input asks for. -/
inductive Answered (s : Settings) (input : List UInt8) : Response → Nat → Prop
  /-- The input is no request. -/
  | malformed (e : DecodeError) (hr : Request.decode input = .error e) :
      Answered s input { error? := some ("Failed to read input: " ++ e.text) } 1
  /-- The parameter text of the request has an unknown word. -/
  | unknownParameter (r : Request) (e : ParameterError) (hr : Request.decode input = .ok r)
      (hp : Parameters.parse r.parameter = .error e) :
      Answered s input { error? := some ("Invalid plugin parameter: " ++ e.text) } 1
  /-- The request is done under the options among its parameters, in which undeclared properties
  are forbidden if the command line forbids them. -/
  | understood (r : Request) (parameters : Parameters) (response : Response) (status : Nat)
      (hr : Request.decode input = .ok r) (hp : Parameters.parse r.parameter = .ok parameters)
      (hjob : (Job.ofFiles r.files r.targets
        ⟨!s.disallow && parameters.options.allowAdditionalProperties⟩).Answered response status) :
      Answered s input response status

/-- The response that is computed for an input. -/
def response (s : Settings) (input : List UInt8) : Response :=
  (s.answer (Invocation.decode input)).value

theorem output_run (s : Settings) (input : List UInt8) :
    (s.run input).output = (s.response input).encode := rfl

theorem status_run (s : Settings) (input : List UInt8) :
    (s.run input).status = if (s.response input).error?.isSome then 1 else 0 := rfl

section response
variable {s : Settings} {input : List UInt8} {r : Request}

theorem response_of_malformed {e : DecodeError} (hr : Request.decode input = .error e) :
    s.response input = { error? := some ("Failed to read input: " ++ e.text) } := by
  rw [response, Invocation.decode, hr]
  rfl

theorem response_of_unknownParameter {e : ParameterError} (hr : Request.decode input = .ok r)
    (hp : Parameters.parse r.parameter = .error e) :
    s.response input = { error? := some ("Invalid plugin parameter: " ++ e.text) } := by
  rw [response, Invocation.decode, hr]
  simp only [Invocation.ofRequest, hp]
  rfl

theorem response_of_parameters {parameters : Parameters} (hr : Request.decode input = .ok r)
    (hp : Parameters.parse r.parameter = .ok parameters) :
    s.response input = .ofOutput (Job.ofFiles r.files r.targets
      ⟨!s.disallow && parameters.options.allowAdditionalProperties⟩).run.value := by
  rw [response, Invocation.decode, hr]
  simp only [Invocation.ofRequest, hp]
  exact Invocation.respond_eq ..

end response

theorem answered_run (s : Settings) (input : List UInt8) :
    s.Answered input (s.response input) (s.run input).status := by
  rw [status_run]
  cases hr : Request.decode input with
  | error e =>
      rw [response_of_malformed hr]
      exact .malformed e hr
  | ok r =>
      cases hp : Parameters.parse r.parameter with
      | error e =>
          rw [response_of_unknownParameter hr hp]
          exact .unknownParameter r e hr hp
      | ok parameters =>
          rw [response_of_parameters hr hp]
          apply Answered.understood r parameters _ _ hr hp
          have hjob := Job.answered_run (Job.ofFiles r.files r.targets
            ⟨!s.disallow && parameters.options.allowAdditionalProperties⟩)
          simpa only [Job.statusOf, Response.ofOutput, Option.isSome_map] using hjob

/-- An input asks for the response and the status of the run and for no others. -/
theorem answered_iff {s : Settings} {input : List UInt8} {response : Response} {status : Nat} :
    s.Answered input response status ↔
      response = s.response input ∧ status = (s.run input).status := by
  refine ⟨fun h => ?_, ?_⟩
  · rw [status_run]
    cases h with
    | malformed e hr =>
        rw [response_of_malformed hr]
        exact ⟨rfl, rfl⟩
    | unknownParameter r e hr hp =>
        rw [response_of_unknownParameter hr hp]
        exact ⟨rfl, rfl⟩
    | understood r parameters response status hr hp hjob =>
        rw [response_of_parameters hr hp]
        simpa only [Job.statusOf, Response.ofOutput, Option.isSome_map] using
          Job.answered_iff.mp hjob
  · rintro ⟨rfl, rfl⟩
    exact s.answered_run input

/-- A run answers its input: response and status are the ones that the input asks for, which are
never others, and the response is what the output says. -/
theorem run_answers (s : Settings) (input : List UInt8) :
    (∀ response status, s.Answered input response status ↔
      response = s.response input ∧ status = (s.run input).status) ∧
    (s.run input).output = (s.response input).encode ∧
    ((s.run input).output.length < UInt64.size →
      Response.decode (s.run input).output = .ok (s.response input)) := by
  refine ⟨fun _ _ => answered_iff, s.output_run input, ?_⟩
  rw [s.output_run input]
  exact Response.decode_encode

/-! ### A clock that converts and an alarm that does not -/

namespace ClockTypes

def clock : Message :=
  { name? := some "Clock"
    fields := [{ name? := some "ticks", label? := some 1, type? := some 3 }] }

/-- There is no message `Tone`. -/
def alarm : Message :=
  { name? := some "Alarm"
    fields :=
      [{ name? := some "tone", label? := some 1, type? := some 11, typeName? := some ".Tone" }] }

def clockFile : File := { name? := some "clock.proto", messages := [clock] }

def alarmFile : File := { name? := some "alarm.proto", messages := [alarm] }

/-- A request that gives both files. -/
def request (parameter : String) (targets : List String) : Request :=
  { targets, parameter? := some parameter, files := [clockFile, alarmFile] }

def job (targets : List String) : Job := .ofFiles [clockFile, alarmFile] targets {}

/-- The schema of a clock. -/
def schema : Schema :=
  { Schema.object (some true) with properties := [("ticks", Schema.ofType .integer)] }

theorem outcome_clock (targets : List String) :
    (job targets).outcome ⟨[0], clockFile⟩ = .ok [.ofSchema "Clock" schema] := by
  have hs : ((Context.mk (job targets).registry.value [] {}).schemaOf ⟨[0, 0], clock⟩).outcome =
      .ok schema := by
    cbv
  rw [Job.outcome, Registry.outcome_documents_of_package? (List.cons_ne_nil _ _) rfl]
  exact (documentsBy_cons ..).trans (hs ▸ rfl)

theorem outcome_alarm (targets : List String) :
    (job targets).outcome ⟨[1], alarmFile⟩ = .error (.unresolvedReference ".Tone" "Alarm") := by
  cbv

/-- The run on `input` ends with `status`, and its output is read as `response`. -/
def EndsWith (input : List UInt8) (response : Response) (status : Nat) : Prop :=
  Response.decode (run {} input).output = .ok response ∧ (run {} input).status = status

/-- Every cause occurs: a number that is cut off, a word that is no parameter, a file that fails
after one that converts, and no failure. -/
theorem run_answers_clock :
    EndsWith [0xff]
      { error? := some
          "Failed to read input: failed to decode Protobuf message: invalid varint" } 1 ∧
    EndsWith (request "debug, loud" ["clock.proto"]).encode
      { error? := some "Invalid plugin parameter: unknown plugin parameter 'loud'" } 1 ∧
    EndsWith (request "debug" ["alarm.proto", "clock.proto"]).encode
      { error? := some
          ("Failed to convert alarm.proto: " ++
            "no such message type named .Tone (referenced by 'Alarm')")
        supportedFeatures? := some 1
        files := [.ofDocument (.ofSchema "Clock" schema)] } 1 ∧
    EndsWith (request "debug" ["clock.proto"]).encode
      { supportedFeatures? := some 1
        files := [.ofDocument (.ofSchema "Clock" schema)] } 0 := by
  have hends : ∀ input response status, Answered {} input response status →
      response.encode.length < UInt64.size → EndsWith input response status := by
    intro input response status h hlength
    obtain ⟨hanswered, houtput, hread⟩ := run_answers {} input
    obtain ⟨hresponse, hstatus⟩ := (hanswered response status).mp h
    rw [← hresponse] at houtput hread
    exact ⟨hread (houtput ▸ hlength), hstatus.symm⟩
  refine ⟨?malformed, ?unknownParameter, ?failure, ?success⟩
  case malformed =>
    have hr : Request.decode [0xff] = .error { fault := .varint } := by cbv
    exact hends _ _ _ (.malformed _ hr) (by decide +kernel)
  case unknownParameter =>
    have hr := Request.decode_encode (r := request "debug, loud" ["clock.proto"]) (by decide)
      (by decide +kernel)
    exact hends _ _ _ (.unknownParameter _ ⟨"loud"⟩ hr rfl) (by decide +kernel)
  case failure =>
    have hr := Request.decode_encode (r := request "debug" ["alarm.proto", "clock.proto"])
      (by decide) (by decide +kernel)
    have hjob : (job ["alarm.proto", "clock.proto"]).Answered _ 1 :=
      .before [_] [] _ [_] _ rfl (.cons (outcome_clock _) .nil) (outcome_alarm _)
    exact hends _ _ _ (.understood _ ⟨{}, true⟩ _ _ hr rfl hjob) (by decide +kernel)
  case success =>
    have hr := Request.decode_encode (r := request "debug" ["clock.proto"]) (by decide)
      (by decide +kernel)
    have hrequested : (job ["clock.proto"]).requested = [⟨[0], clockFile⟩] := rfl
    have hjob : (job ["clock.proto"]).Answered _ 0 :=
      .all [_] (by rw [hrequested]; exact .cons (outcome_clock _) .nil)
    exact hends _ _ _ (.understood _ ⟨{}, true⟩ _ _ hr rfl hjob) (by decide +kernel)

end ClockTypes

end Settings

end MessageSchema
