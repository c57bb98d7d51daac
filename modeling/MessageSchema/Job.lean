import MessageSchema.Document

/-! # Jobs

A job registers the messages of all its files and then makes the documents of the files that are
its targets, in the order in which the files are given.  A file that fails contributes no document
and ends the job; the documents of the files before it are kept (`Job.documents`). -/

namespace MessageSchema

/-- The file that ended a job, and why. -/
structure JobFailure where
  file : String
  cause : ConversionError
deriving DecidableEq, Repr

/-- The text that reports the failure. -/
def JobFailure.text (failure : JobFailure) : String :=
  "Failed to convert " ++ failure.file ++ ": " ++ failure.cause.text

/-- The documents of a job, and the failure that ended it early. -/
structure JobOutput where
  documents : List Document := []
  failure? : Option JobFailure := none
deriving DecidableEq, Repr

/-! ### Registration -/

/-- Register `messages` in order under one package text. -/
def Registry.registerAll (r : Registry) (package : String) :
    List (Located Message) → Logged Registry
  | [] => pure r
  | m :: rest => do
      let r ← r.register package m
      r.registerAll package rest

/-- Register the messages of all files in order. -/
def Registry.registerFiles (r : Registry) : List (Located File) → Logged Registry
  | [] => pure r
  | f :: rest => do
      let r ← r.registerAll f.item.package f.messages
      r.registerFiles rest

/-! ### Runs -/

/-- Files, the names of those to make documents of, and the options for that. -/
structure Job where
  files : List (Located File)
  targets : List String
  options : Options := {}

namespace Job

/-- The job for files that stand each at its own index. -/
def ofFiles (files : List File) (targets : List String) (options : Options) : Job :=
  ⟨Located.enumerate [] 0 files, targets, options⟩

/-- The files to make documents of. -/
def requested (job : Job) : List (Located File) :=
  job.files.filter fun f => f.item.name ∈ job.targets

/-- The registry of the messages of all files. -/
def registry (job : Job) : Logged Registry := Registry.empty.registerFiles job.files

/-- The documents of `files` in order, up to the first file that fails. -/
def documents (r : Registry) (options : Options) : List (Located File) → Logged JobOutput
  | [] => pure {}
  | f :: rest => do
      Logged.emit (.fileStarted f.item.name)
      match ← (r.documents options f).run with
      | .error cause =>
          Logged.emit (.fileFailed cause f.item.name)
          pure { failure? := some ⟨f.item.name, cause⟩ }
      | .ok made =>
          let output ← documents r options rest
          pure { output with documents := made ++ output.documents }

/-- Do the job. -/
def run (job : Job) : Logged JobOutput := do
  let r ← job.registry
  documents r job.options job.requested

end Job

end MessageSchema
