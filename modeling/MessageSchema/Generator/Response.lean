import MessageSchema.Job
import MessageSchema.Generator.Request

/-! # Responses

A response carries the generated files and, if something failed, an error text.  The response to a
request that was understood also states which features the generator supports; documents made
before a failure stay in it. -/

namespace MessageSchema

/-- A generated file. -/
structure ResponseFile where
  name? : Option String := none
  content? : Option String := none
deriving DecidableEq, Repr

/-- What a code generator answers. -/
structure Response where
  error? : Option String := none
  supportedFeatures? : Option UInt64 := none
  files : List ResponseFile := []
deriving DecidableEq, Repr

/-- The feature number of optional fields with presence. -/
def optionalFieldsFeature : UInt64 := 1

/-- The file for a document. -/
def ResponseFile.ofDocument (d : Document) : ResponseFile :=
  { name? := some d.name, content? := some d.content }

/-- The response that reports the output of a job. -/
def Response.ofOutput (output : JobOutput) : Response :=
  { error? := output.failure?.map JobFailure.text
    supportedFeatures? := some optionalFieldsFeature
    files := output.documents.map ResponseFile.ofDocument }

/-- The response to a request under `options`; its parameter text is not looked at. -/
def Request.respond (r : Request) (options : Options) : Logged Response :=
  Response.ofOutput <$> (Job.ofFiles r.files r.targets options).run

/-! ### Wire form -/

/-- The record of a generated file. -/
def ResponseFile.toRecord (f : ResponseFile) : Record :=
  Record.ofText? 1 f.name? ++ Record.ofText? 15 f.content?

/-- The record of a response. -/
def Response.toRecord (r : Response) : Record :=
  Record.ofText? 1 r.error? ++ Record.ofVarint? 2 r.supportedFeatures? ++
    Record.ofMessages 15 (r.files.map ResponseFile.toRecord)

/-- The generated file that a record holds. -/
def ResponseFile.ofRecord (r : Record) : ResponseFile :=
  { name? := Record.text? 1 r, content? := Record.text? 15 r }

/-- The response that a record holds. -/
def Response.ofRecord (r : Record) : Response :=
  { error? := Record.text? 1 r, supportedFeatures? := Record.varint? 2 r
    files := (Record.messages 15 r).map ResponseFile.ofRecord }

/-- The bytes of a response. -/
def Response.encode (r : Response) : List UInt8 := Record.encode r.toRecord

/-- The response that `bytes` hold. -/
def Response.decode (bytes : List UInt8) : Except DecodeError Response :=
  Response.ofRecord <$> Record.decode .response bytes

end MessageSchema
