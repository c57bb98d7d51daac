import MessageSchema.Generator.Response

/-! # Invocations

An invocation is a request together with the parameters that its parameter text asks for.  Bytes
that are no request, and requests with an unknown parameter, are answered by a response that holds
nothing but the error. -/

namespace MessageSchema

/-- Why bytes cannot be understood as an invocation. -/
inductive InvocationError where
  | decode (e : DecodeError)
  | parameter (e : ParameterError)
deriving DecidableEq, Repr

/-- The text that reports the error. -/
def InvocationError.text : InvocationError → String
  | decode e => "Failed to read input: " ++ e.text
  | parameter e => "Invalid plugin parameter: " ++ e.text

/-- The response that reports the error. -/
def InvocationError.response (e : InvocationError) : Response := { error? := some e.text }

/-- A request and the parameters from its parameter text. -/
structure Invocation where
  request : Request
  parameters : Parameters
deriving DecidableEq, Repr

namespace Invocation

/-- The invocation for a request. -/
def ofRequest (request : Request) : Except InvocationError Invocation :=
  match Parameters.parse request.parameter with
  | .ok parameters => .ok { request, parameters }
  | .error e => .error (.parameter e)

/-- The invocation that `bytes` hold. -/
def decode (bytes : List UInt8) : Except InvocationError Invocation :=
  match Request.decode bytes with
  | .ok request => ofRequest request
  | .error e => .error (.decode e)

/-- The options of the invocation; `disallow` forbids undeclared properties whatever the
parameters say. -/
def effectiveOptions (i : Invocation) (disallow : Bool) : Options :=
  if disallow then { allowAdditionalProperties := false } else i.parameters.options

/-- The response to the invocation. -/
def respond (i : Invocation) (disallow : Bool) : Logged Response := do
  let options := i.effectiveOptions disallow
  Logged.emit (.requestStarted i.request.files.length i.request.targets.length options)
  i.request.respond options

end Invocation

end MessageSchema
