import MessageSchema.Text.Blank
import MessageSchema.Text.Pieces

/-! # Options and parameters

The setting shared by all conversions of a run, and the parameter text that carries it.  A
parameter text is a list of words between commas; white space around a word and empty entries do
not count, later words win, and the first unknown word rejects the whole text
(`Parameters.parse`). -/

namespace MessageSchema

/-- Whether converted messages admit properties that they do not declare. -/
structure Options where
  allowAdditionalProperties : Bool := true
deriving DecidableEq, Repr

/-- The options in the form in which diagnostics show them. -/
def Options.text (o : Options) : String :=
  "ConverterOptions \x7b allow_additional_properties: " ++ toString o.allowAdditionalProperties ++
    " \x7d"

/-- What a parameter text asks for. -/
structure Parameters where
  options : Options := {}
  debug : Bool := false
deriving DecidableEq, Repr

/-- A word of a parameter text. -/
inductive ParameterWord where
  | allowAdditionalProperties
  | disallowAdditionalProperties
  | debug
deriving DecidableEq, Repr

/-- A parameter text holds an unknown word. -/
structure ParameterError where
  entry : String
deriving DecidableEq, Repr

/-- The text that reports the unknown word. -/
def ParameterError.text (e : ParameterError) : String :=
  "unknown plugin parameter '" ++ e.entry ++ "'"

/-- The word spelled `entry`. -/
def ParameterWord.ofText? (entry : String) : Option ParameterWord :=
  if entry = "allow_additional_properties" then some .allowAdditionalProperties
  else if entry = "disallow_additional_properties" then some .disallowAdditionalProperties
  else if entry = "debug" then some .debug
  else none

namespace Parameters

/-- The parameters after one more word. -/
def apply (p : Parameters) : ParameterWord → Parameters
  | .allowAdditionalProperties => { p with options := ⟨true⟩ }
  | .disallowAdditionalProperties => { p with options := ⟨false⟩ }
  | .debug => { p with debug := true }

/-- The entries of a parameter text: the pieces between commas, trimmed, empty ones left out. -/
def entries (s : String) : List String :=
  ((Text.pieces ',' s).map Text.trim).filter (· ≠ "")

/-- The parameters after reading `entries` from left to right. -/
def read (p : Parameters) : List String → Except ParameterError Parameters
  | [] => .ok p
  | entry :: rest =>
      match ParameterWord.ofText? entry with
      | some word => (p.apply word).read rest
      | none => .error ⟨entry⟩

/-- The parameters that the text `s` asks for. -/
def parse (s : String) : Except ParameterError Parameters :=
  read {} (entries s)

end Parameters

end MessageSchema
