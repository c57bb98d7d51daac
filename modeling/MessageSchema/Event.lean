import MessageSchema.PackagePath
import MessageSchema.Parameters

/-! # Errors and events

The causes for which a conversion fails, and the diagnostics that a run emits on its way.  An
event is a value; its level, its text, its named data and the part of the program that reports it
are functions of that value.  The wording of an error is in `ConversionError.text` alone. -/

namespace MessageSchema

/-- A cause for which a conversion fails.  Every error names the message that was being
converted, except for a file whose package holds nothing. -/
inductive ConversionError where
  /-- The type number of a field is absent or unknown. -/
  | unrecognizedType (field message : String) (type? : Option Int32)
  /-- A field refers to a message that its scope does not see. -/
  | unresolvedReference (typeName message : String)
  /-- The package of a requested file is not registered. -/
  | packageNotFound (package : String)
  /-- A required field refers to a message that is being inlined around it. -/
  | recursiveType (field message typeName : String)
deriving DecidableEq, Repr

namespace ConversionError

/-- An optional number in the form in which errors show it. -/
def numberText : Option Int32 → String
  | none => "None"
  | some n => "Some(" ++ toString n.toInt ++ ")"

/-- The text that reports the error. -/
def text : ConversionError → String
  | unrecognizedType field message type? =>
      "unrecognized field type " ++ numberText type? ++ " for field '" ++ field ++
        "' in message '" ++ message ++ "'"
  | unresolvedReference typeName message =>
      "no such message type named " ++ typeName ++ " (referenced by '" ++ message ++ "')"
  | packageNotFound package => "no such package found: " ++ package
  | recursiveType field message typeName =>
      "required field '" ++ field ++ "' in '" ++ message ++ "' recursively refers to " ++ typeName

end ConversionError

/-- How important an event is, most important first. -/
inductive Level where
  | error
  | warn
  | info
  | debug
deriving DecidableEq, Repr

/-- The rank of a level; a higher rank is less important. -/
def Level.rank : Level → Nat
  | error => 1
  | warn => 2
  | info => 3
  | debug => 4

/-- The name of a level. -/
def Level.name : Level → String
  | error => "ERROR"
  | warn => "WARN"
  | info => "INFO"
  | debug => "DEBUG"

/-- A datum of an event: a quoted text, a bare text, or a count. -/
inductive Datum where
  | quoted (s : String)
  | bare (s : String)
  | count (n : Nat)
deriving DecidableEq, Repr

/-- Something that happened during a run. -/
inductive Event where
  /-- A message was registered in a package. -/
  | typeRegistered (message : String) (package : PackagePath)
  /-- Below the package with the segments `around`, innermost first, the segments `rest` of a
  compound name are looked up in the scope named by the segment before them. -/
  | compoundName (rest : List String) (scope : String) (around : List String)
  /-- Below the package with the segments `around`, innermost first, the first segment of a
  compound name led nowhere. -/
  | noPackageNorMessage (scope : String) (around : List String)
  /-- A message declares no message with the given name. -/
  | noNestedMessage (component message : String)
  /-- A field refers to a message that is being inlined around it and is left unexpanded. -/
  | referenceCut (field message typeName : String)
  /-- The conversion of a field failed. -/
  | fieldFailed (cause : ConversionError) (field message : String)
  /-- The conversion of a file begins. -/
  | fileStarted (file : String)
  /-- The conversion of a file failed. -/
  | fileFailed (cause : ConversionError) (file : String)
  /-- A file declares more than one message. -/
  | manyMessages (count : Nat) (file : String)
  /-- A file declares more than one enum. -/
  | manyEnums (count : Nat) (file : String)
  /-- The document of an enum is about to be written. -/
  | enumDocument (file output : String)
  /-- The document of a message is about to be written. -/
  | messageDocument (file output : String)
  /-- The conversion of a request begins. -/
  | requestStarted (files targets : Nat) (options : Options)
  /-- The command line program begins its work. -/
  | runStarted
  /-- The command line program writes its response. -/
  | responseWritten
  /-- The command line program ends with a response that reports an error. -/
  | runFailed
  /-- The command line program ends with a response without error. -/
  | runFinished
deriving DecidableEq, Repr

namespace Event

/-- The level of an event. -/
def level : Event → Level
  | fieldFailed .. | fileFailed .. => .error
  | referenceCut .. | manyMessages .. | manyEnums .. | runFailed => .warn
  | enumDocument .. | messageDocument .. => .info
  | _ => .debug

/-- The text of an event. -/
def text : Event → String
  | typeRegistered .. => "registered message type"
  | compoundName .. => "looking up compound type name"
  | noPackageNorMessage .. => "no such package nor message"
  | noNestedMessage .. => "no such nested message"
  | referenceCut .. => "recursive message type is not expanded again"
  | fieldFailed cause .. => "failed to convert field: " ++ cause.text
  | fileStarted .. => "converting file"
  | fileFailed cause .. => "failed to convert file: " ++ cause.text
  | manyMessages .. => "creating multiple message schemas from one proto file"
  | manyEnums .. => "creating multiple enum schemas from one proto file"
  | enumDocument .. => "generating schema for standalone enum"
  | messageDocument .. => "generating schema for message"
  | requestStarted .. => "converting code generator request"
  | runStarted => "processing code generator request"
  | responseWritten => "serializing code generator response"
  | runFailed => "failed to process code generator request but sent the error to protoc"
  | runFinished => "processed code generator request"

/-- The named data of an event, in the order in which they are shown. -/
def data : Event → List (String × Datum)
  | typeRegistered message package =>
      [("message", .quoted message), ("package", .quoted package.name)]
  | compoundName rest scope around =>
      [("name", .quoted (Text.joined '.' rest)), ("scope", .quoted scope),
        ("package", .bare (PackagePath.name around.reverse))]
  | noPackageNorMessage scope around =>
      [("scope", .quoted scope), ("package", .bare (PackagePath.name around.reverse))]
  | noNestedMessage component message =>
      [("component", .quoted component), ("message", .quoted message)]
  | referenceCut field message typeName =>
      [("field", .quoted field), ("message", .quoted message), ("type_name", .quoted typeName)]
  | fieldFailed _ field message => [("field", .quoted field), ("message", .quoted message)]
  | fileStarted file | fileFailed _ file => [("file", .quoted file)]
  | manyMessages count file | manyEnums count file =>
      [("count", .count count), ("file", .bare file)]
  | enumDocument file output | messageDocument file output =>
      [("file", .bare file), ("output", .bare output)]
  | requestStarted files targets options =>
      [("files", .count files), ("targets", .count targets), ("options", .bare options.text)]
  | runStarted | responseWritten | runFailed | runFinished => []

/-- The part of the program that reports an event, as log lines name it. -/
def target : Event → String
  | typeRegistered .. | compoundName .. | noPackageNorMessage .. | noNestedMessage .. =>
      "proto2jsonschema::namespace"
  | referenceCut .. | fieldFailed .. => "proto2jsonschema::schema"
  | fileStarted .. | fileFailed .. | manyMessages .. | manyEnums .. | enumDocument ..
  | messageDocument .. => "proto2jsonschema::batch"
  | requestStarted .. => "protoc_gen_jsonschema::plugin"
  | runStarted | responseWritten | runFailed | runFinished => "protoc_gen_jsonschema"

end Event

end MessageSchema
