import MessageSchema.Inlining

/-! # Documents of a file

A file becomes one document for each of its messages; a file without messages becomes one document
for each of its enums.  All documents of a file are made or none: the first message that fails ends
the conversion (`Context.messageDocuments`). -/

namespace MessageSchema

/-- A document to be written. -/
structure Document where
  name : String
  content : String
deriving DecidableEq, Repr

namespace Document

/-- The name of the document for a type. -/
def nameFor (typeName : String) : String := typeName ++ ".jsonschema"

/-- The document for a type with a schema. -/
def ofSchema (typeName : String) (s : Schema) : Document := ⟨nameFor typeName, s.documentText⟩

end Document

/-- The last component of the file's path, by which events name the file.  Empty components and
single dots do not count, and a path that ends with two dots has no last component. -/
def File.label (f : File) : String :=
  match ((Text.pieces '/' f.name).filter fun part => part ≠ "" && part ≠ ".").getLast? with
  | some part => if part = ".." then "" else part
  | none => ""

/-- The documents for `enums`, which stand in the file named by `label`. -/
def enumDocuments (label : String) : List EnumType → Logged (List Document)
  | [] => pure []
  | e :: rest => do
      Logged.emit (.enumDocument label (Document.nameFor e.name))
      let others ← enumDocuments label rest
      pure (Document.ofSchema e.name e.toSchema :: others)

/-- The documents for `messages`, which stand in the file named by `label`. -/
def Context.messageDocuments (ctx : Context) (label : String) :
    List (Located Message) → Conversion (List Document)
  | [] => pure []
  | m :: rest => do
      ExceptT.lift (Logged.emit (.messageDocument label (Document.nameFor m.item.name)))
      let schema ← ctx.schemaOf m
      let others ← ctx.messageDocuments label rest
      pure (Document.ofSchema m.item.name schema :: others)

/-- Emit the event that `e` makes of `count` if that is more than one. -/
def Logged.emitMany (count : Nat) (e : Nat → Event) : Logged Unit :=
  if 1 < count then emit (e count) else pure ()

/-- The documents of a file whose types are looked up in `r`. -/
def Registry.documents (r : Registry) (options : Options) (f : Located File) :
    Conversion (List Document) := do
  ExceptT.lift (Logged.emitMany f.item.messages.length (.manyMessages · f.item.label))
  ExceptT.lift (Logged.emitMany f.item.enums.length (.manyEnums · f.item.label))
  match f.messages with
  | [] => ExceptT.lift (enumDocuments f.item.label f.item.enums)
  | m :: rest =>
      match r.package? f.item.package with
      | none => throw (.packageNotFound f.item.package)
      | some package => (Context.mk r package options).messageDocuments f.item.label (m :: rest)

end MessageSchema
