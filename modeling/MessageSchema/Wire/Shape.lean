/-! # Shapes of messages

Which components each kind of message has on the wire: their tags, their names in error texts and
the form of their values.  A tag that is not listed is unknown and its value is skipped.

The shapes cover a request to a code generator with everything below it, and the response. -/

namespace MessageSchema

/-- A kind of message. -/
inductive Shape where
  | request
  | version
  | file
  | message
  | extensionRange
  | reservedRange
  | field
  | oneof
  | enum
  | enumReservedRange
  | enumValue
  | service
  | method
  | fileOptions
  | messageOptions
  | fieldOptions
  | enumOptions
  | enumValueOptions
  | serviceOptions
  | methodOptions
  | oneofOptions
  | extensionRangeOptions
  | uninterpretedOption
  | namePart
  | sourceCodeInfo
  | location
  | response
  | responseFile
deriving DecidableEq, Repr

/-- The form of the values of a component. -/
inductive Slot where
  /-- a number, a truth value or an enum value -/
  | varint
  /-- numbers, each with a key of its own or many under one key -/
  | varints
  /-- eight bytes -/
  | fixed64
  | text
  | bytes
  | message (shape : Shape)
deriving DecidableEq, Repr

/-- A component: its tag, its name and the form of its values. -/
structure Component where
  tag : Nat
  name : String
  slot : Slot
deriving DecidableEq, Repr

namespace Shape

/-- The name of a kind of message in error texts. -/
def name : Shape → String
  | request => "CodeGeneratorRequest"
  | version => "Version"
  | file => "FileDescriptorProto"
  | message => "DescriptorProto"
  | extensionRange => "ExtensionRange"
  | reservedRange => "ReservedRange"
  | field => "FieldDescriptorProto"
  | oneof => "OneofDescriptorProto"
  | enum => "EnumDescriptorProto"
  | enumReservedRange => "EnumReservedRange"
  | enumValue => "EnumValueDescriptorProto"
  | service => "ServiceDescriptorProto"
  | method => "MethodDescriptorProto"
  | fileOptions => "FileOptions"
  | messageOptions => "MessageOptions"
  | fieldOptions => "FieldOptions"
  | enumOptions => "EnumOptions"
  | enumValueOptions => "EnumValueOptions"
  | serviceOptions => "ServiceOptions"
  | methodOptions => "MethodOptions"
  | oneofOptions => "OneofOptions"
  | extensionRangeOptions => "ExtensionRangeOptions"
  | uninterpretedOption => "UninterpretedOption"
  | namePart => "NamePart"
  | sourceCodeInfo => "SourceCodeInfo"
  | location => "Location"
  | response => "CodeGeneratorResponse"
  | responseFile => "File"

/-- The component under which options of any kind keep what their writer did not know. -/
def uninterpreted : Component :=
  ⟨999, "uninterpreted_option", .message uninterpretedOption⟩

/-- The components of a range of numbers. -/
def range : List Component := [⟨1, "start", .varint⟩, ⟨2, "end", .varint⟩]

/-- The components of a kind of message. -/
def components : Shape → List Component
  | request =>
      [⟨1, "file_to_generate", .text⟩, ⟨2, "parameter", .text⟩,
        ⟨3, "compiler_version", .message version⟩, ⟨15, "proto_file", .message file⟩]
  | version =>
      [⟨1, "major", .varint⟩, ⟨2, "minor", .varint⟩, ⟨3, "patch", .varint⟩, ⟨4, "suffix", .text⟩]
  | file =>
      [⟨1, "name", .text⟩, ⟨2, "package", .text⟩, ⟨3, "dependency", .text⟩,
        ⟨4, "message_type", .message message⟩, ⟨5, "enum_type", .message enum⟩,
        ⟨6, "service", .message service⟩, ⟨7, "extension", .message field⟩,
        ⟨8, "options", .message fileOptions⟩, ⟨9, "source_code_info", .message sourceCodeInfo⟩,
        ⟨10, "public_dependency", .varints⟩, ⟨11, "weak_dependency", .varints⟩,
        ⟨12, "syntax", .text⟩]
  | message =>
      [⟨1, "name", .text⟩, ⟨2, "field", .message field⟩, ⟨3, "nested_type", .message message⟩,
        ⟨4, "enum_type", .message enum⟩, ⟨5, "extension_range", .message extensionRange⟩,
        ⟨6, "extension", .message field⟩, ⟨7, "options", .message messageOptions⟩,
        ⟨8, "oneof_decl", .message oneof⟩, ⟨9, "reserved_range", .message reservedRange⟩,
        ⟨10, "reserved_name", .text⟩]
  | extensionRange => range ++ [⟨3, "options", .message extensionRangeOptions⟩]
  | reservedRange | enumReservedRange => range
  | field =>
      [⟨1, "name", .text⟩, ⟨2, "extendee", .text⟩, ⟨3, "number", .varint⟩, ⟨4, "label", .varint⟩,
        ⟨5, "r#type", .varint⟩, ⟨6, "type_name", .text⟩, ⟨7, "default_value", .text⟩,
        ⟨8, "options", .message fieldOptions⟩, ⟨9, "oneof_index", .varint⟩,
        ⟨10, "json_name", .text⟩, ⟨17, "proto3_optional", .varint⟩]
  | oneof => [⟨1, "name", .text⟩, ⟨2, "options", .message oneofOptions⟩]
  | enum =>
      [⟨1, "name", .text⟩, ⟨2, "value", .message enumValue⟩, ⟨3, "options", .message enumOptions⟩,
        ⟨4, "reserved_range", .message enumReservedRange⟩, ⟨5, "reserved_name", .text⟩]
  | enumValue =>
      [⟨1, "name", .text⟩, ⟨2, "number", .varint⟩, ⟨3, "options", .message enumValueOptions⟩]
  | service =>
      [⟨1, "name", .text⟩, ⟨2, "method", .message method⟩, ⟨3, "options", .message serviceOptions⟩]
  | method =>
      [⟨1, "name", .text⟩, ⟨2, "input_type", .text⟩, ⟨3, "output_type", .text⟩,
        ⟨4, "options", .message methodOptions⟩, ⟨5, "client_streaming", .varint⟩,
        ⟨6, "server_streaming", .varint⟩]
  | fileOptions =>
      [⟨1, "java_package", .text⟩, ⟨8, "java_outer_classname", .text⟩,
        ⟨9, "optimize_for", .varint⟩, ⟨10, "java_multiple_files", .varint⟩,
        ⟨11, "go_package", .text⟩, ⟨16, "cc_generic_services", .varint⟩,
        ⟨17, "java_generic_services", .varint⟩, ⟨18, "py_generic_services", .varint⟩,
        ⟨20, "java_generate_equals_and_hash", .varint⟩, ⟨23, "deprecated", .varint⟩,
        ⟨27, "java_string_check_utf8", .varint⟩, ⟨31, "cc_enable_arenas", .varint⟩,
        ⟨36, "objc_class_prefix", .text⟩, ⟨37, "csharp_namespace", .text⟩,
        ⟨39, "swift_prefix", .text⟩, ⟨40, "php_class_prefix", .text⟩,
        ⟨41, "php_namespace", .text⟩, ⟨42, "php_generic_services", .varint⟩,
        ⟨44, "php_metadata_namespace", .text⟩, ⟨45, "ruby_package", .text⟩, uninterpreted]
  | messageOptions =>
      [⟨1, "message_set_wire_format", .varint⟩, ⟨2, "no_standard_descriptor_accessor", .varint⟩,
        ⟨3, "deprecated", .varint⟩, ⟨7, "map_entry", .varint⟩, uninterpreted]
  | fieldOptions =>
      [⟨1, "ctype", .varint⟩, ⟨2, "packed", .varint⟩, ⟨3, "deprecated", .varint⟩,
        ⟨5, "lazy", .varint⟩, ⟨6, "jstype", .varint⟩, ⟨10, "weak", .varint⟩, uninterpreted]
  | enumOptions => [⟨2, "allow_alias", .varint⟩, ⟨3, "deprecated", .varint⟩, uninterpreted]
  | enumValueOptions => [⟨1, "deprecated", .varint⟩, uninterpreted]
  | serviceOptions => [⟨33, "deprecated", .varint⟩, uninterpreted]
  | methodOptions =>
      [⟨33, "deprecated", .varint⟩, ⟨34, "idempotency_level", .varint⟩, uninterpreted]
  | oneofOptions | extensionRangeOptions => [uninterpreted]
  | uninterpretedOption =>
      [⟨2, "name", .message namePart⟩, ⟨3, "identifier_value", .text⟩,
        ⟨4, "positive_int_value", .varint⟩, ⟨5, "negative_int_value", .varint⟩,
        ⟨6, "double_value", .fixed64⟩, ⟨7, "string_value", .bytes⟩, ⟨8, "aggregate_value", .text⟩]
  | namePart => [⟨1, "name_part", .text⟩, ⟨2, "is_extension", .varint⟩]
  | sourceCodeInfo => [⟨1, "location", .message location⟩]
  | location =>
      [⟨1, "path", .varints⟩, ⟨2, "span", .varints⟩, ⟨3, "leading_comments", .text⟩,
        ⟨4, "trailing_comments", .text⟩, ⟨6, "leading_detached_comments", .text⟩]
  | response =>
      [⟨1, "error", .text⟩, ⟨2, "supported_features", .varint⟩,
        ⟨15, "file", .message responseFile⟩]
  | responseFile => [⟨1, "name", .text⟩, ⟨15, "content", .text⟩]

/-- The component of a kind of message under a tag. -/
def component? (shape : Shape) (tag : Nat) : Option Component :=
  shape.components.find? (·.tag = tag)

end Shape

end MessageSchema
