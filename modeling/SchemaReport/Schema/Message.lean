import SchemaReport.Schema.Field

/-! The message types of the compiler's request and response: for each its fields, in the order
in which its JSON object lists them. No two fields of a type share a number or a key. -/

namespace SchemaReport.MessageType

def name : MessageType → String
  | .request => "CodeGeneratorRequest"
  | .response => "CodeGeneratorResponse"
  | .generatedFile => "File"
  | .version => "Version"
  | .file => "FileDescriptorProto"
  | .message => "DescriptorProto"
  | .extensionRange => "ExtensionRange"
  | .reservedRange => "ReservedRange"
  | .extensionRangeOptions => "ExtensionRangeOptions"
  | .declaration => "Declaration"
  | .field => "FieldDescriptorProto"
  | .oneof => "OneofDescriptorProto"
  | .enumeration => "EnumDescriptorProto"
  | .enumReservedRange => "EnumReservedRange"
  | .enumValue => "EnumValueDescriptorProto"
  | .service => "ServiceDescriptorProto"
  | .method => "MethodDescriptorProto"
  | .fileOptions => "FileOptions"
  | .messageOptions => "MessageOptions"
  | .fieldOptions => "FieldOptions"
  | .editionDefault => "EditionDefault"
  | .featureSupport => "FeatureSupport"
  | .oneofOptions => "OneofOptions"
  | .enumOptions => "EnumOptions"
  | .enumValueOptions => "EnumValueOptions"
  | .serviceOptions => "ServiceOptions"
  | .methodOptions => "MethodOptions"
  | .uninterpretedOption => "UninterpretedOption"
  | .namePart => "NamePart"
  | .featureSet => "FeatureSet"
  | .sourceCodeInfo => "SourceCodeInfo"
  | .location => "Location"

def fields : MessageType → List Field
  | .request => [
    .repeated 1 "file_to_generate" "fileToGenerate" .string,
    .optional 2 "parameter" "parameter" .string,
    .messages 15 "proto_file" "protoFile" .file,
    .messages 17 "source_file_descriptors" "sourceFileDescriptors" .file,
    .message 3 "compiler_version" "compilerVersion" .version]
  | .response => [
    .optional 1 "error" "error" .string,
    .optional 2 "supported_features" "supportedFeatures" .uint64,
    .messages 15 "file" "file" .generatedFile]
  | .generatedFile => [
    .optional 1 "name" "name" .string,
    .optional 2 "insertion_point" "insertionPoint" .string,
    .optional 15 "content" "content" .string]
  | .version => [
    .optional 1 "major" "major" .int32,
    .optional 2 "minor" "minor" .int32,
    .optional 3 "patch" "patch" .int32,
    .optional 4 "suffix" "suffix" .string]
  | .file => [
    .optional 1 "name" "name" .string,
    .optional 2 "package" "package" .string,
    .repeated 3 "dependency" "dependency" .string,
    .repeated 10 "public_dependency" "publicDependency" .int32,
    .repeated 11 "weak_dependency" "weakDependency" .int32,
    .messages 4 "message_type" "messageType" .message,
    .messages 5 "enum_type" "enumType" .enumeration,
    .messages 6 "service" "service" .service,
    .messages 7 "extension" "extension" .field,
    .message 8 "options" "options" .fileOptions,
    .message 9 "source_code_info" "sourceCodeInfo" .sourceCodeInfo,
    .optional 12 "syntax" "syntax" .string,
    .optional 14 "edition" "edition" (.enum .edition)]
  | .message => [
    .optional 1 "name" "name" .string,
    .messages 2 "field" "field" .field,
    .messages 6 "extension" "extension" .field,
    .messages 3 "nested_type" "nestedType" .message,
    .messages 4 "enum_type" "enumType" .enumeration,
    .messages 5 "extension_range" "extensionRange" .extensionRange,
    .messages 8 "oneof_decl" "oneofDecl" .oneof,
    .message 7 "options" "options" .messageOptions,
    .messages 9 "reserved_range" "reservedRange" .reservedRange,
    .repeated 10 "reserved_name" "reservedName" .string]
  | .extensionRange => [
    .optional 1 "start" "start" .int32,
    .optional 2 "end" "end" .int32,
    .message 3 "options" "options" .extensionRangeOptions]
  | .reservedRange => [
    .optional 1 "start" "start" .int32,
    .optional 2 "end" "end" .int32]
  | .extensionRangeOptions => [
    .messages 999 "uninterpreted_option" "uninterpretedOption" .uninterpretedOption,
    .messages 2 "declaration" "declaration" .declaration,
    .message 50 "features" "features" .featureSet,
    { Field.optional 3 "verification" "verification" (.enum .verificationState) with
      unset := some 1 }]
  | .declaration => [
    .optional 1 "number" "number" .int32,
    .optional 2 "full_name" "fullName" .string,
    .optional 3 "type" "type" .string,
    .optional 5 "reserved" "reserved" .bool,
    .optional 6 "repeated" "repeated" .bool]
  | .field => [
    .optional 1 "name" "name" .string,
    .optional 3 "number" "number" .int32,
    .optional 4 "label" "label" (.enum .label),
    .optional 5 "type" "type" (.enum .fieldType),
    .optional 6 "type_name" "typeName" .string,
    .optional 2 "extendee" "extendee" .string,
    .optional 7 "default_value" "defaultValue" .string,
    .optional 9 "oneof_index" "oneofIndex" .int32,
    .optional 10 "json_name" "jsonName" .string,
    .message 8 "options" "options" .fieldOptions,
    .optional 17 "proto3_optional" "proto3Optional" .bool]
  | .oneof => [
    .optional 1 "name" "name" .string,
    .message 2 "options" "options" .oneofOptions]
  | .enumeration => [
    .optional 1 "name" "name" .string,
    .messages 2 "value" "value" .enumValue,
    .message 3 "options" "options" .enumOptions,
    .messages 4 "reserved_range" "reservedRange" .enumReservedRange,
    .repeated 5 "reserved_name" "reservedName" .string]
  | .enumReservedRange => [
    .optional 1 "start" "start" .int32,
    .optional 2 "end" "end" .int32]
  | .enumValue => [
    .optional 1 "name" "name" .string,
    .optional 2 "number" "number" .int32,
    .message 3 "options" "options" .enumValueOptions]
  | .service => [
    .optional 1 "name" "name" .string,
    .messages 2 "method" "method" .method,
    .message 3 "options" "options" .serviceOptions]
  | .method => [
    .optional 1 "name" "name" .string,
    .optional 2 "input_type" "inputType" .string,
    .optional 3 "output_type" "outputType" .string,
    .message 4 "options" "options" .methodOptions,
    .optional 5 "client_streaming" "clientStreaming" .bool,
    .optional 6 "server_streaming" "serverStreaming" .bool]
  | .fileOptions => [
    .optional 1 "java_package" "javaPackage" .string,
    .optional 8 "java_outer_classname" "javaOuterClassname" .string,
    .optional 10 "java_multiple_files" "javaMultipleFiles" .bool,
    .optional 20 "java_generate_equals_and_hash" "javaGenerateEqualsAndHash" .bool,
    .optional 27 "java_string_check_utf8" "javaStringCheckUtf8" .bool,
    .optional 9 "optimize_for" "optimizeFor" (.enum .optimizeMode),
    .optional 11 "go_package" "goPackage" .string,
    .optional 16 "cc_generic_services" "ccGenericServices" .bool,
    .optional 17 "java_generic_services" "javaGenericServices" .bool,
    .optional 18 "py_generic_services" "pyGenericServices" .bool,
    .optional 42 "php_generic_services" "phpGenericServices" .bool,
    .optional 23 "deprecated" "deprecated" .bool,
    { Field.optional 31 "cc_enable_arenas" "ccEnableArenas" .bool with unset := some 1 },
    .optional 36 "objc_class_prefix" "objcClassPrefix" .string,
    .optional 37 "csharp_namespace" "csharpNamespace" .string,
    .optional 39 "swift_prefix" "swiftPrefix" .string,
    .optional 40 "php_class_prefix" "phpClassPrefix" .string,
    .optional 41 "php_namespace" "phpNamespace" .string,
    .optional 44 "php_metadata_namespace" "phpMetadataNamespace" .string,
    .optional 45 "ruby_package" "rubyPackage" .string,
    .message 50 "features" "features" .featureSet,
    .messages 999 "uninterpreted_option" "uninterpretedOption" .uninterpretedOption]
  | .messageOptions => [
    .optional 1 "message_set_wire_format" "messageSetWireFormat" .bool,
    .optional 2 "no_standard_descriptor_accessor" "noStandardDescriptorAccessor" .bool,
    .optional 3 "deprecated" "deprecated" .bool,
    .optional 7 "map_entry" "mapEntry" .bool,
    .optional 11 "deprecated_legacy_json_field_conflicts"
      "deprecatedLegacyJsonFieldConflicts" .bool,
    .message 12 "features" "features" .featureSet,
    .messages 999 "uninterpreted_option" "uninterpretedOption" .uninterpretedOption]
  | .fieldOptions => [
    .optional 1 "ctype" "ctype" (.enum .cType),
    .optional 2 "packed" "packed" .bool,
    .optional 6 "jstype" "jstype" (.enum .jsType),
    .optional 5 "lazy" "lazy" .bool,
    .optional 15 "unverified_lazy" "unverifiedLazy" .bool,
    .optional 3 "deprecated" "deprecated" .bool,
    .optional 10 "weak" "weak" .bool,
    .optional 16 "debug_redact" "debugRedact" .bool,
    .optional 17 "retention" "retention" (.enum .optionRetention),
    .repeated 19 "targets" "targets" (.enum .optionTargetType),
    .messages 20 "edition_defaults" "editionDefaults" .editionDefault,
    .message 21 "features" "features" .featureSet,
    .message 22 "feature_support" "featureSupport" .featureSupport,
    .messages 999 "uninterpreted_option" "uninterpretedOption" .uninterpretedOption]
  | .editionDefault => [
    .optional 3 "edition" "edition" (.enum .edition),
    .optional 2 "value" "value" .string]
  | .featureSupport => [
    .optional 1 "edition_introduced" "editionIntroduced" (.enum .edition),
    .optional 2 "edition_deprecated" "editionDeprecated" (.enum .edition),
    .optional 3 "deprecation_warning" "deprecationWarning" .string,
    .optional 4 "edition_removed" "editionRemoved" (.enum .edition)]
  | .oneofOptions => [
    .message 1 "features" "features" .featureSet,
    .messages 999 "uninterpreted_option" "uninterpretedOption" .uninterpretedOption]
  | .enumOptions => [
    .optional 2 "allow_alias" "allowAlias" .bool,
    .optional 3 "deprecated" "deprecated" .bool,
    .optional 6 "deprecated_legacy_json_field_conflicts"
      "deprecatedLegacyJsonFieldConflicts" .bool,
    .message 7 "features" "features" .featureSet,
    .messages 999 "uninterpreted_option" "uninterpretedOption" .uninterpretedOption]
  | .enumValueOptions => [
    .optional 1 "deprecated" "deprecated" .bool,
    .message 2 "features" "features" .featureSet,
    .optional 3 "debug_redact" "debugRedact" .bool,
    .message 4 "feature_support" "featureSupport" .featureSupport,
    .messages 999 "uninterpreted_option" "uninterpretedOption" .uninterpretedOption]
  | .serviceOptions => [
    .message 34 "features" "features" .featureSet,
    .optional 33 "deprecated" "deprecated" .bool,
    .messages 999 "uninterpreted_option" "uninterpretedOption" .uninterpretedOption]
  | .methodOptions => [
    .optional 33 "deprecated" "deprecated" .bool,
    .optional 34 "idempotency_level" "idempotencyLevel" (.enum .idempotencyLevel),
    .message 35 "features" "features" .featureSet,
    .messages 999 "uninterpreted_option" "uninterpretedOption" .uninterpretedOption]
  | .uninterpretedOption => [
    .messages 2 "name" "name" .namePart,
    .optional 3 "identifier_value" "identifierValue" .string,
    .optional 4 "positive_int_value" "positiveIntValue" .uint64,
    .optional 5 "negative_int_value" "negativeIntValue" .int64,
    .optional 6 "double_value" "doubleValue" .double,
    .optional 7 "string_value" "stringValue" .bytes,
    .optional 8 "aggregate_value" "aggregateValue" .string]
  | .namePart => [
    .required 1 "name_part" "namePart" .string,
    .required 2 "is_extension" "isExtension" .bool]
  | .featureSet => [
    .optional 1 "field_presence" "fieldPresence" (.enum .fieldPresence),
    .optional 2 "enum_type" "enumType" (.enum .enumType),
    .optional 3 "repeated_field_encoding" "repeatedFieldEncoding" (.enum .repeatedFieldEncoding),
    .optional 4 "utf8_validation" "utf8Validation" (.enum .utf8Validation),
    .optional 5 "message_encoding" "messageEncoding" (.enum .messageEncoding),
    .optional 6 "json_format" "jsonFormat" (.enum .jsonFormat)]
  | .sourceCodeInfo => [
    .messages 1 "location" "location" .location]
  | .location => [
    .packed 1 "path" "path" .int32,
    .packed 2 "span" "span" .int32,
    .optional 3 "leading_comments" "leadingComments" .string,
    .optional 4 "trailing_comments" "trailingComments" .string,
    .repeated 6 "leading_detached_comments" "leadingDetachedComments" .string]

def all : List MessageType := [
  request, response, generatedFile, version, file, message,
  extensionRange, reservedRange, extensionRangeOptions, declaration, field, oneof,
  enumeration, enumReservedRange, enumValue, service, method, fileOptions,
  messageOptions, fieldOptions, editionDefault, featureSupport, oneofOptions, enumOptions,
  enumValueOptions, serviceOptions, methodOptions, uninterpretedOption, namePart, featureSet,
  sourceCodeInfo, location]

end SchemaReport.MessageType
