import CodeAtlas.Language

namespace CodeAtlas

inductive Family
  | indentation
  | brace
  | wholeFile
deriving DecidableEq

structure Profile where
  functions : List String
  classes : List String
  imports : List String := []
  exports : List String := []
  interfaces : List String := []
  aliases : List String := []
  wrappers : List String := []
  declarations : List String := []
  declarators : List String := []
  bodies : List String
  comments : List String
  attributes : List String := []
  docInBody : Bool := false
  family : Family := .brace
  /-- Whether single quotes delimit strings; else they delimit one character. -/
  singleQuotes : Bool := false

namespace Profile

def identifiers : List String :=
  ["identifier", "type_identifier", "property_identifier", "field_identifier", "simple_identifier",
    "constant", "name"]

def python : Profile where
  functions := ["function_definition"]
  classes := ["class_definition"]
  imports := ["import_statement", "import_from_statement", "future_import_statement"]
  aliases := ["type_alias_statement"]
  wrappers := ["decorated_definition"]
  bodies := ["block"]
  comments := ["comment"]
  docInBody := true
  family := .indentation
  singleQuotes := true

def javaScript : Profile where
  functions := ["function_declaration", "generator_function_declaration", "method_definition",
    "function_expression", "function", "arrow_function", "generator_function"]
  classes := ["class_declaration", "class"]
  imports := ["import_statement"]
  exports := ["export_statement"]
  declarations := ["lexical_declaration", "variable_declaration"]
  declarators := ["variable_declarator"]
  bodies := ["class_body"]
  comments := ["comment"]
  singleQuotes := true

def typeScript : Profile where
  functions := ["function_declaration", "generator_function_declaration", "function_signature",
    "method_definition", "method_signature", "abstract_method_signature", "function_expression",
    "function", "arrow_function", "generator_function"]
  classes := ["class_declaration", "abstract_class_declaration", "class"]
  imports := ["import_statement"]
  exports := ["export_statement"]
  interfaces := ["interface_declaration"]
  aliases := ["type_alias_declaration"]
  declarations := ["lexical_declaration", "variable_declaration"]
  declarators := ["variable_declarator"]
  bodies := ["class_body"]
  comments := ["comment"]
  singleQuotes := true

def java : Profile where
  functions := ["method_declaration", "constructor_declaration"]
  classes := ["class_declaration", "enum_declaration", "record_declaration"]
  imports := ["import_declaration"]
  interfaces := ["interface_declaration", "annotation_type_declaration"]
  bodies := ["class_body", "enum_body"]
  comments := ["line_comment", "block_comment", "comment"]

def c : Profile where
  functions := ["function_definition"]
  classes := ["struct_specifier"]
  imports := ["preproc_include"]
  aliases := ["type_definition"]
  bodies := ["field_declaration_list"]
  comments := ["comment"]

def cpp : Profile where
  functions := ["function_definition"]
  classes := ["class_specifier", "struct_specifier"]
  imports := ["preproc_include", "using_declaration"]
  aliases := ["type_definition", "alias_declaration"]
  wrappers := ["template_declaration"]
  bodies := ["field_declaration_list"]
  comments := ["comment"]

def rust : Profile where
  functions := ["function_item", "function_signature_item"]
  classes := ["struct_item", "enum_item", "union_item", "impl_item"]
  imports := ["use_declaration", "extern_crate_declaration"]
  interfaces := ["trait_item"]
  aliases := ["type_item"]
  bodies := ["declaration_list", "field_declaration_list", "enum_variant_list"]
  comments := ["line_comment", "block_comment"]
  attributes := ["attribute_item"]

def go : Profile where
  functions := ["function_declaration", "method_declaration"]
  classes := ["type_declaration"]
  imports := ["import_declaration"]
  bodies := ["field_declaration_list"]
  comments := ["comment"]

def ruby : Profile where
  functions := ["method", "singleton_method"]
  classes := ["class", "module"]
  bodies := ["body_statement"]
  comments := ["comment"]
  family := .wholeFile
  singleQuotes := true

def php : Profile where
  functions := ["function_definition", "method_declaration"]
  classes := ["class_declaration", "trait_declaration", "enum_declaration"]
  imports := ["namespace_use_declaration"]
  interfaces := ["interface_declaration"]
  bodies := ["declaration_list"]
  comments := ["comment"]
  attributes := ["attribute_list"]
  singleQuotes := true

def cSharp : Profile where
  functions := ["method_declaration", "constructor_declaration", "local_function_statement"]
  classes := ["class_declaration", "struct_declaration", "record_declaration"]
  imports := ["using_directive"]
  interfaces := ["interface_declaration"]
  bodies := ["declaration_list"]
  comments := ["comment"]
  attributes := ["attribute_list"]

def kotlin : Profile where
  functions := ["function_declaration"]
  classes := ["class_declaration", "object_declaration"]
  imports := ["import_header"]
  aliases := ["type_alias"]
  bodies := ["class_body"]
  comments := ["comment", "line_comment", "multiline_comment"]

def swift : Profile where
  functions := ["function_declaration"]
  classes := ["class_declaration"]
  imports := ["import_declaration"]
  interfaces := ["protocol_declaration"]
  aliases := ["typealias_declaration"]
  bodies := ["class_body"]
  comments := ["comment", "multiline_comment"]

def scala : Profile where
  functions := ["function_definition"]
  classes := ["class_definition", "object_definition"]
  imports := ["import_declaration"]
  interfaces := ["trait_definition"]
  aliases := ["type_definition"]
  bodies := ["template_body"]
  comments := ["comment", "block_comment"]

end Profile

def Language.profile : Language → Profile
  | .python => .python
  | .javaScript => .javaScript
  | .typeScript => .typeScript
  | .tsx => .typeScript
  | .java => .java
  | .c => .c
  | .cpp => .cpp
  | .rust => .rust
  | .go => .go
  | .ruby => .ruby
  | .php => .php
  | .cSharp => .cSharp
  | .kotlin => .kotlin
  | .swift => .swift
  | .scala => .scala

end CodeAtlas
