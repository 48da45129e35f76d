import CodeAtlas.Path

namespace CodeAtlas

inductive Language
  | python
  | javaScript
  | typeScript
  | tsx
  | java
  | c
  | cpp
  | rust
  | go
  | ruby
  | php
  | cSharp
  | kotlin
  | swift
  | scala
deriving DecidableEq

namespace Language

def all : List Language :=
  [python, javaScript, typeScript, tsx, java, c, cpp, rust, go, ruby, php, cSharp, kotlin, swift,
    scala]

theorem mem_all (l : Language) : l ∈ all := by
  cases l <;> decide

def key : Language → String
  | python => "python"
  | javaScript => "javascript"
  | typeScript => "typescript"
  | tsx => "tsx"
  | java => "java"
  | c => "c"
  | cpp => "cpp"
  | rust => "rust"
  | go => "go"
  | ruby => "ruby"
  | php => "php"
  | cSharp => "csharp"
  | kotlin => "kotlin"
  | swift => "swift"
  | scala => "scala"

def extensions : Language → List String
  | python => ["py", "pyi"]
  | javaScript => ["js", "jsx", "mjs", "cjs"]
  | typeScript => ["ts", "mts", "cts"]
  | tsx => ["tsx"]
  | java => ["java"]
  | c => ["c", "h"]
  | cpp => ["cpp", "cc", "cxx", "hpp", "hh", "hxx"]
  | rust => ["rs"]
  | go => ["go"]
  | ruby => ["rb"]
  | php => ["php"]
  | cSharp => ["cs"]
  | kotlin => ["kt", "kts"]
  | swift => ["swift"]
  | scala => ["scala", "sc"]

def aliases : Language → List String
  | python => ["python", "py", "python3"]
  | javaScript => ["javascript", "js", "jsx", "node"]
  | typeScript => ["typescript", "ts"]
  | tsx => ["tsx"]
  | java => ["java"]
  | c => ["c"]
  | cpp => ["cpp", "c++", "cxx"]
  | rust => ["rust", "rs"]
  | go => ["go", "golang"]
  | ruby => ["ruby", "rb"]
  | php => ["php"]
  | cSharp => ["csharp", "c#", "cs"]
  | kotlin => ["kotlin", "kt"]
  | swift => ["swift"]
  | scala => ["scala"]

def ofExtension? (extension : String) : Option Language :=
  all.find? fun l => l.extensions.contains (extension.map Char.toLower)

def ofPath? (path : String) : Option Language :=
  (Path.extension? path).bind ofExtension?

def ofHint? (hint : String) : Option Language :=
  let name := String.ofList ((Text.trim hint.toList).map Char.toLower)
  all.find? fun l => l.aliases.contains name

/-- The language of a file. A hint that names no language is ignored. -/
def detect? (path : String) (hint : Option String) : Option Language :=
  (hint.bind ofHint?).or (ofPath? path)

def keyOf : Option Language → String
  | some l => l.key
  | none => "unknown"

end Language

end CodeAtlas
