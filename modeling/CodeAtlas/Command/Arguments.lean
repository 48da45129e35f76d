import CodeAtlas.Response

namespace CodeAtlas.Command

inductive Action
  | parse
  | analyze
  | diagrams
deriving DecidableEq

def Action.words : List (String × Action) :=
  [("parse", .parse), ("analyze", .analyze), ("diagrams", .diagrams)]

inductive Request
  | parse (file : String) (language config : Option String) (format : OutputFormat)
  | analyze (root : String) (config : Option String) (format : OutputFormat)
  | diagrams (root : String) (config : Option String) (format : OutputFormat)

inductive Stop
  | usage
  | help
  | version
deriving DecidableEq

inductive Word
  | separator
  | long (name : String) (value : Option String)
  | short (letters : List Char)
  | plain (text : String)

def Word.ofText (text : String) : Word :=
  match text.toList with
  | ['-', '-'] => .separator
  | '-' :: '-' :: cs =>
    let name := cs.takeWhile (· != '=')
    let value :=
      if name.length = cs.length then none else some (String.ofList (cs.drop (name.length + 1)))
    .long (String.ofList name) value
  | '-' :: c :: cs => .short (c :: cs)
  | _ => .plain text

structure Call where
  action : Action
  file : Option String := none
  root : Option String := none
  language : Option String := none
  config : Option String := none
  format : Option OutputFormat := none
  verbose : Bool := false

namespace Call

def once {α : Type} (old : Option α) (new : Option α) : Except Stop (Option α) :=
  match old, new with
  | none, some value => .ok (some value)
  | _, _ => .error .usage

def path? (s : String) : Option String :=
  if s.isEmpty then none else some s

def addOperand (c : Call) (s : String) : Except Stop Call :=
  match c.action with
  | .parse => (once c.file (path? s)).map fun file => { c with file }
  | .analyze | .diagrams => .error .usage

def setVerbose (c : Call) : Except Stop Call :=
  if c.verbose then .error .usage else .ok { c with verbose := true }

def optionNames : Action → List String
  | .parse => ["language", "config", "output"]
  | .analyze | .diagrams => ["root", "config", "output"]

def setOption (c : Call) (name value : String) : Except Stop Call :=
  if ! (optionNames c.action).contains name then .error .usage
  else
    match name with
    | "root" => (once c.root (path? value)).map fun root => { c with root }
    | "config" => (once c.config (path? value)).map fun config => { c with config }
    | "language" => (once c.language (some value)).map fun language => { c with language }
    | _ => (once c.format (OutputFormat.ofText? value)).map fun format => { c with format }

def setShort (c : Call) : Char → Except Stop Call
  | 'v' => c.setVerbose
  | 'h' => .error .help
  | _ => .error .usage

def take (c : Call) : List String → Except Stop Call
  | [] => .ok c
  | arg :: rest =>
    match Word.ofText arg with
    | .separator => rest.foldlM addOperand c
    | .plain s => (c.addOperand s).bind fun c => c.take rest
    | .short letters => (letters.foldlM setShort c).bind fun c => c.take rest
    | .long "verbose" none => c.setVerbose.bind fun c => c.take rest
    | .long "help" none => .error .help
    | .long name (some value) => (c.setOption name value).bind fun c => c.take rest
    | .long name none =>
      match rest with
      | [] => .error .usage
      | value :: rest =>
        match Word.ofText value with
        | .plain value => (c.setOption name value).bind fun c => c.take rest
        | _ => .error .usage

def request (c : Call) : Except Stop Request :=
  let format := c.format.getD .human
  match c.action, c.file, c.root with
  | .parse, some file, _ => .ok (.parse file c.language c.config format)
  | .analyze, _, some root => .ok (.analyze root c.config format)
  | .diagrams, _, some root => .ok (.diagrams root c.config format)
  | _, _, _ => .error .usage

end Call

def topShort (verbose : Bool) : Char → Except Stop Bool
  | 'v' => if verbose then .error .usage else .ok true
  | 'V' => .error .version
  | 'h' => .error .help
  | _ => .error .usage

def isHelpTopic : List String → Bool
  | [] => true
  | [topic] => topic == "help" || (Action.words.lookup topic).isSome
  | _ => false

def readArguments (verbose : Bool) : List String → Except Stop Request
  | [] => .error .usage
  | arg :: rest =>
    match Word.ofText arg with
    | .long "verbose" none => if verbose then .error .usage else readArguments true rest
    | .long "version" none => .error .version
    | .long "help" none => .error .help
    | .short letters => (letters.foldlM topShort verbose).bind fun verbose => readArguments verbose rest
    | .plain "help" => .error (if isHelpTopic rest then .help else .usage)
    | .plain s =>
      match Action.words.lookup s with
      | some action => (Call.take { action } rest).bind Call.request
      | none => .error .usage
    | _ => .error .usage

end CodeAtlas.Command
