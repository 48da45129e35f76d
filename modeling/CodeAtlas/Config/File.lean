import CodeAtlas.Config.Toml
import CodeAtlas.FileTree
import CodeAtlas.Path

namespace CodeAtlas

inductive ConfigError
  | unreadable (path : String) (e : FileError)
  | invalid (fault : ConfigFault)
deriving DecidableEq

namespace ConfigError

def code : ConfigError → String
  | unreadable _ _ => "VSP-CFG-001"
  | invalid _ => "VSP-CFG-002"

def cause : ConfigError → String
  | unreadable _ e => e.message
  | invalid fault => fault.message

def message : ConfigError → String
  | unreadable path e => "cannot read " ++ path ++ ": " ++ e.message
  | invalid fault => "invalid configuration: " ++ fault.message

def codedMessage (e : ConfigError) : String :=
  e.code ++ ": " ++ e.message

end ConfigError

namespace Config

def ofBytes (path : String) (bytes : Except FileError ByteArray) : Except ConfigError Config :=
  match bytes.bind decodeText with
  | .error e => .error (.unreadable path e)
  | .ok text => (ofToml text).mapError .invalid

variable {m : Type → Type} [Monad m] (disk : Disk m)

def load (path : String) : m (Except ConfigError Config) := do
  return ofBytes path (← disk.read path)

def discover (root : String) : m (Except ConfigError Config) := do
  let path := Path.below root fileName
  if ← disk.isFile path then load disk path else return .ok {}

end Config

end CodeAtlas
