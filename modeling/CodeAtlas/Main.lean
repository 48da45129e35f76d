import CodeAtlas.Command
import Std.Time.Format

namespace CodeAtlas.Machine

def errorOf : IO.Error → FileError
  | .noFileOrDirectory _ _ _ => .missing
  | .inappropriateType _ code _ => if code = 20 ∨ code = -20 then .notDirectory else .isDirectory
  | .invalidArgument _ code _ =>
    if code = 36 ∨ code = -36 then .nameTooLong else .other "Invalid argument (os error 22)"
  | e => .other (toString e)

def read (path : String) : IO (Except FileError ByteArray) := do
  return (← (IO.FS.readBinFile path).toBaseIO).mapError errorOf

partial def treeOf (d : IO.FS.DirEntry) : IO FileTree := do
  match (← d.path.symlinkMetadata).type with
  | .dir =>
    if Scan.isSkipped d.fileName .empty then return .empty
    let below ← d.path.readDir
    return .directory (← below.toList.mapM fun e => return (e.fileName, ← treeOf e))
  | .file =>
    if (Language.ofPath? d.fileName).isNone then return .file .empty
    return .regular (← read d.path.toString)
  | _ => return .link ""

def list? (path : String) : IO (Option (List (String × FileTree))) := do
  try
    let entries ← (← IO.FS.realPath path).readDir
    return some (← entries.toList.mapM fun e => return (e.fileName, ← treeOf e))
  catch _ => return none

def isFile (path : String) : IO Bool := do
  try
    return (← (← IO.FS.realPath path).metadata).type == .file
  catch _ => return false

def disk : Disk IO :=
  { read, isFile, list? }

def hexadecimal (n : Nat) : String :=
  String.ofList (Nat.toDigits 16 n)

def stamp : IO Stamp := do
  let now ← Std.Time.Timestamp.now
  let number ← IO.rand 0 0xFFFF
  let date := Std.Time.DateTime.ofTimestampWithZone now Std.Time.TimeZone.UTC
  return {
    run := hexadecimal now.toSecondsSinceUnixEpoch.val.toNat ++ "-" ++ hexadecimal number
    time := some (date.format "uuuu-MM-dd'T'HH:mm:ss'Z'") }

end CodeAtlas.Machine

def main (args : List String) : IO UInt32 := do
  let stamp ← CodeAtlas.Machine.stamp
  let outcome ← CodeAtlas.Command.run CodeAtlas.Machine.disk CodeAtlas.Registry.empty stamp args
  IO.print outcome.stdout
  IO.eprint outcome.stderr
  return outcome.status.toUInt32
