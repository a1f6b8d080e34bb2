import TildeMerge.Command.Exit
import TildeMerge.Command.Usage

namespace TildeMerge

def osCode : IO.Error → UInt32
  | .alreadyExists _ n _ | .otherError n _ | .resourceBusy n _ | .resourceVanished n _
  | .unsupportedOperation n _ | .hardwareFault n _ | .unsatisfiedConstraints n _
  | .illegalOperation n _ | .protocolError n _ | .timeExpired n _ | .interrupted _ n _
  | .noFileOrDirectory _ n _ | .invalidArgument _ n _ | .permissionDenied _ n _
  | .resourceExhausted _ n _ | .inappropriateType _ n _ | .noSuchThing _ n _ => n
  | .unexpectedEof | .userError _ => 0

/-- The cause of a refusal by the operating system. Its number may come with a minus sign. -/
def causeOf (e : IO.Error) : IoError :=
  match (osCode e).toInt32.toInt.natAbs with
  | 2 => .notFound
  | 17 => .alreadyExists
  | 20 => .notADirectory
  | 21 => .isADirectory
  | 36 => .nameTooLong
  | _ => .other (toString e)

def attempt {α : Type} (p : Text) (operation : IO α) : IO (Except IoError α) := do
  match FileSystem.checkPath p with
  | .error e => return .error e
  | .ok () =>
    try
      return .ok (← operation)
    catch e =>
      return .error (causeOf e)

def readFile (p : Text) : IO (Except IoError Bytes) := do
  let content ← attempt p (IO.FS.readBinFile (String.ofList p))
  return content.map (·.toList)

def openMode : WriteMode → IO.FS.Mode
  | .overwrite => .write
  | .createNew => .writeNew
  | .append => .append

/-- Whether a path is that of a directory. Only then it can be opened with a dot behind it. -/
def isDirectory (p : Text) : IO Bool := do
  let self := p ++ ['/', '.']
  return (← attempt self (IO.FS.Handle.mk (String.ofList self) .read)).toBool

/-- The operations of the machine, where a directory goes by what stands in front of the names in
it. -/
def machine : FileOperations IO Text where
  start p := return if Path.isAbsolute p then ['/'] else []
  make dir segments := do
    let path := dir ++ ['/'].intercalate segments
    let made ← attempt path (IO.FS.createDir (String.ofList path))
    return made.map fun _ ↦ path ++ ['/']
  reach dir segments := do
    let path := dir ++ ['/'].intercalate segments
    if ← isDirectory path then return some (path ++ ['/']) else return none
  store p bytes mode :=
    attempt p do
      let file ← IO.FS.Handle.mk (String.ofList p) (openMode mode)
      file.write bytes.toByteArray

partial def readAll (stream : IO.FS.Stream) (seen : ByteArray) : IO ByteArray := do
  let chunk ← stream.read 65536
  if chunk.isEmpty then return seen else readAll stream (seen ++ chunk)

/-- Reads the files of a run beforehand, since what is done with them is pure. -/
def readFiles (a : Command.Args) : IO FileReader := do
  let template ← readFile a.template
  match a.data with
  | none => return fun _ ↦ template
  | some p =>
    let data ← readFile p
    return fun q ↦ if q = p then data else template

def runHere (a : Command.Args) : IO Command.Report := do
  let input ← if a.stdin then readAll (← IO.getStdin) .empty else pure .empty
  Command.conclude machine a (Command.produce a input.toList (← readFiles a))

def present (e : Command.Exit) : IO UInt32 := do
  let out ← IO.getStdout
  match e.stdout with
  | .bytes b => out.write b.toByteArray
  | .help => Command.helpLines.forM out.putStrLn
  out.flush
  match e.stderr with
  | .text t => IO.eprint (String.ofList t)
  | .usage r => r.lines.forM IO.eprintln
  return UInt32.ofNat e.code

end TildeMerge

def main (argv : List String) : IO UInt32 := do
  match TildeMerge.Command.parse (argv.map String.toList) with
  | .ok a => TildeMerge.present ((← TildeMerge.runHere a).exit a.verbose)
  | .error r => TildeMerge.present r.exit
