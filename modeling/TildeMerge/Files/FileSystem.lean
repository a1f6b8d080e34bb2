import TildeMerge.Error
import TildeMerge.Files.Path
import TildeMerge.Log

namespace TildeMerge

open TildeMerge.Path

/-- A place in the file system: the names on the way to it from the root. -/
abbrev Location := List Text

inductive Entry where
  | file (bytes : Bytes)
  | directory
  deriving DecidableEq, Repr

structure FileSystem where
  entries : List (Location × Entry)
  /-- Where paths start that are not absolute. -/
  workingDirectory : Location
  deriving DecidableEq, Repr

namespace FileSystem

def maxName : Nat := 255

def maxPath : Nat := 4095

/-- What stands at a place. The root is always a directory. -/
def entry? (fs : FileSystem) (loc : Location) : Option Entry :=
  if loc = [] then some .directory else fs.entries.lookup loc

def putEntry (loc : Location) (e : Entry) : List (Location × Entry) → List (Location × Entry)
  | [] => [(loc, e)]
  | (l, old) :: rest => if l = loc then (l, e) :: rest else (l, old) :: putEntry loc e rest

def put (fs : FileSystem) (loc : Location) (e : Entry) : FileSystem :=
  { fs with entries := putEntry loc e fs.entries }

def enter (fs : FileSystem) (dir : Location) (segment : Text) : Except IoError Location :=
  if segment = ['.'] then .ok dir
  else if segment = ['.', '.'] then .ok dir.dropLast
  else if maxName < segment.size then .error .nameTooLong
  else match fs.entry? (dir ++ [segment]) with
    | none => .error .notFound
    | some (.file _) => .error .notADirectory
    | some .directory => .ok (dir ++ [segment])

def walk (fs : FileSystem) (dir : Location) : List Text → Except IoError Location
  | [] => .ok dir
  | s :: rest => do
    walk fs (← fs.enter dir s) rest

inductive Target where
  | reached (dir : Location)
  | named (dir : Location) (name : Text)
  deriving DecidableEq, Repr

/-- Follows segments from a directory up to the last one, which is followed only if it is no name. -/
def follow (fs : FileSystem) (dir : Location) (segments : List Text) : Except IoError Target :=
  match segments.getLast? with
  | none => .ok (.reached dir)
  | some last => do
    let dir ← fs.walk dir segments.dropLast
    if last = ['.'] || last = ['.', '.'] then return .reached (← fs.enter dir last)
    else if maxName < last.size then throw .nameTooLong
    else return .named dir last

def startOf (fs : FileSystem) (p : Text) : Location :=
  if isAbsolute p then [] else fs.workingDirectory

def checkPath (p : Text) : Except IoError Unit :=
  if p.contains '\x00' then .error .nulInName
  else if p.isEmpty then .error .notFound
  else if maxPath < p.size then .error .nameTooLong
  else .ok ()

def read (fs : FileSystem) (p : Text) : Except IoError Bytes := do
  checkPath p
  match ← fs.follow (fs.startOf p) (segments p) with
  | .reached _ => throw .isADirectory
  | .named dir name =>
    match fs.entry? (dir ++ [name]) with
    | none => throw .notFound
    | some .directory => throw .isADirectory
    | some (.file bytes) => if endsInSlash p then throw .notADirectory else return bytes

def makeDirectory (fs : FileSystem) (dir : Location) (segments : List Text) :
    Except IoError FileSystem := do
  match ← fs.follow dir segments with
  | .reached _ => throw .alreadyExists
  | .named dir name =>
    match fs.entry? (dir ++ [name]) with
    | some _ => throw .alreadyExists
    | none => return fs.put (dir ++ [name]) .directory

def store (fs : FileSystem) (p : Text) (bytes : Bytes) (mode : WriteMode) :
    Except IoError FileSystem := do
  checkPath p
  let occupied := if mode = .createNew then IoError.alreadyExists else .isADirectory
  let segments := segments p
  if endsInSlash p && segments.getLast?.any (fun s ↦ s != ['.'] && s != ['.', '.']) then
    let _ ← fs.walk (fs.startOf p) segments.dropLast
    throw .isADirectory
  match ← fs.follow (fs.startOf p) segments with
  | .reached _ => throw occupied
  | .named dir name =>
    let place := dir ++ [name]
    match fs.entry? place, mode with
    | some .directory, _ => throw occupied
    | some (.file _), .createNew => throw .alreadyExists
    | some (.file old), .append => return fs.put place (.file (old ++ bytes))
    | _, _ => return fs.put place (.file bytes)

end FileSystem

end TildeMerge
