import TildeMerge.Files.FileSystem
import TildeMerge.Logged

namespace TildeMerge

open TildeMerge.Path

/-- What the writing of a file asks of a system, which knows its directories by values of a type. -/
structure FileOperations (m : Type → Type) (Dir : Type) where
  start (p : Text) : m Dir
  make (dir : Dir) (segments : List Text) : m (Except IoError Dir)
  reach (dir : Dir) (segments : List Text) : m (Option Dir)
  store (p : Text) (bytes : Bytes) (mode : WriteMode) : m (Except IoError Unit)

/-- How a write ends whose directory is there. What stands in the way of a new file is an error of
its own. -/
def storeOutcome (p : Text) (size : Nat) (mode : WriteMode) (stored : Except IoError Unit) :
    Logged Unit := do
  Logged.tell (.writing size p mode)
  match stored with
  | .ok () => return ()
  | .error .alreadyExists => Logged.fail (.outputExists p)
  | .error e => Logged.fail (.io e)

namespace FileOperations

variable {m : Type → Type} [Monad m] {Dir : Type} (ops : FileOperations m Dir)

def ensureDirectory (dir : Dir) (segments : List Text) : m (Except IoError Dir) := do
  match ← ops.make dir segments with
  | .ok place => return .ok place
  | .error e =>
    match ← ops.reach dir segments with
    | some place => return .ok place
    | none => return .error e

/-- Makes the directory that reversed segments name, and those on the way to it that are missing.
Those that were made stay, even if one is refused. -/
def makeDirectories (dir : Dir) : List Text → m (Except IoError Dir)
  | [] => return .ok dir
  | last :: before => do
    match ← ops.ensureDirectory dir (last :: before).reverse with
    | .error .notFound =>
      match ← makeDirectories dir before with
      | .ok above => ops.ensureDirectory above [last]
      | refused => return refused
    | settled => return settled

def makeParent (p : Text) : m (Except IoError Unit) := do
  let parent := parent p
  if parent.isEmpty then return .ok ()
  match FileSystem.checkPath parent with
  | .error e => return .error e
  | .ok () =>
    let made ← ops.makeDirectories (← ops.start parent) (segments parent).reverse
    return made.map fun _ ↦ ()

def writeFile (p : Text) (bytes : Bytes) (mode : WriteMode) : m (Logged Unit) := do
  match ← ops.makeParent p with
  | .error e => return Logged.fail (.io e)
  | .ok () => return storeOutcome p bytes.length mode (← ops.store p bytes mode)

end FileOperations

namespace FileSystem

def operations : FileOperations (StateM FileSystem) Location where
  start p := return (← get).startOf p
  make dir segments := do
    match (← get).makeDirectory dir segments with
    | .ok made =>
      set made
      return made.walk dir segments
    | .error e => return .error e
  reach dir segments := return ((← get).walk dir segments).toOption
  store p bytes mode := do
    match (← get).store p bytes mode with
    | .ok stored =>
      set stored
      return .ok ()
    | .error e => return .error e

def perform {α : Type} (fs : FileSystem) (operation : StateM FileSystem α) : FileSystem × α :=
  (operation.run fs).swap

def ensureDirectory (fs : FileSystem) (dir : Location) (segments : List Text) :
    FileSystem × Except IoError Location :=
  fs.perform (operations.ensureDirectory dir segments)

def makeDirectories (fs : FileSystem) (dir : Location) (reversed : List Text) :
    FileSystem × Except IoError Location :=
  fs.perform (operations.makeDirectories dir reversed)

def makeParent (fs : FileSystem) (p : Text) : FileSystem × Except IoError Unit :=
  fs.perform (operations.makeParent p)

/-- The file system comes back changed even if the file is refused, since directories may have been
made. -/
def writeFile (fs : FileSystem) (p : Text) (bytes : Bytes) (mode : WriteMode) :
    FileSystem × Logged Unit :=
  fs.perform (operations.writeFile p bytes mode)

variable {α β : Type} (fs : FileSystem)

theorem perform_bind (x : StateM FileSystem α) (g : α → StateM FileSystem β) :
    fs.perform (x >>= g) = (fs.perform x).1.perform (g (fs.perform x).2) := rfl

theorem perform_make (dir : Location) (segments : List Text) :
    fs.perform (operations.make dir segments) =
      match fs.makeDirectory dir segments with
      | .ok made => (made, made.walk dir segments)
      | .error e => (fs, .error e) := by
  change fs.perform (match fs.makeDirectory dir segments with
    | .ok made => set made >>= fun _ ↦ pure (made.walk dir segments)
    | .error e => pure (.error e)) = _
  cases fs.makeDirectory dir segments <;> rfl

theorem perform_reach (dir : Location) (segments : List Text) :
    fs.perform (operations.reach dir segments) = (fs, (fs.walk dir segments).toOption) := rfl

theorem perform_store (p : Text) (bytes : Bytes) (mode : WriteMode) :
    fs.perform (operations.store p bytes mode) =
      match fs.store p bytes mode with
      | .ok stored => (stored, .ok ())
      | .error e => (fs, .error e) := by
  change fs.perform (match fs.store p bytes mode with
    | .ok stored => set stored >>= fun _ ↦ pure (Except.ok ())
    | .error e => pure (.error e)) = _
  cases fs.store p bytes mode <;> rfl

theorem ensureDirectory_eq (dir : Location) (segments : List Text) :
    fs.ensureDirectory dir segments =
      match fs.makeDirectory dir segments with
      | .ok made => (made, made.walk dir segments)
      | .error e =>
        match fs.walk dir segments with
        | .ok place => (fs, .ok place)
        | .error _ => (fs, .error e) := by
  rw [ensureDirectory, FileOperations.ensureDirectory, perform_bind, perform_make]
  cases fs.makeDirectory dir segments with
  | ok made =>
    dsimp only
    cases hw : made.walk dir segments with
    | ok place => rfl
    | error e =>
      dsimp only
      rw [perform_bind, perform_reach, hw]
      rfl
  | error e =>
    dsimp only
    rw [perform_bind, perform_reach]
    cases fs.walk dir segments <;> rfl

theorem makeDirectories_cons (dir : Location) (last : Text) (before : List Text) :
    fs.makeDirectories dir (last :: before) =
      match fs.ensureDirectory dir (last :: before).reverse with
      | (fs, .error .notFound) =>
        match fs.makeDirectories dir before with
        | (fs, .ok above) => fs.ensureDirectory above [last]
        | refused => refused
      | settled => settled := by
  rw [makeDirectories, FileOperations.makeDirectories, perform_bind, ← ensureDirectory]
  obtain ⟨ensured, settled⟩ := fs.ensureDirectory dir (last :: before).reverse
  cases settled with
  | ok place => rfl
  | error e =>
    cases e with
    | notFound =>
      dsimp only
      rw [perform_bind, ← makeDirectories]
      obtain ⟨made, above⟩ := ensured.makeDirectories dir before
      cases above <;> rfl
    | _ => rfl

theorem makeParent_eq (p : Text) :
    fs.makeParent p =
      if (parent p).isEmpty then (fs, .ok ())
      else
        match checkPath (parent p) with
        | .error e => (fs, .error e)
        | .ok () =>
          let made := fs.makeDirectories (fs.startOf (parent p)) (segments (parent p)).reverse
          (made.1, made.2.map fun _ ↦ ()) := by
  unfold makeParent FileOperations.makeParent
  dsimp only
  split
  · rfl
  · cases checkPath (parent p) <;> rfl

theorem writeFile_eq (p : Text) (bytes : Bytes) (mode : WriteMode) :
    fs.writeFile p bytes mode =
      match fs.makeParent p with
      | (fs, .error e) => (fs, Logged.fail (.io e))
      | (fs, .ok ()) =>
        match fs.store p bytes mode with
        | .ok stored => (stored, storeOutcome p bytes.length mode (.ok ()))
        | .error e => (fs, storeOutcome p bytes.length mode (.error e)) := by
  rw [writeFile, FileOperations.writeFile, perform_bind, ← makeParent]
  obtain ⟨made, parent⟩ := fs.makeParent p
  cases parent with
  | error e => rfl
  | ok u =>
    dsimp only
    rw [perform_bind, perform_store]
    cases made.store p bytes mode <;> rfl

end FileSystem

end TildeMerge
