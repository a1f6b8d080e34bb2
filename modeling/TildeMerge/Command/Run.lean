import TildeMerge.Command.Args
import TildeMerge.Files.Access
import TildeMerge.Files.Operations
import TildeMerge.Render.OutputPath

namespace TildeMerge.Command

open Markup

structure Outcome where
  /-- The file that was written, unless the text went to the stream. -/
  target : Option Text
  leftovers : Nat
  deriving DecidableEq, Repr

/-- The record of a run. The stream goes before a file. -/
def record (a : Args) (input : Bytes) (read : FileReader) : Logged Value :=
  if a.stdin then Logged.ofExcept (Record.ofStream input)
  else match a.data with
    | some p => loadRecord read p
    | none => Logged.fail .noRecord

def engine (a : Args) : Engine :=
  { options := a.options }

def reportLeftovers : List Leftover → Logged Unit
  | [] => return ()
  | l :: rest => do
    Logged.tell (.unresolved l.token l.line)
    reportLeftovers rest

structure Product where
  bytes : Bytes
  target : Option Text
  leftovers : Nat

def checkedLeftovers (a : Args) (t : Text) : List Leftover :=
  if a.check then leftovers t else []

def produce (a : Args) (input : Bytes) (read : FileReader) : Logged Product := do
  let record ← record a input read
  let template ← loadTemplate read a.template
  let text ← (engine a).render template record
  let found := checkedLeftovers a text
  reportLeftovers found
  let target ← match a.output with
    | some output => some <$> (engine a).renderPath output record
    | none => pure none
  return ⟨a.encoding.encode text, target, found.length⟩

structure Report where
  log : List LogEntry
  result : Except Error Outcome
  printed : Bytes

def Report.unwritten (product : Logged Product) : Report where
  log := product.log
  result := product.result.map fun p ↦ ⟨p.target, p.leftovers⟩
  printed := match product.result with
    | .ok p => p.bytes
    | .error _ => []

def Report.written (log : List LogEntry) (p : Product) (write : Logged Unit) : Report where
  log := log ++ write.log
  result := write.result.map fun _ ↦ ⟨p.target, p.leftovers⟩
  printed := []

def conclude {m : Type → Type} [Monad m] {Dir : Type} (ops : FileOperations m Dir) (a : Args)
    (product : Logged Product) : m Report :=
  match product.result with
  | .ok p@⟨bytes, some target, _⟩ =>
    return .written product.log p (← ops.writeFile target bytes a.writeMode)
  | _ => return .unwritten product

def run (a : Args) (input : Bytes) (fs : FileSystem) : Report × FileSystem :=
  (conclude FileSystem.operations a (produce a input fs.read)).run fs

end TildeMerge.Command
