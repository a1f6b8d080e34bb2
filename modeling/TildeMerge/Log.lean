import TildeMerge.Text.Basic

namespace TildeMerge

inductive WriteMode where
  | overwrite
  | createNew
  | append
  deriving DecidableEq, Repr

def WriteMode.name : WriteMode → String
  | .overwrite => "Overwrite"
  | .createNew => "CreateNew"
  | .append => "Append"

inductive Level where
  | debug
  | warn
  deriving DecidableEq, Repr

def Level.name : Level → String
  | .debug => "DEBUG"
  | .warn => "WARN"

inductive LogEntry where
  | loadingRecord (path : Text)
  | loadingTemplate (path : Text)
  | scalarPass
  | blockPass
  | renderingBlock (directive collection : Text)
  | renderingItems (count : Nat) (path : Text)
  /-- The record has no value at the path; `inserted` stands in for it. -/
  | noValue (path inserted : Text)
  | unclosed (token : Text)
  | unresolved (token : Text) (line : Nat)
  | outputPath (output target : Text)
  | writing (size : Nat) (path : Text) (mode : WriteMode)
  deriving DecidableEq, Repr

namespace LogEntry

/-- Gaps and leftovers are warnings; all else is for whoever looks into a run. -/
def level : LogEntry → Level
  | noValue .. | unclosed .. | unresolved .. => .warn
  | _ => .debug

def quoted (t : Text) : String :=
  "'" ++ String.ofList t ++ "'"

def message : LogEntry → String
  | loadingRecord path => "Loading record from " ++ String.ofList path
  | loadingTemplate path => "Loading template from " ++ String.ofList path
  | scalarPass => "Substituting scalar placeholders"
  | blockPass => "Substituting blocks"
  | renderingBlock directive collection =>
    "Rendering " ++ quoted directive ++ " block over " ++ quoted collection
  | renderingItems count path =>
    "Rendering " ++ toString count ++ " item(s) of " ++ quoted path
  | noValue path [] => "No value for " ++ quoted path ++ ", inserting nothing"
  | noValue path inserted =>
    "No value for " ++ quoted path ++ ", inserting " ++ quoted inserted
  | unclosed token => quoted token ++ " has no closing '~.end', leaving it untouched"
  | unresolved token line => "Unresolved " ++ quoted token ++ " on line " ++ toString line
  | outputPath output target => "Output path " ++ quoted output ++ " rendered to " ++ quoted target
  | writing size path mode =>
    "Writing " ++ toString size ++ " byte(s) to " ++ String.ofList path ++ " (" ++ mode.name ++ ")"

def line (e : LogEntry) : String :=
  e.level.name ++ " " ++ e.message

def isWarning (e : LogEntry) : Bool :=
  e.level == .warn

end LogEntry

end TildeMerge
