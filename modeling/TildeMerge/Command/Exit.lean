import TildeMerge.Command.Run
import TildeMerge.Text.Plain

namespace TildeMerge.Command

inductive Display where
  | bytes (b : Bytes)
  | help
  deriving DecidableEq, Repr

inductive Complaint where
  | text (t : Text)
  | usage (r : Refusal)
  deriving DecidableEq, Repr

structure Exit where
  code : Nat
  stdout : Display
  stderr : Complaint
  deriving DecidableEq, Repr

def versionText : Text :=
  "tildetex 0.1.0\n".toList

def shown (verbose : Bool) (log : List LogEntry) : List LogEntry :=
  if verbose then log else log.filter LogEntry.isWarning

def indented (message : Text) : Text :=
  message.flatMap fun c ↦ if c = '\n' then "\n    ".toList else [c]

/-- An entry as it is shown: without anything that is meant for a terminal. A sequence that the entry
leaves open takes the end of its line with it. -/
def entryText (e : LogEntry) : Text :=
  Text.plain (indented e.line.toList ++ ['\n'])

def errorText (e : Error) : Text :=
  e.message.toList ++ ['\n']

def renderedText (target : Text) : Text :=
  "Rendered '".toList ++ target ++ "'\n".toList

/-- How the program ends after a run. A check that found something ends it with code 2, and an error
with code 1. -/
def Report.exit (verbose : Bool) (r : Report) : Exit :=
  let told := (shown verbose r.log).flatMap entryText
  match r.result with
  | .ok outcome =>
    let notice := match outcome.target with
      | some target => Utf8.encode (renderedText target)
      | none => []
    ⟨if outcome.leftovers = 0 then 0 else 2, .bytes (r.printed ++ notice), .text told⟩
  | .error e => ⟨1, .bytes r.printed, .text (told ++ errorText e)⟩

def Refusal.exit : Refusal → Exit
  | .helpAsked => ⟨0, .help, .text []⟩
  | .versionAsked => ⟨0, .bytes (Utf8.encode versionText), .text []⟩
  | .missingRequired => ⟨1, .help, .text []⟩
  | r => ⟨2, .bytes [], .usage r⟩

/-- How the program ends when it is called with arguments, and the files as it leaves them. -/
def execute (argv : List Text) (input : Bytes) (fs : FileSystem) : Exit × FileSystem :=
  match parse argv with
  | .ok a =>
    let (report, fs) := run a input fs
    (report.exit a.verbose, fs)
  | .error r => (r.exit, fs)

end TildeMerge.Command
