import TildeMerge.Render.Options
import TildeMerge.Text.Encoding

namespace TildeMerge.Command

structure Args where
  template : Text
  data : Option Text
  output : Option Text
  stdin : Bool
  missing : GapPolicy
  strict : Bool
  encoding : Encoding
  append : Bool
  noClobber : Bool
  check : Bool
  verbose : Bool
  deriving DecidableEq, Repr

namespace Args

def options (a : Args) : Options :=
  { missing := if a.strict then .strict else a.missing }

def writeMode (a : Args) : WriteMode :=
  if a.append then .append else if a.noClobber then .createNew else .overwrite

end Args

inductive Refusal where
  | missingRequired
  | conflict
  | unknownArgument
  | invalidValue
  | unneededValue
  | helpAsked
  | versionAsked
  deriving DecidableEq, Repr

inductive Flag where
  | stdin
  | strict
  | append
  | noClobber
  | check
  | verbose
  | help
  | version
  deriving DecidableEq, Repr

inductive Setting where
  | output
  | missing
  | encoding
  deriving DecidableEq, Repr

inductive Opt where
  | flag (f : Flag)
  | setting (s : Setting)
  deriving DecidableEq, Repr

def longNames : List (Text × Opt) :=
  [("output".toList, .setting .output), ("stdin".toList, .flag .stdin),
    ("missing".toList, .setting .missing), ("strict".toList, .flag .strict),
    ("encoding".toList, .setting .encoding), ("append".toList, .flag .append),
    ("no-clobber".toList, .flag .noClobber), ("check".toList, .flag .check),
    ("verbose".toList, .flag .verbose), ("help".toList, .flag .help),
    ("version".toList, .flag .version)]

def shortNames : List (Char × Opt) :=
  [('o', .setting .output), ('s', .flag .stdin), ('v', .flag .verbose), ('h', .flag .help),
    ('V', .flag .version)]

def policyNames : List (Text × GapPolicy) :=
  [("undefined".toList, .undefined), ("empty".toList, .empty), ("strict".toList, .strict)]

def encodingNames : List (Text × Encoding) :=
  [("utf8".toList, .utf8), ("utf8-bom".toList, .utf8Bom), ("utf16le".toList, .utf16Little),
    ("utf16be".toList, .utf16Big)]

structure Given where
  template : Option Text := none
  data : Option Text := none
  output : Option Text := none
  missing : Option GapPolicy := none
  encoding : Option Encoding := none
  stdin : Bool := false
  strict : Bool := false
  append : Bool := false
  noClobber : Bool := false
  check : Bool := false
  verbose : Bool := false
  deriving DecidableEq, Repr

namespace Given

def setFlag (g : Given) : Flag → Except Refusal Given
  | .stdin => if g.stdin then .error .conflict else .ok { g with stdin := true }
  | .strict => if g.strict then .error .conflict else .ok { g with strict := true }
  | .append => if g.append then .error .conflict else .ok { g with append := true }
  | .noClobber => if g.noClobber then .error .conflict else .ok { g with noClobber := true }
  | .check => if g.check then .error .conflict else .ok { g with check := true }
  | .verbose => if g.verbose then .error .conflict else .ok { g with verbose := true }
  | .help => .error .helpAsked
  | .version => .error .versionAsked

def setValue (g : Given) (value : Text) : Setting → Except Refusal Given
  | .output => if g.output.isSome then .error .conflict else .ok { g with output := some value }
  | .missing =>
    if g.missing.isSome then .error .conflict
    else match policyNames.lookup value with
      | some p => .ok { g with missing := some p }
      | none => .error .invalidValue
  | .encoding =>
    if g.encoding.isSome then .error .conflict
    else match encodingNames.lookup value with
      | some e => .ok { g with encoding := some e }
      | none => .error .invalidValue

/-- Takes the path of the template, or that of the data once there is a template. -/
def addPath (g : Given) (path : Text) : Except Refusal Given :=
  if path.isEmpty then .error .invalidValue
  else if g.template.isNone then .ok { g with template := some path }
  else .ok { g with data := some path }

def hasConflict (g : Given) : Bool :=
  g.stdin && g.data.isSome || g.strict && g.missing.isSome || g.append && g.noClobber

def finish (g : Given) : Except Refusal Args :=
  if g.hasConflict then .error .conflict
  else match g.template with
    | none => .error .missingRequired
    | some template =>
      if g.data.isNone && !g.stdin then .error .missingRequired
      else .ok
        { template
          data := g.data
          output := g.output
          stdin := g.stdin
          missing := g.missing.getD .undefined
          strict := g.strict
          encoding := g.encoding.getD .utf8
          append := g.append
          noClobber := g.noClobber
          check := g.check
          verbose := g.verbose }

end Given

/-- What has been read but is not settled yet. -/
inductive Pending where
  | nothing
  | awaiting (s : Setting)
  | value (s : Setting) (value : Text)
  | path (path : Text)
  deriving DecidableEq, Repr

def Pending.settle (g : Given) : Pending → Except Refusal Given
  | nothing => .ok g
  | awaiting _ => .error .invalidValue
  | value s v => g.setValue v s
  | path p => g.addPath p

structure Reading where
  given : Given := {}
  pending : Pending := .nothing
  paths : Nat := 0
  onlyPaths : Bool := false
  deriving DecidableEq, Repr

namespace Reading

def settle (r : Reading) : Except Refusal Reading := do
  return { r with given := ← r.pending.settle r.given, pending := .nothing }

def flag (r : Reading) (f : Flag) : Except Refusal Reading := do
  let r ← r.settle
  return { r with given := ← r.given.setFlag f }

def attached (r : Reading) (s : Setting) (value : Text) : Except Refusal Reading := do
  let r ← r.settle
  return { r with given := ← r.given.setValue value s }

def await (r : Reading) (s : Setting) : Except Refusal Reading := do
  return { ← r.settle with pending := .awaiting s }

def path (r : Reading) (p : Text) : Except Refusal Reading :=
  if r.paths < 2 then do
    return { ← r.settle with pending := .path p, paths := r.paths + 1 }
  else .error .unknownArgument

/-- An option by its name, behind which a value may stand after an equals sign. -/
def long (r : Reading) (arg : Text) : Except Refusal Reading :=
  let name := arg.takeWhile (· != '=')
  match longNames.lookup name, arg.drop name.length with
  | none, _ => .error .unknownArgument
  | some (.flag f), [] => r.flag f
  | some (.flag _), _ :: _ => .error .unneededValue
  | some (.setting s), [] => r.await s
  | some (.setting s), _ :: value => r.attached s value

/-- Options by their letters. What follows the letter of a setting is its value, and an equals sign
in front of that does not count. -/
def short (r : Reading) : Text → Except Refusal Reading
  | [] => .ok r
  | c :: rest =>
    match shortNames.lookup c with
    | none => .error .unknownArgument
    | some (.flag f) => do short (← r.flag f) rest
    | some (.setting s) =>
      match rest with
      | [] => r.await s
      | '=' :: value => r.attached s value
      | value => r.attached s value

/-- Reads one argument. A hyphen alone is a value or a path, and two hyphens alone make all further
arguments paths. -/
def step (r : Reading) (arg : Text) : Except Refusal Reading :=
  if r.onlyPaths then r.path arg
  else match arg with
    | ['-', '-'] => .ok { r with onlyPaths := true }
    | '-' :: '-' :: name => r.long name
    | '-' :: c :: rest => r.short (c :: rest)
    | _ =>
      match r.pending with
      | .awaiting s => .ok { r with pending := .value s arg }
      | _ => r.path arg

end Reading

def parse (argv : List Text) : Except Refusal Args := do
  let r ← argv.foldlM Reading.step {}
  (← r.settle).given.finish

end TildeMerge.Command
