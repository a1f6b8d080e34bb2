import TildeMerge.Command.Args

namespace TildeMerge.Command

def usageLine : String :=
  "Usage: tildetex [OPTIONS] <TEMPLATE> [DATA]"

def helpLines : List String :=
  ["tildetex: fill tilde placeholders in a document template",
    "",
    usageLine,
    "",
    "Arguments:",
    "  <TEMPLATE>  Path to the template file",
    "  [DATA]      JSON or YAML file with the record; needed unless --stdin is given",
    "",
    "Options:",
    "  -o, --output <OUTPUT>      File to write; its name is filled from the record as well",
    "  -s, --stdin                Read the record from the standard input",
    "      --missing <MISSING>    What stands in for a missing field: undefined, empty or strict",
    "      --strict               Fail on the first missing field",
    "      --encoding <ENCODING>  Encoding of the output: utf8, utf8-bom, utf16le or utf16be",
    "      --append               Append to the output file",
    "      --no-clobber           Refuse to replace an output file",
    "      --check                Fail if mark-up is left after rendering",
    "  -v, --verbose              Log every step",
    "  -h, --help                 Print help",
    "  -V, --version              Print version"]

def Refusal.message : Refusal → String
  | missingRequired => "a required argument is missing"
  | conflict => "two arguments exclude each other, or one is given twice"
  | unknownArgument => "there is an argument that is not known"
  | invalidValue => "an argument has no value, or one that is not allowed"
  | unneededValue => "a flag is given a value"
  | helpAsked => "help is asked for"
  | versionAsked => "the version is asked for"

def Refusal.lines (r : Refusal) : List String :=
  ["error: " ++ r.message, "", usageLine, "", "For more information, try --help."]

end TildeMerge.Command
