import TildeMerge.Text.Basic

namespace TildeMerge

inductive IoError where
  | notFound
  | alreadyExists
  | notADirectory
  | isADirectory
  | nameTooLong
  | nulInName
  | notUtf8
  | other (detail : String)
  deriving DecidableEq, Repr

namespace IoError

def message : IoError → String
  | notFound => "No such file or directory (os error 2)"
  | alreadyExists => "File exists (os error 17)"
  | notADirectory => "Not a directory (os error 20)"
  | isADirectory => "Is a directory (os error 21)"
  | nameTooLong => "File name too long (os error 36)"
  | nulInName => "file name contained an unexpected NUL byte"
  | notUtf8 => "stream did not contain valid UTF-8"
  | other detail => detail

end IoError

inductive Error where
  /-- A block asks for a directive that the table does not hold, or for none. -/
  | unknownDirective (keyword : Text)
  | missingField (path : Text)
  | notACollection (path : Text)
  | invalidRecord
  | notAMapping
  | noRecord
  | io (cause : IoError)
  /-- Something stands where a new file was to be made. -/
  | outputExists (path : Text)
  deriving DecidableEq, Repr

namespace Error

def message : Error → String
  | unknownDirective keyword => "Unknown directive '" ++ String.ofList keyword ++ "'."
  | missingField path => "Missing field '" ++ String.ofList path ++ "'."
  | notACollection path => "Field '" ++ String.ofList path ++ "' is not a collection."
  | invalidRecord => "Data error: Invalid record format"
  | notAMapping => "Data error: record must be a mapping."
  | noRecord => "Data error: no data record given."
  | io cause => "IO error: " ++ cause.message ++ "."
  | outputExists path => "Output '" ++ String.ofList path ++ "' already exists."

end Error

end TildeMerge
