import TildeMerge.Error
import TildeMerge.Json.Reader
import TildeMerge.Text.Blank
import TildeMerge.Text.Utf8
import TildeMerge.Yaml.Reader

namespace TildeMerge.Record

/-- The value of a text in the first of the two formats that it has. -/
def readValue (t : Text) : Option Value :=
  match Json.read t with
  | some v => some v
  | none => Yaml.read t

def parse (t : Text) : Except Error Value :=
  match readValue t with
  | none => .error .invalidRecord
  | some v => if v.isRecord then .ok v else .error .notAMapping

def ofFile (bytes : Bytes) : Except Error Value :=
  match Utf8.decode? bytes with
  | none => .error (.io .notUtf8)
  | some t => parse t

/-- The record in the bytes of a stream, where white space around it is dropped. -/
def ofStream (bytes : Bytes) : Except Error Value :=
  match Utf8.decode? bytes with
  | none => .error (.io .notUtf8)
  | some t => parse t.trim

end TildeMerge.Record
