import TildeMerge.Data.Record
import TildeMerge.Error
import TildeMerge.Logged
import TildeMerge.Text.Encoding

namespace TildeMerge

abbrev FileReader := Text → Except IoError Bytes

/-- The text of the template at a path. Bytes that are no UTF-8 are replaced. -/
def loadTemplate (read : FileReader) (p : Text) : Logged Text := do
  Logged.tell (.loadingTemplate p)
  match read p with
  | .ok bytes => return Utf8.decodeLossy bytes
  | .error e => Logged.fail (.io e)

def loadRecord (read : FileReader) (p : Text) : Logged Value := do
  Logged.tell (.loadingRecord p)
  match read p with
  | .ok bytes => Logged.ofExcept (Record.ofFile bytes)
  | .error e => Logged.fail (.io e)

end TildeMerge
