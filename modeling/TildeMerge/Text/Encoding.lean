import TildeMerge.Text.Utf8
import TildeMerge.Text.Utf16

namespace TildeMerge

inductive Encoding where
  | utf8
  /-- UTF-8 with a byte order mark in front. -/
  | utf8Bom
  | utf16Little
  | utf16Big
  deriving DecidableEq, Repr

namespace Encoding

def byteOrderMark : Bytes := [0xEF, 0xBB, 0xBF]

def encode : Encoding → Text → Bytes
  | utf8, t => Utf8.encode t
  | utf8Bom, t => byteOrderMark ++ Utf8.encode t
  | utf16Little, t => Utf16.encodeLittle t
  | utf16Big, t => Utf16.encodeBig t

end Encoding

end TildeMerge
