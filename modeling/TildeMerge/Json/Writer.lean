import TildeMerge.Data.Value
import TildeMerge.Number.Layout

namespace TildeMerge.Json

open Number

def hexDigit (n : Nat) : Char :=
  Nat.digitChar n

def escapeChar (c : Char) : Text :=
  if c == '"' then ['\\', '"']
  else if c == '\\' then ['\\', '\\']
  else if c == '\x08' then ['\\', 'b']
  else if c == '\x0c' then ['\\', 'f']
  else if c == '\n' then ['\\', 'n']
  else if c == '\r' then ['\\', 'r']
  else if c == '\t' then ['\\', 't']
  else if c < ' ' then ['\\', 'u', '0', '0', hexDigit (c.toNat / 16), hexDigit (c.toNat % 16)]
  else [c]

def quote (t : Text) : Text :=
  '"' :: t.flatMap escapeChar ++ ['"']

def boolText (b : Bool) : Text :=
  if b then ['t', 'r', 'u', 'e'] else ['f', 'a', 'l', 's', 'e']

mutual

def write : Value → Text
  | .null => ['n', 'u', 'l', 'l']
  | .bool b => boolText b
  | .int n => intText n
  | .real x => Layout.compact.text x
  | .text t => quote t
  | .list items => '[' :: writeItems items
  | .record fields => '{' :: writeFields fields

def writeItems : List Value → Text
  | [] => [']']
  | v :: rest => write v ++ writeMoreItems rest

def writeMoreItems : List Value → Text
  | [] => [']']
  | v :: rest => ',' :: write v ++ writeMoreItems rest

def writeFields : List (Text × Value) → Text
  | [] => ['}']
  | (k, v) :: rest => quote k ++ ':' :: write v ++ writeMoreFields rest

def writeMoreFields : List (Text × Value) → Text
  | [] => ['}']
  | (k, v) :: rest => ',' :: quote k ++ ':' :: write v ++ writeMoreFields rest

end

end TildeMerge.Json
