import TildeMerge.Markup.Leftover
import TildeMerge.Render.Directive
import TildeMerge.Text.Blank

namespace TildeMerge

open Markup

structure Engine where
  directives : Directives := .standard
  options : Options := {}

namespace Engine

def register (e : Engine) (keyword : Text) (directive : Directive) : Engine :=
  { e with directives := e.directives.register keyword directive }

def scalarPass (e : Engine) (t : Text) (record : Value) : Logged Text := do
  Logged.tell .scalarPass
  splice (resolveIn record e.options.missing) (scalarPieces t)

def renderBlock (e : Engine) (region : Text) (record : Value) : Logged Text :=
  match Head.parse region.firstLine with
  | none => Logged.fail (.unknownDirective region.firstLine.trim)
  | some head => do
    Logged.tell (.renderingBlock head.directive (head.collection.getD []))
    e.directives.dispatch head (bodyOf region) record e.options

def renderSections (e : Engine) (record : Value) : List Section → Logged Text
  | [] => return []
  | .plain c :: rest => (c :: ·) <$> renderSections e record rest
  | .block region :: rest => do
    let text ← e.renderBlock region record
    (text ++ ·) <$> renderSections e record rest

def reportUnclosed : List Leftover → Logged Unit
  | [] => return ()
  | l :: rest => do
    if l.isUnclosed then Logged.tell (.unclosed l.token)
    reportUnclosed rest

/-- The second pass. Openers without a closer can stand only behind the last block. -/
def blockPass (e : Engine) (t : Text) (record : Value) : Logged Text := do
  Logged.tell .blockPass
  let text ← e.renderSections record (sections t)
  reportUnclosed (leftovers (tail (sections t)))
  return text

/-- Both passes. The first one also fills the placeholders inside blocks, and the second one reads the
text with the values in it. -/
def render (e : Engine) (template : Text) (record : Value) : Logged Text := do
  let text ← e.scalarPass template record
  e.blockPass text record

end Engine

end TildeMerge
