import KeyedStore.Expression.Aliases
import KeyedStore.Text.Segments

/-! Paths in update expressions. Names become aliases joined by points, digits become
list positions in brackets as they are written, and a last `-` asks for the end of the
list before it. -/

namespace KeyedStore

inductive PathFault where
  | emptyPath
  | emptySegment
  | misplacedAppend
  | positionWithoutName
  deriving DecidableEq

def PathFault.message : PathFault → String
  | emptyPath => "empty path"
  | emptySegment => "empty segment"
  | misplacedAppend => "append marker must be the last segment of a list path"
  | positionWithoutName => "list index without an attribute"

inductive Step where
  | name (label : String)
  | position (digits : String)
  deriving DecidableEq

namespace Step

def tailText : List Step → String
  | [] => ""
  | .name label :: rest => "." ++ label ++ tailText rest
  | .position digits :: rest => "[" ++ digits ++ "]" ++ tailText rest

def text : List Step → String
  | .name label :: rest => label ++ tailText rest
  | steps => tailText steps

end Step

/-- The steps of a path, and whether it asks for the end of the list they lead to. -/
structure PathExpression where
  steps : List Step
  append : Bool

def appendMarker : String := "-"

def isPosition (segment : String) : Bool :=
  segment.toList.all Char.isDigit

/-- The steps of the segments from a place on. Aliases carry the number of the path. -/
def compileSegments (number : Nat) :
    Nat → List String → Aliases → Except PathFault PathExpression × Aliases
  | _, [], aliases => (.ok ⟨[], false⟩, aliases)
  | place, segment :: rest, aliases =>
      if segment.isEmpty then (.error .emptySegment, aliases)
      else if segment = appendMarker then
        if place = 0 ∨ rest ≠ [] then (.error .misplacedAppend, aliases)
        else (.ok ⟨[], true⟩, aliases)
      else if isPosition segment then
        if place = 0 then (.error .positionWithoutName, aliases)
        else
          match compileSegments number (place + 1) rest aliases with
          | (.error fault, aliases) => (.error fault, aliases)
          | (.ok path, aliases) => (.ok ⟨.position segment :: path.steps, path.append⟩, aliases)
      else
        let label := Aliases.segmentAlias number place
        match compileSegments number (place + 1) rest (aliases.bindName label segment) with
        | (.error fault, aliases) => (.error fault, aliases)
        | (.ok path, aliases) => (.ok ⟨.name label :: path.steps, path.append⟩, aliases)

def compilePath (path : String) (number : Nat) (aliases : Aliases) :
    Except PathFault PathExpression × Aliases :=
  if (stripSlash path.toList).isEmpty then (.error .emptyPath, aliases)
  else compileSegments number 0 (pathSegments path) aliases

end KeyedStore
