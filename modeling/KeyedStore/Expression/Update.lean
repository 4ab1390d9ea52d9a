import KeyedStore.Attribute.Codec
import KeyedStore.Expression.Path
import KeyedStore.Request.Update

/-! Update expressions: one `SET` clause of assignments and one `REMOVE` clause of paths,
each in the order of the updates. The backend has no operator for the end of a list; an
assignment far past the end appends, so the n-th append of an expression assigns to
position 999000 + n. -/

namespace KeyedStore

inductive UpdateError where
  | noUpdates
  | badPath (fault : PathFault) (path : String)
  | removesAppendMarker (path : String)
  | emptyString (path : String)
  | unencodable (cause : MarshalError)

/-- The first position assigned to by an append. -/
def firstAppendPosition : Nat := 999000

inductive UpdateClause where
  | assign (path : PathExpression) (value : String)
  | remove (steps : List Step)

namespace UpdateClause

/-- The assignments in their order, the appends numbered from a given count on. -/
def assignments : Nat → List UpdateClause → List (List Step × String)
  | _, [] => []
  | appends, .assign path value :: rest =>
      if path.append then
        (path.steps ++ [.position (numberedText (firstAppendPosition + appends))], value) ::
          assignments (appends + 1) rest
      else (path.steps, value) :: assignments appends rest
  | appends, .remove _ :: rest => assignments appends rest

def removals : List UpdateClause → List (List Step)
  | [] => []
  | .assign _ _ :: rest => removals rest
  | .remove steps :: rest => steps :: removals rest

def section? (keyword : String) (entries : List String) : List String :=
  if entries.isEmpty then [] else [keyword ++ " " ++ String.intercalate ", " entries]

def expression (clauses : List UpdateClause) : String :=
  let set := (assignments 0 clauses).map fun (steps, value) => Step.text steps ++ " = " ++ value
  let remove := (removals clauses).map Step.text
  String.intercalate " " (section? "SET" set ++ section? "REMOVE" remove)

end UpdateClause

namespace Update

def assigned (update : Update) : Except UpdateError Attribute :=
  if update.value.isEmptyString then .error (.emptyString update.path)
  else
    match update.value.marshal with
    | .ok encoded => .ok encoded
    | .error cause => .error (.unencodable cause)

def compile (number : Nat) (update : Update) (aliases : Aliases) :
    Except UpdateError UpdateClause × Aliases :=
  match compilePath update.path number aliases with
  | (.error fault, aliases) => (.error (.badPath fault update.path), aliases)
  | (.ok path, aliases) =>
      match update.action with
      | .delete =>
          if path.append then (.error (.removesAppendMarker update.path), aliases)
          else (.ok (.remove path.steps), aliases)
      | _ =>
          match update.assigned with
          | .error error => (.error error, aliases)
          | .ok encoded =>
              let (value, aliases) := aliases.mintValue encoded
              (.ok (.assign path value), aliases)

def compileAll : Nat → List Update → Aliases →
    Except UpdateError (List UpdateClause) × Aliases
  | _, [], aliases => (.ok [], aliases)
  | number, update :: rest, aliases =>
      match update.compile number aliases with
      | (.error error, aliases) => (.error error, aliases)
      | (.ok clause, aliases) =>
          match compileAll (number + 1) rest aliases with
          | (.error error, aliases) => (.error error, aliases)
          | (.ok clauses, aliases) => (.ok (clause :: clauses), aliases)

end Update

/-- The update expression of some updates, and the tables it needs. Paths are numbered
from the size of the name table on. -/
def compileUpdates (updates : List Update) (aliases : Aliases) :
    Except UpdateError String × Aliases :=
  if updates.isEmpty then (.error .noUpdates, aliases)
  else
    match Update.compileAll aliases.names.length updates aliases with
    | (.error error, aliases) => (.error error, aliases)
    | (.ok clauses, aliases) => (.ok (UpdateClause.expression clauses), aliases)

end KeyedStore
