import KeyedStore.Attribute.Codec
import KeyedStore.Expression.Aliases
import KeyedStore.Request.Condition

/-! Condition expressions. Conditions become clauses over aliases in their order, joined
by `AND` or `OR`; a condition whose value does not suit its kind is refused, and the
aliases bound until then stay in the tables. -/

namespace KeyedStore

inductive ConditionError where
  | wrongValueType (field : String) (kind : ConditionKind) (expected actual : String)
  | unexpectedValue (field : String) (kind : ConditionKind)
  | unencodable (field : String) (cause : MarshalError)

def ConditionError.message : ConditionError → String
  | wrongValueType field kind expected actual =>
      kind.name ++ " condition on `" ++ field ++ "` value must be " ++ expected ++ ", got " ++
        actual
  | unexpectedValue field kind => kind.name ++ " condition on `" ++ field ++ "` takes no value"
  | unencodable field cause =>
      "condition value for `" ++ field ++ "` cannot be encoded: " ++ cause.message

namespace ConditionKind

def operandName? : ConditionKind → Option String
  | present => none
  | absent => none
  | greaterThan => some "a number"
  | lessThan => some "a number"
  | equal => some "a number or a string"
  | beginsWith => some "a string"

def accepts : ConditionKind → Value → Bool
  | greaterThan, .number _ => true
  | lessThan, .number _ => true
  | equal, .number _ => true
  | equal, .string _ => true
  | beginsWith, .string _ => true
  | _, _ => false

def clauseText (kind : ConditionKind) (name value : String) : String :=
  match kind with
  | present => "attribute_exists(" ++ name ++ ")"
  | absent => "attribute_not_exists(" ++ name ++ ")"
  | greaterThan => name ++ " > " ++ value
  | lessThan => name ++ " < " ++ value
  | equal => name ++ " = " ++ value
  | beginsWith => "begins_with(" ++ name ++ ", " ++ value ++ ")"

end ConditionKind

structure Clause where
  relationship : Relationship
  kind : ConditionKind
  name : String
  value : Option String

namespace Clause

def text (clause : Clause) : String :=
  clause.kind.clauseText clause.name (clause.value.getD "")

def joinedText : List Clause → String
  | [] => ""
  | clause :: rest =>
      " " ++ clause.relationship.keyword ++ " " ++ clause.text ++ joinedText rest

def expression : List Clause → String
  | [] => ""
  | clause :: rest => clause.text ++ joinedText rest

end Clause

namespace Condition

def operand (condition : Condition) : Except ConditionError (Option Attribute) :=
  match condition.kind.operandName?, condition.value with
  | none, none => .ok none
  | none, some _ => .error (.unexpectedValue condition.field condition.kind)
  | some expected, none =>
      .error (.wrongValueType condition.field condition.kind expected "nothing")
  | some expected, some value =>
      if condition.kind.accepts value then
        match value.marshal with
        | .ok encoded => .ok (some encoded)
        | .error cause => .error (.unencodable condition.field cause)
      else .error (.wrongValueType condition.field condition.kind expected value.typeName)

/-- The clause of a condition. The alias of the field is bound before the value is
looked at. -/
def compile (condition : Condition) (aliases : Aliases) :
    Except ConditionError Clause × Aliases :=
  let (name, aliases) := aliases.mintName condition.field
  match condition.operand with
  | .error error => (.error error, aliases)
  | .ok none => (.ok ⟨condition.relationship, condition.kind, name, none⟩, aliases)
  | .ok (some encoded) =>
      let (value, aliases) := aliases.mintValue encoded
      (.ok ⟨condition.relationship, condition.kind, name, some value⟩, aliases)

def compileAll : List Condition → Aliases → Except ConditionError (List Clause) × Aliases
  | [], aliases => (.ok [], aliases)
  | condition :: rest, aliases =>
      match condition.compile aliases with
      | (.error error, aliases) => (.error error, aliases)
      | (.ok clause, aliases) =>
          match compileAll rest aliases with
          | (.error error, aliases) => (.error error, aliases)
          | (.ok clauses, aliases) => (.ok (clause :: clauses), aliases)

end Condition

def compileConditions (conditions : List Condition) (aliases : Aliases) :
    Except ConditionError String × Aliases :=
  match Condition.compileAll conditions aliases with
  | (.error error, aliases) => (.error error, aliases)
  | (.ok clauses, aliases) => (.ok (Clause.expression clauses), aliases)

end KeyedStore
