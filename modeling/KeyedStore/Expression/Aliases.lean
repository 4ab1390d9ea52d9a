import KeyedStore.Attribute.Basic
import KeyedStore.Text.Integer

/-! Alias tables. Expressions name fields and values only by aliases, and the tables
say what each alias stands for. A new alias is numbered by the size of its table, so
the expressions of one request share tables without clashes. -/

namespace KeyedStore

structure Aliases where
  names : Fields String := []
  values : AttributeMap := []

def numberedText (value : Nat) : String :=
  String.ofList (naturalText value)

namespace Aliases

def empty : Aliases := {}

def isEmpty (aliases : Aliases) : Bool :=
  aliases.names.isEmpty && aliases.values.isEmpty

/-- The alias of the field of a condition. -/
def nameAlias (number : Nat) : String :=
  "#ename" ++ numberedText number

def valueAlias (number : Nat) : String :=
  ":val" ++ numberedText number

/-- The alias of a path segment: the number of its path, and its place in it. -/
def segmentAlias (path place : Nat) : String :=
  "#" ++ numberedText path ++ "ename" ++ numberedText place

def bindName (aliases : Aliases) (label field : String) : Aliases :=
  { aliases with names := aliases.names.set label field }

def mintName (aliases : Aliases) (field : String) : String × Aliases :=
  let label := nameAlias aliases.names.length
  (label, aliases.bindName label field)

def mintValue (aliases : Aliases) (value : Attribute) : String × Aliases :=
  let label := valueAlias aliases.values.length
  (label, { aliases with values := aliases.values.set label value })

end Aliases

end KeyedStore
