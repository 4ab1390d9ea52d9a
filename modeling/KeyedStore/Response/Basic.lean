import KeyedStore.Attribute.Codec

/-! Responses: the rows of an operation as the backend sent them, with views of their
fields. A view of a row or a field that is not there is absent. -/

namespace KeyedStore

structure Response where
  items : List AttributeMap := []
  attributes : Option AttributeMap := none
  pageCount : Nat := 0
  lastKey : Option AttributeMap := none

namespace Response

def ofItems (items : List AttributeMap) : Response :=
  { items }

def ofAttributes (attributes : Option AttributeMap) : Response :=
  { attributes }

def itemCount (response : Response) : Nat :=
  response.items.length

def attribute? (response : Response) (index : Nat) (name : String) : Option Attribute := do
  let row ← response.items[index]?
  row.get? name

def value? (response : Response) (index : Nat) (name : String) : Option Value := do
  let found ← response.attribute? index name
  found.unmarshal.toOption

def string? (response : Response) (index : Nat) (name : String) : Option String :=
  match response.attribute? index name with
  | some (.string text) => some text
  | _ => none

def numberText? (response : Response) (index : Nat) (name : String) : Option (List Char) :=
  match response.attribute? index name with
  | some (.number text) => some (trimBlanks text.toList)
  | _ => none

def number? (response : Response) (index : Nat) (name : String) : Option Number := do
  Number.read? (← response.numberText? index name)

def integer? (response : Response) (index : Nat) (name : String) : Option Int := do
  readInt64? (← response.numberText? index name)

def bool? (response : Response) (index : Nat) (name : String) : Option Bool :=
  match response.attribute? index name with
  | some (.bool flag) => some flag
  | _ => none

def stringList? (response : Response) (index : Nat) (name : String) :
    Option (List String) :=
  match response.attribute? index name with
  | some (.stringSet texts) => some texts
  | some (.list elements) => elements.mapM fun
      | .string text => some text
      | _ => none
  | _ => none

end Response

end KeyedStore
