import KeyedStore.Json.Mismatch

/-! Typed views of JSON trees. A decoder takes a whole tree or says why the tree does
not fit; the first misfit in the order of the tree is the one reported. -/

namespace KeyedStore

abbrev Decoder (α : Type) := Json → Except Mismatch α

namespace Decoder

variable {α : Type}

def tree : Decoder Json := .ok

def bool : Decoder Bool
  | .bool flag => .ok flag
  | found => .error (.wrongType found "a boolean")

def string : Decoder String
  | .string text => .ok text
  | found => .error (.wrongType found "a string")

/-- An integer between two bounds, the greater one excluded. Doubles are refused, also
whole ones. -/
def integer (least bound : Int) (expected : String) : Decoder Int
  | .integer value =>
      if least ≤ value ∧ value < bound then .ok value else .error (.outOfRange value expected)
  | found => .error (.wrongType found expected)

def int64 : Decoder Int :=
  integer (-signedBound) signedBound "i64"

def byte : Decoder Int :=
  integer 0 256 "u8"

def count : Decoder UInt64 := fun json => do
  let value ← integer 0 wordBound "usize" json
  return UInt64.ofNat value.toNat

def number : Decoder Number
  | .integer value => .ok (.ofInt value)
  | .float value => .ok (.finite value)
  | found => .error (.wrongType found "f64")

def optional (decode : Decoder α) : Decoder (Option α)
  | .null => .ok none
  | json => (decode json).map some

def list (decode : Decoder α) : Decoder (List α)
  | .array elements => elements.mapM decode
  | found => .error (.wrongType found "a sequence")

def fields (decode : Decoder α) : Decoder (Fields α)
  | .object members => Fields.traverse decode members
  | found => .error (.wrongType found "a map")

/-- One of some named choices: its name, or an object that has its name as the only
member and null for it. -/
def choice (choices : List (String × α)) : Decoder α := fun json =>
  let find (name : String) : Except Mismatch α :=
    match choices.lookup name with
    | some value => .ok value
    | none => .error (.unknownVariant name (choices.map Prod.fst))
  match json with
  | .string name => find name
  | .object [(name, payload)] => do
      let value ← find name
      match payload with
      | .null => return value
      | found => .error (.wrongType found "unit")
  | .object _ => .error .notSingle
  | found => .error (.wrongType found "string or map")

def check (decode : Decoder α) : Decoder Unit := fun json =>
  (decode json).map fun _ => ()

end Decoder

/-- A record as a tree: named members, or the values of the fields in their order. -/
inductive Record where
  | named (members : Fields Json)
  | listed (elements : List Json)

namespace Record

variable {α : Type}

structure Layout where
  name : String
  fields : List (String × Decoder Unit)

def Layout.expected (layout : Layout) : String :=
  layout.name ++ " with " ++ String.ofList (naturalText layout.fields.length) ++ " elements"

/-- The first member, in name order, that does not fit its field. Other members are
ignored. -/
def checkMembers (layout : Layout) : Fields Json → Except Mismatch Unit
  | [] => .ok ()
  | (name, value) :: rest => do
      match layout.fields.lookup name with
      | some decode => decode value
      | none => .ok ()
      checkMembers layout rest

def ofJson (layout : Layout) : Decoder Record
  | .object members => do
      checkMembers layout members
      return .named members
  | .array elements => .ok (.listed elements)
  | found => .error (.wrongType found layout.name)

def field (record : Record) (layout : Layout) (place : Nat) (name : String)
    (decode : Decoder α) : Except Mismatch α :=
  match record with
  | .named members =>
      match members.get? name with
      | some value => decode value
      | none => .error (.missingField name)
  | .listed elements =>
      match elements[place]? with
      | some value => decode value
      | none => .error (.tooShort elements.length layout.expected)

def optionalField (record : Record) (layout : Layout) (place : Nat) (name : String)
    (decode : Decoder α) : Except Mismatch (Option α) :=
  match record with
  | .named members =>
      match members.get? name with
      | some value => Decoder.optional decode value
      | none => .ok none
  | .listed _ => record.field layout place name (Decoder.optional decode)

def finish (record : Record) (layout : Layout) : Except Mismatch Unit :=
  match record with
  | .named _ => .ok ()
  | .listed elements =>
      if elements.length ≤ layout.fields.length then .ok ()
      else .error (.tooLong elements.length)

end Record

end KeyedStore
