import KeyedStore.Text.Integer
import KeyedStore.Text.Quoted

/-! Options that a store is opened with. A value is held as it was given; its type
matters only where it is read. -/

namespace KeyedStore

inductive StoreOption where
  | session
  | endpoint
  | tablePrefix
  deriving DecidableEq

def StoreOption.name : StoreOption → String
  | session => "Session"
  | endpoint => "Endpoint"
  | tablePrefix => "TablePrefix"

inductive Handle (Session : Type) where
  | word (value : UInt32)
  | flag (value : Bool)
  | session (value : Session)

structure HandleType (Session Content : Type) where
  name : String
  content? : Handle Session → Option Content

namespace HandleType

variable {Session : Type}

def word : HandleType Session UInt32 where
  name := "u32"
  content?
    | .word value => some value
    | _ => none

def flag : HandleType Session Bool where
  name := "bool"
  content?
    | .flag value => some value
    | _ => none

def session (name : String) : HandleType Session Session where
  name := name
  content?
    | .session value => some value
    | _ => none

end HandleType

inductive OptionValue (Session : Type) where
  | text (value : String)
  | integer (value : Int)
  | handle (value : Handle Session)

namespace OptionValue

variable {Session : Type}

def typeName : OptionValue Session → String
  | text _ => "string"
  | integer _ => "integer"
  | handle _ => "handle"

def shown : OptionValue Session → String
  | text value => "Str(" ++ quoteReadable value ++ ")"
  | integer value => "Int(" ++ String.ofList (integerText value) ++ ")"
  | handle _ => "Handle(..)"

end OptionValue

structure OptionError where
  option : StoreOption
  expected : String
  actual : String
  deriving DecidableEq

def OptionError.message (error : OptionError) : String :=
  "option " ++ error.option.name ++ " holds a " ++ error.actual ++ ", expected " ++
    error.expected

structure Options (Session : Type) where
  session : Option (OptionValue Session) := none
  endpoint : Option (OptionValue Session) := none
  tablePrefix : Option (OptionValue Session) := none

namespace Options

variable {Session Content : Type}

def get? (options : Options Session) : StoreOption → Option (OptionValue Session)
  | .session => options.session
  | .endpoint => options.endpoint
  | .tablePrefix => options.tablePrefix

def set (options : Options Session) (option : StoreOption) (value : OptionValue Session) :
    Options Session :=
  match option with
  | .session => { options with session := some value }
  | .endpoint => { options with endpoint := some value }
  | .tablePrefix => { options with tablePrefix := some value }

def getText? (options : Options Session) (option : StoreOption) :
    Except OptionError (Option String) :=
  match options.get? option with
  | none => .ok none
  | some (.text value) => .ok (some value)
  | some other => .error ⟨option, "string", other.typeName⟩

def getInteger? (options : Options Session) (option : StoreOption) :
    Except OptionError (Option Int) :=
  match options.get? option with
  | none => .ok none
  | some (.integer value) => .ok (some value)
  | some other => .error ⟨option, "integer", other.typeName⟩

def getHandle? (options : Options Session) (handles : HandleType Session Content)
    (option : StoreOption) : Except OptionError (Option Content) :=
  match options.get? option with
  | none => .ok none
  | some (.handle value) =>
      match handles.content? value with
      | some content => .ok (some content)
      | none => .error ⟨option, handles.name, "handle of another type"⟩
  | some other => .error ⟨option, "handle", other.typeName⟩

end Options

end KeyedStore
