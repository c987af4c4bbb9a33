import Protoscript.Config
import Protoscript.Message.Basic

/-!
# Script values

A script value is a scalar, a tuple, a name of the schema, or a reference to something that can
change. What can change is a list, a dict, a message, or a view of a repeated or map field; it lies
in a cell of the heap, and every value with the same reference shares it.

* `Value` — script values;
* `Ref` — references, by the shelf of the heap they lead to;
* `Callable` — functions of the `proto` library, and methods bound to a view.
-/

namespace Protoscript

/-- The shelves of the heap. -/
inductive Shelf where
  | list | dict | message | repeated | map
  deriving DecidableEq

/-- A reference to a cell of a shelf. -/
structure Ref (s : Shelf) where
  /-- the place on the shelf -/
  index : Nat
  deriving DecidableEq, Inhabited

/-- A pool with the settings for the messages made from it. -/
structure Loader where
  /-- the types -/
  pool : Pool
  /-- the settings -/
  config : Config
  deriving Inhabited

/-- A value of an enum. The number need not be declared. -/
structure EnumValue where
  /-- the enum -/
  descriptor : EnumDescriptor
  /-- the number -/
  number : Int32

namespace EnumValue

/-- The declared name of the number. -/
def name? (e : EnumValue) : Option String := e.descriptor.nameOf? e.number

/-- The full name of the enum. -/
def enumName (e : EnumValue) : String := e.descriptor.fullName

/-- Equality of enum values: one number, and enums of one full name. -/
def equals (a b : EnumValue) : Bool := a.number == b.number && a.enumName == b.enumName

end EnumValue

/-- A message type as scripts see it. -/
structure MessageType where
  /-- the type -/
  descriptor : MessageDescriptor
  /-- the settings for its messages -/
  config : Config

/-- The top-level types of a package. -/
structure Package where
  /-- where the types are from -/
  loader : Loader
  /-- the name of the package -/
  name : String

/-- The methods of a view of a repeated field. -/
inductive RepeatedMethod where
  | append | clear | extend | index | insert | pop | remove
  deriving DecidableEq

/-- The methods of a view of a map field. -/
inductive MapMethod where
  | clear | get | items | keys | pop | popitem | setdefault | update | values
  deriving DecidableEq

/-- The functions of the `proto` library. -/
inductive Function where
  | package | clear | clone | merge | setDefaults | encodeAny | decodeAny
  | encodeJson | decodeJson | encodeText | decodeText | encodeYaml | decodeYaml
  deriving DecidableEq

/-- A `proto` library: a loader, and what tells the library from others. -/
structure Library where
  /-- the number of the library; its functions are numbered from the next one on -/
  id : Nat
  /-- where its functions look types up -/
  loader : Loader

/-- What can be called besides message types. -/
inductive Callable where
  /-- a method bound to a view of a repeated field, with the type name of the view -/
  | repeated (id : Nat) (receiver : String) (view : Ref .repeated) (method : RepeatedMethod)
  /-- a method bound to a view of a map field, with the type name of the view -/
  | map (id : Nat) (receiver : String) (view : Ref .map) (method : MapMethod)
  /-- a function of a library -/
  | function (library : Library) (function : Function)

/-- A script value. -/
inductive Value where
  /-- the absent value -/
  | absent
  | bool (value : Bool)
  /-- an integer of 128 bits -/
  | int (value : Int)
  | float (value : Double)
  | text (value : String)
  | bytes (value : List UInt8)
  | tuple (items : List Value)
  | list (ref : Ref .list)
  | dict (ref : Ref .dict)
  | message (ref : Ref .message)
  | repeated (ref : Ref .repeated)
  | map (ref : Ref .map)
  | enum (value : EnumValue)
  | messageType (type : MessageType)
  | enumType (descriptor : EnumDescriptor)
  | package (package : Package)
  | callable (callable : Callable)
  | library (library : Library)
  deriving Inhabited

/-- Keyword arguments, in the order of the call. -/
abbrev Keywords := List (String × Value)

namespace RepeatedMethod

/-- The name of a method. -/
def name : RepeatedMethod → String
  | append => "append"
  | clear => "clear"
  | extend => "extend"
  | index => "index"
  | insert => "insert"
  | pop => "pop"
  | remove => "remove"

/-- All methods, by name. -/
def all : List RepeatedMethod := [append, clear, extend, index, insert, pop, remove]

/-- The method of a name. -/
def ofName? (name : String) : Option RepeatedMethod := all.find? fun m => m.name == name

end RepeatedMethod

namespace MapMethod

/-- The name of a method. -/
def name : MapMethod → String
  | clear => "clear"
  | get => "get"
  | items => "items"
  | keys => "keys"
  | pop => "pop"
  | popitem => "popitem"
  | setdefault => "setdefault"
  | update => "update"
  | values => "values"

/-- All methods, by name. -/
def all : List MapMethod := [clear, get, items, keys, pop, popitem, setdefault, update, values]

/-- The method of a name. -/
def ofName? (name : String) : Option MapMethod := all.find? fun m => m.name == name

end MapMethod

namespace Function

/-- The name of a function. -/
def name : Function → String
  | package => "package"
  | clear => "clear"
  | clone => "clone"
  | merge => "merge"
  | setDefaults => "set_defaults"
  | encodeAny => "encode_any"
  | decodeAny => "decode_any"
  | encodeJson => "encode_json"
  | decodeJson => "decode_json"
  | encodeText => "encode_text"
  | decodeText => "decode_text"
  | encodeYaml => "encode_yaml"
  | decodeYaml => "decode_yaml"

/-- All functions, in the order in which a library lists them. -/
def all : List Function := [
  package, clear, clone, merge, setDefaults, encodeAny, decodeAny, encodeJson, decodeJson,
  encodeText, decodeText, encodeYaml, decodeYaml]

/-- The function of a name. -/
def ofName? (name : String) : Option Function := all.find? fun f => f.name == name

/-- The place of a function in its library. -/
def place (f : Function) : Nat := all.findIdx (· == f)

end Function

namespace Callable

/-- The name of what is called. -/
def name : Callable → String
  | repeated _ _ _ m => m.name
  | map _ _ _ m => m.name
  | function _ f => f.name

/-- What tells a callable from others. -/
def identity : Callable → Nat
  | repeated id _ _ _ => id
  | map id _ _ _ => id
  | function library f => library.id + 1 + f.place

end Callable

end Protoscript
