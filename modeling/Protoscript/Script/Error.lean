import Protoscript.Schema.Resolve
import Protoscript.Script.Heap

/-!
# What can go wrong

An error says what went wrong and to which values; its wording is made where it is shown, because the
text of a value depends on the heap.

* `Error` — the causes, `ErrorKind` — their coarse classes, `Error.kind`;
* `Script` — computations that read and write the heap and may fail. A failure keeps the heap as it
  was when it happened.
-/

namespace Protoscript

/-- Classes of errors. -/
inductive ErrorKind where
  /-- a value of the wrong type -/
  | type
  /-- a number out of range -/
  | value
  /-- an unknown name, key or index -/
  | lookup
  /-- a change to something frozen -/
  | frozen
  /-- two message types that do not go together -/
  | mismatch
  /-- the wrong arguments -/
  | argument
  /-- a text or byte sequence that cannot be read or written -/
  | codec
  /-- unusable settings -/
  | config
  deriving DecidableEq

/-- Where a text form of a message fails. -/
inductive TextFault where
  /-- the text is not of the format -/
  | malformed
  /-- the text does not describe a message of the type -/
  | unfitting
  /-- the message has no such form -/
  | unwritable
  deriving DecidableEq

/-- Why the settings cannot be read. -/
inductive ConfigFault where
  | unreadable (path : String)
  | malformed
  deriving DecidableEq

/-- What went wrong. -/
inductive Error where
  /-- a value that the expected type does not take -/
  | typeMismatch (value : Value) (expected : String)
  /-- a field that is no map where a map field is wanted -/
  | notAMap (field : String)
  /-- the absent value for a field that does not take it -/
  | absentRefused (expected : String)
  /-- an integer out of the range of its target -/
  | overflow (value : Int) (target : String)
  /-- a message of another type than the field's -/
  | messageTypeMismatch (expected got : String)
  | fieldNotFound (message field : String)
  | typeNotFound (name : String)
  | enumValueNotFound (enumName name : String)
  | noSuchAttribute (typeName name : String)
  | indexOutOfRange (index : Int) (length : Nat)
  | keyNotFound (key : Value)
  /-- an entry is to be taken from a map that has none -/
  | emptyMap
  | elementNotFound (element : Value)
  /-- a change to something frozen; the verb says which change -/
  | frozen (verb target : String)
  | mergeMismatch (dst src : String)
  | unsupportedOperation (op operands : String)
  | unhashable (typeName : String)
  | notCallable (typeName : String)
  | positionalArguments (callee : String)
  | unexpectedKeyword (callee name : String)
  | missingArgument (callee name : String)
  | duplicateArgument (callee name : String)
  | tooManyArguments (callee : String) (max got : Nat)
  | argumentType (callee param expected got : String)
  | notAnAny (fullName : String)
  | json (fault : TextFault)
  | textForm (fault : TextFault)
  | yaml (fault : TextFault)
  /-- bytes that are no message of the type -/
  | wire
  | schema (fault : SchemaError)
  | config (fault : ConfigFault)
  /-- values that contain themselves -/
  | cyclic

/-- The class of an error. -/
def Error.kind : Error → ErrorKind
  | typeMismatch _ _ | notAMap _ | absentRefused _ | messageTypeMismatch _ _
  | unsupportedOperation _ _ | unhashable _ | notCallable _ | notAnAny _ | cyclic => .type
  | overflow _ _ => .value
  | fieldNotFound _ _ | typeNotFound _ | enumValueNotFound _ _ | noSuchAttribute _ _
  | indexOutOfRange _ _ | keyNotFound _ | emptyMap | elementNotFound _ => .lookup
  | frozen _ _ => .frozen
  | mergeMismatch _ _ => .mismatch
  | positionalArguments _ | unexpectedKeyword _ _ | missingArgument _ _ | duplicateArgument _ _
  | tooManyArguments _ _ _ | argumentType _ _ _ _ => .argument
  | json _ | textForm _ | yaml _ | wire | schema _ => .codec
  | config _ => .config

/-- A computation that reads and writes the heap and may fail. -/
abbrev Script := ExceptT Error (StateM Heap)

/-- A computation that only reads the heap, as one that may write it. -/
def Script.reading (f : Heap → Except Error α) : Script α :=
  fun h => (f h, h)

/-- A result that does not depend on the heap. -/
def Script.ofExcept (r : Except Error α) : Script α := fun h => (r, h)

end Protoscript
