import Protoscript.Script.Contents
import Protoscript.Text.Quoted
import Protoscript.TextForm.Writer

/-!
# The texts of values and errors

* `Heap.repr` — a value as a script would write it; messages show their text form;
* `Heap.message` — the wording of an error.

Both follow references only as deep as the heap has cells; what lies deeper is shown as three dots.
-/

namespace Protoscript

/-- An enum value: its type, its name if it has one, and its number. -/
def EnumValue.repr (e : EnumValue) : String :=
  match e.name? with
  | some name => "<" ++ e.enumName ++ " " ++ name ++ "=" ++ toString e.number ++ ">"
  | none => "<" ++ e.enumName ++ " " ++ toString e.number ++ ">"

/-- A message type. -/
def MessageType.repr (t : MessageType) : String :=
  "<proto.MessageType \"" ++ t.descriptor.fullName ++ "\">"

/-- An enum type. -/
def EnumDescriptor.repr (d : EnumDescriptor) : String := "<proto.EnumType \"" ++ d.fullName ++ "\">"

/-- A package. -/
def Package.repr (p : Package) : String := "<proto.Package \"" ++ p.name ++ "\">"

/-- A function, or a method with the type of what it is bound to. -/
def Callable.repr (c : Callable) : String :=
  let method (receiver : String) : String :=
    "<built-in method " ++ c.name ++ " of " ++ receiver ++ " value>"
  match c with
  | .repeated _ receiver _ _ => method receiver
  | .map _ receiver _ _ => method receiver
  | .function _ _ => "<built-in function " ++ c.name ++ ">"

/-- The wording of a fault of a text form. -/
def TextFault.message : TextFault → String
  | malformed => "malformed text"
  | unfitting => "the text does not fit the message type"
  | unwritable => "the message cannot be written"

namespace Heap

/-- A text of a message: its name alone if it has no text form, else both. -/
def messageRepr (name text : String) : String :=
  if text.isEmpty then "<" ++ name ++ ">" else "<" ++ name ++ " " ++ text ++ ">"

/-- Texts with commas between them. -/
def commaSeparated (texts : List String) : String := String.intercalate ", " texts

mutual

/-- The text of a value, with references followed at most `depth` deep. -/
def reprWithin (h : Heap) (depth : Nat) : Value → String
  | .absent => "None"
  | .bool b => if b then "True" else "False"
  | .int n => toString n
  | .float x => x.repr
  | .text s => quoteText s
  | .bytes b => quoteBytes b
  | .tuple items =>
    "(" ++ commaSeparated (tupleReprs h depth items) ++ (if items.length = 1 then ",)" else ")")
  | .list r =>
    match depth with
    | 0 => "[...]"
    | depth + 1 => "[" ++ commaSeparated ((h.cell r).items.map (reprWithin h depth)) ++ "]"
  | .repeated r =>
    match depth with
    | 0 => "[...]"
    | depth + 1 => "[" ++ commaSeparated ((h.cell r).items.map (reprWithin h depth)) ++ "]"
  | .dict r =>
    match depth with
    | 0 => "\x7b...\x7d"
    | depth + 1 =>
      "\x7b" ++ commaSeparated ((h.cell r).entries.map fun e =>
        reprWithin h depth e.1 ++ ": " ++ reprWithin h depth e.2) ++ "\x7d"
  | .map r =>
    match depth with
    | 0 => "\x7b...\x7d"
    | depth + 1 =>
      "\x7b" ++ commaSeparated ((h.cell r).entries.map fun e =>
        reprWithin h depth e.1 ++ ": " ++ reprWithin h depth e.2) ++ "\x7d"
  | .message r =>
    match h.contents r, depth with
    | .ok m, _ => messageRepr (h.fullName r) m.text
    | .error _, 0 => "<" ++ h.fullName r ++ " !...>"
    | .error e, depth + 1 => "<" ++ h.fullName r ++ " !" ++ messageWithin h depth e ++ ">"
  | .enum e => e.repr
  | .messageType t => t.repr
  | .enumType d => d.repr
  | .package p => p.repr
  | .callable c => c.repr
  | .library _ => "<module \"proto\">"
termination_by v => (depth, sizeOf v)

/-- The texts of the items of a tuple. -/
def tupleReprs (h : Heap) (depth : Nat) : List Value → List String
  | [] => []
  | v :: rest => reprWithin h depth v :: tupleReprs h depth rest
termination_by items => (depth, sizeOf items)

/-- The wording of an error, with references followed at most `depth` deep. -/
def messageWithin (h : Heap) (depth : Nat) : Error → String
  | .typeMismatch value expected =>
    "TypeError: value " ++ reprWithin h depth value ++ " (type `" ++ h.typeName value ++
      "') can't be assigned to type `" ++ expected ++ "'."
  | .notAMap field =>
    "TypeError: value " ++ field ++ " (type `field') can't be assigned to type `map'."
  | .absentRefused expected =>
    "TypeError: value None can't be assigned to type `" ++ expected ++ "' in proto3 mode."
  | .overflow value target =>
    "ValueError: value " ++ toString value ++ " overflows type \"" ++ target ++ "\"."
  | .messageTypeMismatch expected got =>
    "TypeError: message of type `" ++ got ++ "' can't be assigned to type `" ++ expected ++ "'."
  | .fieldNotFound message field =>
    "AttributeError: " ++ message ++ " has no field \"" ++ field ++ "\""
  | .typeNotFound name => "Protobuf type \"" ++ name ++ "\" not found"
  | .enumValueNotFound enumName name =>
    "proto.EnumType " ++ enumName ++ " has no such field: " ++ name
  | .noSuchAttribute typeName name =>
    "AttributeError: " ++ typeName ++ " has no attribute \"" ++ name ++ "\""
  | .indexOutOfRange index length =>
    "IndexError: index " ++ toString index ++ " out of range: length is " ++ toString length
  | .keyNotFound key => "KeyError: key " ++ reprWithin h depth key ++ " not in map"
  | .emptyMap => "KeyError: key popitem(): map is empty not in map"
  | .elementNotFound element => "ValueError: " ++ reprWithin h depth element ++ " not found in list"
  | .frozen verb target => "cannot " ++ verb ++ " frozen " ++ target
  | .mergeMismatch dst src =>
    "merge: types are not compatible: `" ++ dst ++ "' <- `" ++ src ++ "'"
  | .unsupportedOperation op operands =>
    "TypeError: unsupported operation " ++ op ++ " for " ++ operands
  | .unhashable typeName => "TypeError: unhashable type: " ++ typeName
  | .notCallable typeName => "TypeError: value of type " ++ typeName ++ " is not callable"
  | .positionalArguments callee => callee ++ ": unexpected positional arguments"
  | .unexpectedKeyword callee name =>
    callee ++ ": unexpected keyword argument \"" ++ name ++ "\""
  | .missingArgument callee name => callee ++ ": missing argument for " ++ name
  | .duplicateArgument callee name =>
    callee ++ ": got multiple values for parameter \"" ++ name ++ "\""
  | .tooManyArguments callee max got =>
    callee ++ ": got " ++ toString got ++ " positional arguments, want at most " ++ toString max
  | .argumentType callee param expected got =>
    callee ++ ": for parameter " ++ param ++ ": got " ++ got ++ ", want " ++ expected
  | .notAnAny fullName => "decode_any: expected google.protobuf.Any, got " ++ fullName
  | .json fault => "JSON codec error: " ++ fault.message
  | .textForm fault => "text format error: " ++ fault.message
  | .yaml fault => "YAML codec error: " ++ fault.message
  | .wire => "protobuf decode error: malformed bytes"
  | .schema fault => "descriptor error: " ++ fault.message
  | .config (.unreadable path) =>
    "configuration error: Failed to read " ++ path ++ ": no such file"
  | .config .malformed => "configuration error: Failed to parse YAML: malformed document"
  | .cyclic => "TypeError: value contains itself"
termination_by e => (depth, sizeOf e)

end

/-- The text of a value. -/
def repr (h : Heap) (v : Value) : String := h.reprWithin (h.size + 1) v

/-- The wording of an error. -/
def message (h : Heap) (e : Error) : String := h.messageWithin (h.size + 1) e

end Heap

end Protoscript
