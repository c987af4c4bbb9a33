import Protoscript.Json.OfMessage
import Protoscript.Json.Reader
import Protoscript.Json.ToMessage
import Protoscript.Json.Writer
import Protoscript.Script.Types
import Protoscript.TextForm.Reader
import Protoscript.Yaml.OfJson
import Protoscript.Yaml.ToJson

/-!
# The `proto` library

The functions that scripts find in the `proto` library: packages by name, operations on whole
messages, messages packed into `google.protobuf.Any`, and the three text forms of messages.

* `Message.pack`, `Message.unpack` — to and from `google.protobuf.Any`;
* `Script.callFunction` — the functions.

Whatever a function makes from a message takes the settings of the message; what it reads from a text
takes those of the type.
-/

namespace Protoscript

/-! ## Packed messages -/

/-- A message packed into a `google.protobuf.Any` of the same pool. -/
def Message.pack (m : Message) (config : Config) : Except Error Message :=
  match m.descriptor.pool.message? anyFullName with
  | some d => .ok (.packing (.empty d) (config.typeUrl m.fullName) m.toWire)
  | none => .error (.typeNotFound anyFullName)

/-- The part of a type URL after its last slash. -/
def typeNameOfUrl (url : String) : String :=
  String.ofList (url.toList.reverse.takeWhile (· != '/')).reverse

/-- The type URL in an Any message. -/
def Message.anyUrl (m : Message) : String :=
  match (m.descriptor.field? "type_url").map m.get with
  | some (.scalar (.text url)) => url
  | _ => ""

/-- The packed bytes in an Any message. -/
def Message.anyBytes (m : Message) : List UInt8 :=
  match (m.descriptor.field? "value").map m.get with
  | some (.scalar (.bytes b)) => b
  | _ => []

/-- The message in a `google.protobuf.Any`; its type is looked up in a pool. -/
def Message.unpack (m : Message) (pool : Pool) : Except Error Message :=
  if m.fullName != anyFullName then .error (.notAnAny m.fullName)
  else
    match pool.message? (typeNameOfUrl m.anyUrl) with
    | none => .error (.typeNotFound (typeNameOfUrl m.anyUrl))
    | some d =>
      match Message.ofWire? d m.anyBytes with
      | some payload => .ok payload
      | none => .error .wire

namespace Script

/-! ## Arguments -/

/-- An argument that must be a message. -/
def messageArgument (callee param : String) (value : Value) : Script (Ref .message) := do
  match value with
  | .message r => return r
  | value => throw (.argumentType callee param "proto.Message" ((← get).typeName value))

/-- An argument that must be a message type. -/
def typeArgument (callee param : String) (value : Value) : Script MessageType := do
  match value with
  | .messageType t => return t
  | value => throw (.argumentType callee param "proto.MessageType" ((← get).typeName value))

/-- An argument that must be a text. -/
def textArgument (callee param : String) (value : Value) : Script String := do
  match value with
  | .text s => return s
  | value => throw (.argumentType callee param "string" ((← get).typeName value))

/-- An argument that is true unless it is given, and must be a boolean. -/
def flagArgument (callee param : String) (value : Option Value) : Script Bool := do
  match value with
  | none => return true
  | some (.bool b) => return b
  | some value => throw (.argumentType callee param "bool" ((← get).typeName value))

/-! ## Text forms -/

/-- The JSON tree of a message. -/
def jsonOf (m : Message) : Script Json := do
  match m.toJson? with
  | some j => return j
  | none => throw (.json .unwritable)

/-- The message of a type that a JSON tree describes. -/
def messageOfJson (t : MessageType) (j : Json) : Script Value := do
  match Message.ofJson? t.descriptor j with
  | some m => newMessage m t.config
  | none => throw (.json .unfitting)

/-- A message as JSON, on one line or indented. -/
def encodeJson (r : Ref .message) (compact : Bool) : Script Value := do
  let j ← jsonOf (← contents r)
  if compact then return .text j.compact
  else return .text (j.pretty (← cell r).config.jsonIndent)

/-- The message of a type that a JSON text describes. -/
def decodeJson (t : MessageType) (s : String) : Script Value := do
  match Json.ofText? s with
  | some j => messageOfJson t j
  | none => throw (.json .malformed)

/-- A message in text form, on one line or indented. -/
def encodeText (r : Ref .message) (compact : Bool) : Script Value := do
  let m ← contents r
  return .text (if compact then m.text else m.prettyText)

/-- The message of a type that a text in text form describes. -/
def decodeText (t : MessageType) (s : String) : Script Value := do
  match Message.ofText? t.descriptor s with
  | some m => newMessage m t.config
  | none => throw (.textForm .malformed)

/-- A message as a YAML document. -/
def encodeYaml (r : Ref .message) : Script Value := do
  let j ← jsonOf (← contents r)
  return .text j.yaml

/-- The message of a type that a YAML document describes. -/
def decodeYaml (t : MessageType) (s : String) : Script Value := do
  match Json.ofYaml? s with
  | some j => messageOfJson t j
  | none => throw (.yaml .malformed)

/-! ## Calls -/

/-- Calls a function of a library. -/
def callFunction (library : Library) (f : Function) (args : List Value) (keywords : Keywords) :
    Script Value := do
  let callee := "proto." ++ f.name
  let bind (params : List String) (required : Nat) : Script BoundArguments :=
    ofExcept (bindArguments callee args keywords params required)
  let single : Script (Ref .message) := do
    messageArgument callee "msg" ((← bind ["msg"] 1).value 0)
  let written : Script (Ref .message × Bool) := do
    let bound ← bind ["msg", "compact"] 1
    let r ← messageArgument callee "msg" (bound.value 0)
    return (r, ← flagArgument callee "compact" (bound.value? 1))
  let read : Script (MessageType × String) := do
    let bound ← bind ["type", "value"] 2
    let t ← typeArgument callee "type" (bound.value 0)
    return (t, ← textArgument callee "value" (bound.value 1))
  match f with
  | .package =>
    let bound ← bind ["name"] 1
    let name ← textArgument callee "name" (bound.value 0)
    return .package (← ofExcept (library.loader.package name))
  | .clear =>
    let r ← single
    clearMessage r
    return .message r
  | .clone => cloneMessage (← single)
  | .merge =>
    let bound ← bind ["dst", "src"] 2
    let dst ← messageArgument callee "dst" (bound.value 0)
    let src ← messageArgument callee "src" (bound.value 1)
    mergeMessage dst src
    return .message dst
  | .setDefaults =>
    let r ← single
    fillDefaults r
    return .message r
  | .encodeAny =>
    let r ← single
    let config := (← cell r).config
    newMessage (← ofExcept ((← contents r).pack config)) config
  | .decodeAny =>
    let r ← messageArgument callee "any" ((← bind ["any"] 1).value 0)
    let config := (← cell r).config
    newMessage (← ofExcept ((← contents r).unpack library.loader.pool)) config
  | .encodeJson =>
    let (r, compact) ← written
    encodeJson r compact
  | .decodeJson =>
    let (t, s) ← read
    decodeJson t s
  | .encodeText =>
    let (r, compact) ← written
    encodeText r compact
  | .decodeText =>
    let (t, s) ← read
    decodeText t s
  | .encodeYaml => encodeYaml (← single)
  | .decodeYaml =>
    let (t, s) ← read
    decodeYaml t s

end Script

end Protoscript
