import Protoscript.Message.Merge
import Protoscript.Script.Freeze
import Protoscript.Script.MapView

/-!
# Messages in scripts

Reading a field of a message gives a view of it, which is kept, so that a change through the view is
seen at the next read. Writing a field stores a checked copy and drops the views of the field and of
the other members of its oneof.

* `Script.readField` — what a field reads as; `Script.messageAttr` keeps it;
* `Script.setField` — writes a field;
* `Script.clearMessage`, `Script.fillDefaults`, `Script.mergeMessage`, `Script.cloneMessage` — the
  operations on whole messages;
* `Script.construct` — a new message with fields given by keyword.
-/

namespace Protoscript

/-- The value of a name. -/
def lookupName (name : String) (entries : List (String × α)) : Option α :=
  (entries.find? fun e => e.1 == name).map (·.2)

namespace Script

/-- A new message. -/
def newMessage (m : Message) (config : Config) : Script Value := fun h =>
  let r := h.newMessage m config
  (.ok r.1, r.2)

/-- The contents of a message, with what its views hold. -/
def contents (r : Ref .message) : Script Message := reading (·.contents r)

/-! ## Reading -/

/-- What a field of a stored message reads as. Maps and lists read as views; what is unset and has
presence as a message or in a oneof reads as absent, and so does an unset scalar under the legacy
rules. -/
def readField (m : Message) (f : FieldDescriptor) (config : Config) : Script Value := do
  if f.isMap then
    let entries ← match m.get f with
      | .map entries => modifyGet (·.adoptEntries f.valueKind config entries)
      | _ => pure []
    return .map (← newMap { field := f, entries := entries, config := config })
  else if f.isList then
    let items ← match m.get f with
      | .list items => modifyGet (·.adoptItems f.kind config items)
      | _ => pure []
    return .repeated (← newRepeated { field := f, items := items, config := config })
  else if !m.has f && (f.inOneof || f.kind.isMessage || f.isLegacy config) then
    return .absent
  else
    modifyGet (·.adopt f.kind config (m.get f))

/-- Freezes a value. -/
def freeze (v : Value) : Script Unit := modify (·.freeze v)

/-- The value of a field of a message, if its type has the field. -/
def messageAttr (r : Ref .message) (name : String) : Script (Option Value) := do
  let c ← cell r
  match lookupName name c.views with
  | some value => return some value
  | none =>
    match c.content.descriptor.field? name with
    | none => return none
    | some f =>
      let value ← readField c.content f c.config
      if c.frozen then freeze value
      let c ← cell r
      put r { c with views := c.views ++ [(name, value)] }
      return some value

/-! ## Writing -/

/-- A value as a field stores it; `none` if the field is to be unset. -/
def scalarFor (f : FieldDescriptor) (value : Value) (config : Config) : Script (Option Stored) := do
  match value with
  | .absent =>
    if f.kind.isMessage || f.isLegacy config then return none
    else throw (.absentRefused f.kind.name)
  | value => return some (← reading (·.toStored f.kind value config))

/-- A value as any field stores it; `none` if the field is to be unset. -/
def storedFor (f : FieldDescriptor) (value : Value) (config : Config) : Script (Option Stored) := do
  if f.isMap then
    match value with
    | .absent =>
      throw (.typeMismatch value ({ field := f, config := config } : MapCell).typeName)
    | value =>
      let view ← mapOf f value config
      return some (← reading (·.mapContents view))
  else if f.isList then
    match value with
    | .absent =>
      throw (.typeMismatch value ({ field := f, config := config } : RepeatedCell).typeName)
    | value =>
      let view ← repeatedOf f value config
      return some (← reading (·.repeatedContents view))
  else scalarFor f value config

/-- The views that stay when a field is written: those of other fields, unless they are members of
the field's oneof. -/
def keptViews (f : FieldDescriptor) (views : List (String × Value)) : List (String × Value) :=
  views.filter fun v => v.1 != f.name && !(f.oneofMembers.any fun g => g.name == v.1)

/-- Writes a field of a message. -/
def setField (r : Ref .message) (name : String) (value : Value) : Script Unit := do
  let c ← cell r
  checkMutable c.frozen "set field of" "message"
  match c.content.descriptor.field? name with
  | none => throw (.fieldNotFound c.content.fullName name)
  | some f =>
    let stored ← storedFor f value c.config
    let content := match stored with
      | some s => c.content.set f s
      | none => c.content.clear f
    put r { c with content := content, views := keptViews f c.views }

/-! ## Whole messages -/

/-- Gives a message another content and drops its views. -/
def replace (r : Ref .message) (m : Message) : Script Unit := do
  let c ← cell r
  put r { c with content := m, views := [] }

/-- Unsets all fields. -/
def clearMessage (r : Ref .message) : Script Unit := do
  let c ← cell r
  checkMutable c.frozen "clear" "message"
  replace r (.empty c.content.descriptor)

/-- Fills in the declared defaults of unset fields, at every depth. -/
def fillDefaults (r : Ref .message) : Script Unit := do
  checkMutable (← cell r).frozen "set defaults of" "message"
  replace r (← contents r).fillDefaults

/-- Lays a message over another of the same name. -/
def mergeMessage (dst src : Ref .message) : Script Unit := do
  checkMutable (← cell dst).frozen "merge into" "message"
  let h ← get
  if h.fullName dst != h.fullName src then
    throw (.mergeMismatch (h.fullName dst) (h.fullName src))
  let incoming ← contents src
  let old ← contents dst
  replace dst (old.merge incoming)

/-- A copy that shares nothing with the message. -/
def cloneMessage (r : Ref .message) : Script Value := do
  newMessage (← contents r) (← cell r).config

/-- A new message with fields given by keyword. -/
def construct (t : MessageType) (args : List Value) (keywords : Keywords) : Script Value := do
  if !args.isEmpty then throw (.positionalArguments t.descriptor.fullName)
  let r := (← get).fresh .message
  let new ← newMessage (.empty t.descriptor) t.config
  for (name, value) in keywords do
    if (t.descriptor.field? name).isNone then
      throw (.unexpectedKeyword t.descriptor.fullName name)
    setField r name value
  return new

end Script

end Protoscript
