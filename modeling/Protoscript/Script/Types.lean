import Protoscript.Script.Instance

/-!
# Types and packages in scripts

A loader gives scripts the types of its pool by name: by full name, or by walking from a package to
its types and from a message type to the types declared inside it. The entry types of maps cannot be
reached by walking.

* `TypeHandle` — a message type or an enum type;
* `MessageType.nested`, `Package.members` — the types one step further, by short name;
* `TypeMemory`, `Lookup` — what a loader remembers, and the lookups that use it;
* `Loader.messageType`, `Loader.enumType`, `Loader.package` — types and packages by name;
* `Script.wrapMessage`, `Script.unwrapMessage`, `Script.decodeMessage` — stored messages from and to
  values.
-/

namespace Protoscript

/-- A type that can be reached by name. -/
inductive TypeHandle where
  | message (type : MessageType)
  | enum (descriptor : EnumDescriptor)

/-- A type as a value. -/
def TypeHandle.toValue : TypeHandle → Value
  | message t => .messageType t
  | enum d => .enumType d

/-- Names in ascending order. -/
def sortNames (names : List String) : List String := names.mergeSort fun a b => decide (a ≤ b)

/-- The types declared directly inside a message type, by short name. -/
def MessageType.nested (t : MessageType) : List (String × TypeHandle) :=
  ((t.descriptor.nestedMessages.filter fun d => !d.isMapEntry).map fun d =>
    (d.name, TypeHandle.message ⟨d, t.config⟩)) ++
  t.descriptor.nestedEnums.map fun d => (d.name, TypeHandle.enum d)

/-- The short names of the types declared directly inside a message type. -/
def MessageType.nestedNames (t : MessageType) : List String := sortNames (t.nested.map (·.1))

/-- What a loader remembers of what it looked up, by the names that were given. -/
structure TypeMemory where
  /-- the message types -/
  messages : List (String × MessageType) := []
  /-- the enum types -/
  enums : List (String × EnumDescriptor) := []
  /-- the packages -/
  packages : List (String × Package) := []

/-- A lookup, which uses what the loader remembers and adds to it. -/
abbrev Lookup (α : Type) : Type := ExceptT Error (StateM TypeMemory) α

/-- The result of a lookup by a loader that remembers nothing. -/
def Lookup.result {α : Type} (lookup : Lookup α) : Except Error α := (lookup.run.run {}).1

namespace Loader

/-- Looks up a message type by full name. -/
def findMessage (l : Loader) (fullName : String) : Lookup MessageType := do
  match lookupName fullName (← get).messages with
  | some t => return t
  | none =>
    match l.pool.message? fullName with
    | none => throw (.typeNotFound fullName)
    | some d =>
      let t : MessageType := ⟨d, l.config⟩
      modify fun known => { known with messages := (fullName, t) :: known.messages }
      return t

/-- Looks up an enum type by full name. -/
def findEnum (l : Loader) (fullName : String) : Lookup EnumDescriptor := do
  match lookupName fullName (← get).enums with
  | some d => return d
  | none =>
    match l.pool.enum? fullName with
    | none => throw (.typeNotFound fullName)
    | some d =>
      modify fun known => { known with enums := (fullName, d) :: known.enums }
      return d

/-- The top-level messages of a package. -/
def topMessages (l : Loader) (package : String) : List MessageDescriptor :=
  l.pool.allMessages.filter fun d => d.info.package == package && d.info.parent.isNone

/-- The top-level enums of a package. -/
def topEnums (l : Loader) (package : String) : List EnumDescriptor :=
  l.pool.allEnums.filter fun d => d.info.package == package && d.info.parent.isNone

/-- Looks up the top-level types of a package, each by its full name. They are listed by short name. -/
def findMembers (l : Loader) (package : String) : Lookup (List (String × TypeHandle)) := do
  let messages ← (l.topMessages package).mapM fun d => do
    return (d.name, TypeHandle.message (← l.findMessage d.fullName))
  let enums ← (l.topEnums package).mapM fun d => do
    return (d.name, TypeHandle.enum (← l.findEnum d.fullName))
  return messages ++ enums

/-- Looks up a package by name. An unknown one has no members. -/
def findPackage (l : Loader) (name : String) : Lookup Package := do
  match lookupName name (← get).packages with
  | some p => return p
  | none =>
    let _ ← l.findMembers name
    let p : Package := ⟨l, name⟩
    modify fun known => { known with packages := (name, p) :: known.packages }
    return p

/-- The message type of a full name. -/
def messageType (l : Loader) (fullName : String) : Except Error MessageType := (l.findMessage fullName).result

/-- The enum type of a full name. -/
def enumType (l : Loader) (fullName : String) : Except Error EnumDescriptor := (l.findEnum fullName).result

/-- The package of a name. -/
def package (l : Loader) (name : String) : Except Error Package := (l.findPackage name).result

theorem messageType_eq (l : Loader) (fullName : String) :
    l.messageType fullName = match l.pool.message? fullName with
      | some d => .ok ⟨d, l.config⟩
      | none => .error (.typeNotFound fullName) := by
  unfold messageType findMessage
  cases l.pool.message? fullName <;> rfl

theorem enumType_eq (l : Loader) (fullName : String) :
    l.enumType fullName = match l.pool.enum? fullName with
      | some d => .ok d
      | none => .error (.typeNotFound fullName) := by
  unfold enumType findEnum
  cases l.pool.enum? fullName <;> rfl

end Loader

namespace Package

/-- The top-level types of a package, by short name. -/
def members (p : Package) : Except Error (List (String × TypeHandle)) := (p.loader.findMembers p.name).result

/-- The short names of the top-level types of a package. A package is only given out if its types are
found. -/
def memberNames (p : Package) : List String :=
  match p.members with
  | .ok types => sortNames (types.map (·.1))
  | .error _ => []

/-- The top-level type of a short name. -/
def member (p : Package) (name : String) : Except Error Value := do
  match lookupName name (← p.members) with
  | some t => return t.toValue
  | none => throw (.typeNotFound (if p.name.isEmpty then name else p.name ++ "." ++ name))

end Package

/-- The value of an enum by name. -/
def EnumDescriptor.value (d : EnumDescriptor) (name : String) : Except Error Value :=
  match d.numberOf? name with
  | some n => .ok (.enum ⟨d, n⟩)
  | none => .error (.enumValueNotFound d.fullName name)

namespace Script

/-- A stored message as a value. -/
def wrapMessage (l : Loader) (m : Message) : Script Value := newMessage m l.config

/-- The contents of a value that is a message. -/
def unwrapMessage (v : Value) : Script Message := do
  match v with
  | .message r => contents r
  | v => throw (.typeMismatch v "proto.Message")

/-- The message of a type, by full name, that bytes stand for. -/
def decodeMessage (l : Loader) (fullName : String) (bytes : List UInt8) : Script Value := do
  let t ← ofExcept (l.messageType fullName)
  match Message.ofWire? t.descriptor bytes with
  | some m => wrapMessage l m
  | none => throw .wire

/-- A new `proto` library of a loader. -/
def newLibrary (l : Loader) : Script Value := fun h =>
  (.ok (.library ⟨h.nextId, l⟩), { h with nextId := h.nextId + 1 + Function.all.length })

/-- A number that no callable or library has yet. -/
def newId : Script Nat := fun h => (.ok h.nextId, { h with nextId := h.nextId + 1 })

end Script

end Protoscript
