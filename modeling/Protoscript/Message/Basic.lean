import Protoscript.Schema.Pool
import Protoscript.Wire.Value

/-!
# Stored messages

A stored message is a type and what its fields hold, by field number. Numbers that the type does not
declare are kept as they came.

* `Message`, `Stored` — messages, and what a field holds: a scalar, a message, a list or a map;
* `Message.has`, `Message.get` — whether a field is set, and what it reads as;
* `Message.set`, `Message.clear` — writing a field; writing a member of a oneof unsets the others.

Access is by number alone: a field may come from another type than the message's own.
-/

namespace Protoscript

mutual

/-- What a field holds. -/
inductive Stored where
  | scalar (value : Scalar)
  | message (message : Message)
  | list (items : List Stored)
  | map (entries : List (MapKey × Stored))

/-- A message: its type, its fields in order of their numbers, and what else it carries, by
number. -/
inductive Message where
  | mk (descriptor : MessageDescriptor) (fields : List (Nat × Stored))
    (unknown : List (Nat × List WireValue))

end

instance : Inhabited Message := ⟨.mk default [] []⟩

instance : Inhabited Stored := ⟨.list []⟩

/-! ## Lists with numbered entries -/

/-- The entry of a number. -/
def lookupNumber (number : Nat) : List (Nat × α) → Option α
  | [] => none
  | e :: rest => if e.1 = number then some e.2 else lookupNumber number rest

/-- A list without the entries of a number. -/
def eraseNumber (number : Nat) (entries : List (Nat × α)) : List (Nat × α) :=
  entries.filter fun e => e.1 != number

/-- Puts an entry in its place in an ascending list, in place of an entry of the same number. -/
def insertNumber (number : Nat) (value : α) : List (Nat × α) → List (Nat × α)
  | [] => [(number, value)]
  | e :: rest =>
    if e.1 < number then e :: insertNumber number value rest
    else if e.1 = number then (number, value) :: rest
    else (number, value) :: e :: rest

@[simp] theorem lookupNumber_eraseNumber_self (number : Nat) (entries : List (Nat × α)) :
    lookupNumber number (eraseNumber number entries) = none := by
  induction entries with
  | nil => rfl
  | cons e rest ih =>
    unfold eraseNumber at ih ⊢
    by_cases h : e.1 = number
    · simp [h, ih]
    · simp [h, ih, lookupNumber]

theorem lookupNumber_eraseNumber_of_ne {number other : Nat} (h : other ≠ number)
    (entries : List (Nat × α)) :
    lookupNumber other (eraseNumber number entries) = lookupNumber other entries := by
  induction entries with
  | nil => rfl
  | cons e rest ih =>
    unfold eraseNumber at ih ⊢
    by_cases he : e.1 = number
    · simp [he, ih, lookupNumber]
      intro h'
      exact absurd h'.symm h
    · simp [he, ih, lookupNumber]

/-- Lookup commutes with insertion at its own number. -/
@[simp] theorem lookupNumber_insertNumber_self (number : Nat) (value : α)
    (entries : List (Nat × α)) :
    lookupNumber number (insertNumber number value entries) = some value := by
  induction entries with
  | nil => simp [insertNumber, lookupNumber]
  | cons e rest ih =>
    unfold insertNumber
    by_cases hlt : e.1 < number
    · have hne : ¬ e.1 = number := by omega
      simp [hlt, lookupNumber, hne, ih]
    · by_cases he : e.1 = number <;> simp [hlt, he, lookupNumber]

theorem lookupNumber_insertNumber_of_ne {number other : Nat} (h : other ≠ number) (value : α)
    (entries : List (Nat × α)) :
    lookupNumber other (insertNumber number value entries) = lookupNumber other entries := by
  have h' : ¬ number = other := fun e => h e.symm
  induction entries with
  | nil => simp [insertNumber, lookupNumber, h']
  | cons e rest ih =>
    unfold insertNumber
    by_cases hlt : e.1 < number
    · simp [hlt, lookupNumber, ih]
    · by_cases he : e.1 = number
      · simp [he, lookupNumber, h']
      · simp [hlt, he, lookupNumber, h']

theorem sizeOf_lookupNumber_lt [SizeOf α] {number : Nat} {entries : List (Nat × α)} {value : α}
    (h : lookupNumber number entries = some value) : sizeOf value < sizeOf entries := by
  induction entries with
  | nil => simp [lookupNumber] at h
  | cons e rest ih =>
    obtain ⟨n, v⟩ := e
    simp only [lookupNumber] at h
    split at h
    · injection h with h
      subst h
      simp
      omega
    · have := ih h
      simp
      omega

/-! ## Fields that may be unset -/

/-- Whether a stored value is the one that an unset field reads as: no items, no entries, or the
default scalar. A message never is. -/
def Stored.isDefaultOf (f : FieldDescriptor) : Stored → Bool
  | list items => f.isList && items.isEmpty
  | map entries => f.isMap && entries.isEmpty
  | scalar value =>
    !f.isList && !f.isMap &&
      match f.defaultScalar? with
      | some d => value.equals d
      | none => false
  | message _ => false

namespace Message

/-- The type of the message. -/
def descriptor : Message → MessageDescriptor
  | mk d _ _ => d

/-- What the fields hold, in order of their numbers. -/
def fields : Message → List (Nat × Stored)
  | mk _ fs _ => fs

/-- What the message carries under numbers that its type does not declare. -/
def unknown : Message → List (Nat × List WireValue)
  | mk _ _ us => us

@[simp] theorem descriptor_mk (d : MessageDescriptor) (fs us) : (mk d fs us).descriptor = d := rfl

@[simp] theorem fields_mk (d : MessageDescriptor) (fs us) : (mk d fs us).fields = fs := rfl

@[simp] theorem unknown_mk (d : MessageDescriptor) (fs us) : (mk d fs us).unknown = us := rfl

/-- A message with no field set. -/
def empty (d : MessageDescriptor) : Message := mk d [] []

/-- The full name of the message's type. -/
def fullName (m : Message) : String := m.descriptor.fullName

/-- What a field holds, if anything was stored in it. -/
def stored? (m : Message) (f : FieldDescriptor) : Option Stored := lookupNumber f.number m.fields

/-- Whether a field is set. A field without presence is set when it differs from its default. -/
def has (m : Message) (f : FieldDescriptor) : Bool :=
  match m.stored? f with
  | none => false
  | some value => f.hasPresence || !value.isDefaultOf f

end Message

/-- What a single value of a field's type is if it is not given: the default scalar, or an empty
message. -/
def Stored.singleDefault (f : FieldDescriptor) : Stored :=
  match f.defaultScalar?, f.kind with
  | some value, _ => scalar value
  | none, .message d => message (.empty d)
  | none, _ => list []

/-- What an unset field reads as: an empty list or map, the default scalar, or an empty message. -/
def Stored.defaultOf (f : FieldDescriptor) : Stored :=
  if f.isMap then map []
  else if f.isList then list []
  else singleDefault f

namespace Message

/-- What a field reads as: what it holds, or its default. -/
def get (m : Message) (f : FieldDescriptor) : Stored := (m.stored? f).getD (.defaultOf f)

/-- What the field of a number reads as, if there is one and it holds a single value. -/
def singleAt? (m : Message) (number : Nat) : Option Stored :=
  match m.descriptor.numbered? number with
  | none => none
  | some f =>
    match m.stored? f with
    | none => some (.singleDefault f)
    | some (.list _) | some (.map _) => none
    | some value => some value

/-- Unsets a field. -/
def clear (m : Message) (f : FieldDescriptor) : Message :=
  mk m.descriptor (eraseNumber f.number m.fields) (eraseNumber f.number m.unknown)

/-- Unsets the other members of a field's oneof. -/
def select (m : Message) (f : FieldDescriptor) : Message := f.siblings.foldl clear m

/-- Writes a field and unsets the other members of its oneof. -/
def set (m : Message) (f : FieldDescriptor) (value : Stored) : Message :=
  let kept := m.select f
  mk kept.descriptor (insertNumber f.number value kept.fields) (eraseNumber f.number kept.unknown)

/-- Writes a scalar to the field of a number, if there is one and it takes the scalar. -/
def setNumber (m : Message) (number : Nat) (value : Scalar) : Message :=
  match m.descriptor.numbered? number with
  | some f => if f.takes value then m.set f (.scalar value) else m
  | none => m

/-- An `Any` with a URL and a payload, on top of what it holds. -/
def packing (m : Message) (url : String) (payload : List UInt8) : Message :=
  (m.setNumber 1 (.text url)).setNumber 2 (.bytes payload)

/-- The fields that are set, with what they hold, in order of their numbers. -/
def setFields (m : Message) : List (FieldDescriptor × Stored) :=
  m.descriptor.fields.filterMap fun f => if m.has f then some (f, m.get f) else none

theorem sizeOf_stored?_lt {m : Message} {f : FieldDescriptor} {value : Stored}
    (h : m.stored? f = some value) : sizeOf value < sizeOf m := by
  have := sizeOf_lookupNumber_lt h
  cases m
  simp only [fields_mk] at this
  simp
  omega

end Message

end Protoscript
