import Protoscript.Message.Basic

/-!
# Equality of stored messages

Two messages are equal if they have types of one name and agree on every field of the first type. A
field with presence must be set in both or in neither; any other field is compared by what it reads
as. Lists are compared item by item and maps key by key.

* `Message.equals`, `Stored.equals`.
-/

namespace Protoscript

/-- The value of a key in a stored map. -/
def lookupKey (key : MapKey) : List (MapKey × Stored) → Option Stored
  | [] => none
  | e :: rest => if e.1 = key then some e.2 else lookupKey key rest

/-- Puts an entry in its place in a map that ascends by key, in place of an entry of the same
key. -/
def insertKey (key : MapKey) (value : Stored) : List (MapKey × Stored) → List (MapKey × Stored)
  | [] => [(key, value)]
  | e :: rest =>
    if e.1 = key then (key, value) :: rest
    else if e.1.le key then e :: insertKey key value rest
    else (key, value) :: e :: rest

/-- A map with the entries of a list, the last of each key, ascending by key. -/
def mapOfEntries (entries : List (MapKey × Stored)) : List (MapKey × Stored) :=
  entries.foldl (fun m e => insertKey e.1 e.2 m) []

/-- Equality with a value that holds no other: a scalar, or an empty list or map. -/
def Stored.flatEquals : Stored → Stored → Bool
  | scalar x, scalar y => x.equals y
  | list [], list [] => true
  | map [], map [] => true
  | _, _ => false

mutual

/-- Equality of messages. -/
def Message.equals (a b : Message) : Bool :=
  a.fullName == b.fullName && a.descriptor.fields.all fun f =>
    if f.hasPresence && a.has f != b.has f then false
    else if f.hasPresence && !a.has f then true
    else
      match _h : a.stored? f with
      | some value => value.equals (b.get f)
      | none => (Stored.defaultOf f).flatEquals (b.get f)
termination_by sizeOf a
decreasing_by exact Message.sizeOf_stored?_lt _h

/-- Equality of what fields hold. -/
def Stored.equals : Stored → Stored → Bool
  | .scalar x, .scalar y => x.equals y
  | .message x, .message y => x.equals y
  | .list xs, .list ys => Stored.listEquals xs ys
  | .map xs, .map ys => xs.length == ys.length && Stored.mapWithin xs ys
  | _, _ => false
termination_by a => sizeOf a

/-- Equality of lists, item by item. -/
def Stored.listEquals : List Stored → List Stored → Bool
  | [], [] => true
  | x :: xs, y :: ys => x.equals y && Stored.listEquals xs ys
  | _, _ => false
termination_by xs => sizeOf xs

/-- Whether each entry of a map has an equal entry in another. -/
def Stored.mapWithin : List (MapKey × Stored) → List (MapKey × Stored) → Bool
  | [], _ => true
  | (key, value) :: rest, ys =>
    (match lookupKey key ys with
      | some other => value.equals other
      | none => false) && Stored.mapWithin rest ys
termination_by xs => sizeOf xs

end

end Protoscript
