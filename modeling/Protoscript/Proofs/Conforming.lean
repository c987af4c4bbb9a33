import Protoscript.Script.Heap

/-!
# Messages that conform to their types

Stored data conforms to a type if every field that the message holds is declared, holds what its
declaration asks for, and is the only member of its oneof that is held. What else it carries, it
carries under numbers that are not declared.

* `Kind.Holds` — a type holds a stored value that is no list and no map;
* `FieldDescriptor.Holds` — so does a field, of any cardinality;
* `Message.Conforms` — every field of the message holds what the message stores for it, at any depth.
-/

namespace Protoscript

/-- Whether a scalar may be stored for a type. -/
def Kind.HoldsScalar : Kind → Scalar → Prop
  | .scalar t, s => s.storage? = some t.storage
  | .enum _, s => s.storage? = none
  | .message _, _ => False

/-- Whether a key may be stored for a type. -/
def Kind.HoldsKey (kind : Kind) (key : MapKey) : Prop := kind.HoldsScalar key.toScalar

/-- The order in which stored maps keep their keys. -/
def MapKey.Before (a b : MapKey) : Prop := a.le b = true ∧ a ≠ b

mutual

/-- Whether a stored value is a single value of a type. -/
inductive Kind.Holds : Kind → Stored → Prop
  | scalar {kind : Kind} {s : Scalar} (hs : kind.HoldsScalar s) : Kind.Holds kind (.scalar s)
  | message {d : MessageDescriptor} {m : Message} (hd : m.descriptor = d) (hm : m.Conforms) :
    Kind.Holds (.message d) (.message m)

/-- Whether a field may store a value. -/
inductive FieldDescriptor.Holds : FieldDescriptor → Stored → Prop
  | single {f : FieldDescriptor} {s : Stored} (hmap : f.isMap = false) (hlist : f.isList = false)
      (hs : f.kind.Holds s) : FieldDescriptor.Holds f s
  | list {f : FieldDescriptor} {items : List Stored} (hlist : f.isList = true)
      (hitems : ∀ s ∈ items, f.kind.Holds s) : FieldDescriptor.Holds f (.list items)
  | map {f : FieldDescriptor} {entries : List (MapKey × Stored)} (hmap : f.isMap = true)
      (hkeys : ∀ e ∈ entries, f.keyKind.HoldsKey e.1)
      (hvalues : ∀ e ∈ entries, f.valueKind.Holds e.2)
      (hsorted : (entries.map (·.1)).Pairwise MapKey.Before) : FieldDescriptor.Holds f (.map entries)

/-- Whether everything in a message is as its type declares it. -/
inductive Message.Conforms : Message → Prop
  | mk {m : Message}
      (sorted : (m.fields.map (·.1)).Pairwise (· < ·))
      (declared : ∀ e ∈ m.fields, ∃ f ∈ m.descriptor.fields, f.number = e.1)
      (held : ∀ f ∈ m.descriptor.fields, ∀ s, m.stored? f = some s → f.Holds s)
      (single : ∀ f ∈ m.descriptor.fields, (m.stored? f).isSome → ∀ g ∈ f.siblings, m.stored? g = none)
      (undeclared : ∀ e ∈ m.unknown, m.descriptor.numbered? e.1 = none) : m.Conforms

end

end Protoscript
