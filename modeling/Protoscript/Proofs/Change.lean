import Protoscript.Proofs.Operation
import Mathlib.Data.List.Forall2

/-!
# What one step can do

The heap changes in a few ways only: cells are added, an unfrozen container or message is
overwritten, a message keeps the view that a field was read as, and values are frozen. Every
operation is a sequence of such changes, so what they keep holds of all heaps of a run.

* `Slot`, `Heap.Fills` — the places inside messages that hold values, and what lies there;
* `Heap.Normal`, `Heap.Reads` — values as containers take them in, and as fields are read;
* `Heap.Source` — where the content of a new message comes from;
* `Heap.Change` — one change; `Heap.Changes` — any number of them;
* `Heap.KeepsView` — the change that reading a field ends with.
-/

namespace Protoscript

/-! ## Slots -/

/-- A place inside a message: the view kept for a field, or an element of that view. -/
structure Slot where
  /-- the message -/
  owner : Ref .message
  /-- the name of the field -/
  name : String
  /-- the position in the view; none for the view itself -/
  position : Option Nat
  deriving DecidableEq

namespace Heap

/-- The values that a view gives out: the items of a list, the values of a map. -/
def elements (h : Heap) : Value → List Value
  | .repeated r => (h.cell r).items
  | .map r => (h.cell r).entries.map (·.2)
  | _ => []

/-- Whether a value lies in a slot. -/
def Fills (h : Heap) (a : Slot) (v : Value) : Prop :=
  match a.position with
  | none => (a.name, v) ∈ (h.cell a.owner).views
  | some i => ∃ view, (a.name, view) ∈ (h.cell a.owner).views ∧ (h.elements view)[i]? = some v

/-- Whether a value lies in no slot, and is younger than every message that has slots. -/
def Fresh (h : Heap) (v : Value) : Prop :=
  ∀ a w, h.Fills a w →
    (v.ref?.isSome → w ≠ v) ∧ ∀ q : Ref .message, v = .message q → a.owner.index < q.index

/-! ## Values in containers -/

/-- Whether a value is what a type's checks make of some value. -/
inductive Normal (h : Heap) (kind : Kind) : Value → Prop
  /-- a scalar that was stored and read back -/
  | scalar {v : Value} {s : Scalar} (hs : kind.scalarToStored v = .ok s) :
    Normal h kind (s.toValue kind)
  /-- a message of the type -/
  | message {d : MessageDescriptor} {q : Ref .message} (hk : kind = .message d)
    (hq : h.Has ⟨.message, q⟩) (hd : (h.cell q).content.descriptor.same d) :
    Normal h kind (.message q)

/-- Whether the checked keys of a type equal themselves. -/
def SelfEqual (h : Heap) (kind : Kind) : Prop := ∀ v, h.Normal kind v → h.keysEqual v v = true

/-- Whether a value is what a stored value was read as. -/
def Shows (h : Heap) (kind : Kind) (config : Config) : Stored → Value → Prop
  | .scalar s, v => v = s.toValue kind
  | .message m, v => ∃ q : Ref .message, v = .message q ∧ h.Has ⟨.message, q⟩ ∧
      (h.cell q).content = m ∧ (h.cell q).views = [] ∧ (h.cell q).config = config
  | .list _, v => ∃ q : Ref .list, v = .list q ∧ h.Has ⟨.list, q⟩
  | .map _, v => ∃ q : Ref .dict, v = .dict q ∧ h.Has ⟨.dict, q⟩

end Heap

/-- The stored items of a list field. -/
def Message.itemsOf (m : Message) (f : FieldDescriptor) : List Stored :=
  match m.get f with
  | .list items => items
  | _ => []

/-- The stored entries of a map field. -/
def Message.entriesOf (m : Message) (f : FieldDescriptor) : List (MapKey × Stored) :=
  match m.get f with
  | .map entries => entries
  | _ => []

/-- Whether a view has the items that a list field stores. -/
structure RepeatedCell.ReadFrom (h : Heap) (m : Message) (f : FieldDescriptor) (config : Config)
    (c : RepeatedCell) : Prop where
  notMap : f.isMap = false
  isList : f.isList = true
  sameField : c.field = f
  sameConfig : c.config = config
  items : List.Forall₂ (h.Shows f.kind config) (m.itemsOf f) c.items

/-- Whether a view has the entries that a map field stores. -/
structure MapCell.ReadFrom (h : Heap) (m : Message) (f : FieldDescriptor) (config : Config)
    (c : MapCell) : Prop where
  isMap : f.isMap = true
  sameField : c.field = f
  sameConfig : c.config = config
  entries : List.Forall₂
    (fun stored e => e.1 = stored.1.toValue ∧ h.Shows f.valueKind config stored.2 e.2)
    (m.entriesOf f) c.entries

namespace Heap

/-- Whether a value is what a field of a stored message was read as. -/
inductive Reads (h : Heap) (m : Message) (f : FieldDescriptor) (config : Config) : Value → Prop
  | map {q : Ref .map} (hq : h.Has ⟨.map, q⟩) (hc : (h.cell q).ReadFrom h m f config) :
    Reads h m f config (.map q)
  | list {q : Ref .repeated} (hq : h.Has ⟨.repeated, q⟩) (hc : (h.cell q).ReadFrom h m f config) :
    Reads h m f config (.repeated q)
  | absent (hmap : f.isMap = false) (hlist : f.isList = false) (hunset : m.has f = false)
    (hf : (f.inOneof || f.kind.isMessage || f.isLegacy config) = true) : Reads h m f config .absent
  | single {v : Value} (hmap : f.isMap = false) (hlist : f.isList = false)
    (hset : (!m.has f && (f.inOneof || f.kind.isMessage || f.isLegacy config)) = false)
    (hv : h.Shows f.kind config (m.get f) v) : Reads h m f config v

end Heap

/-! ## Contents of new messages -/

/-- Whether a message lies in a stored value. -/
inductive Stored.Contains : Stored → Message → Prop
  | message {m : Message} : Stored.Contains (.message m) m
  | list {items : List Stored} {s : Stored} {m : Message} (hs : s ∈ items) (hm : s.Contains m) :
    Stored.Contains (.list items) m
  | map {entries : List (MapKey × Stored)} {e : MapKey × Stored} {m : Message} (he : e ∈ entries)
    (hm : e.2.Contains m) : Stored.Contains (.map entries) m

namespace Heap

variable (pools : Set Pool) (h : Heap)

/-- The fields that an operation may convert values for: those of the pools, and those of the
messages and views that there are. -/
inductive Knows : FieldDescriptor → Prop
  | given {f : FieldDescriptor} (hpool : f.message.pool ∈ pools) (hf : f ∈ f.message.fields) : Knows f
  | message {r : Ref .message} {f : FieldDescriptor} (hr : h.Has ⟨.message, r⟩)
    (hf : f ∈ (h.cell r).content.descriptor.fields) : Knows f
  | repeated {r : Ref .repeated} (hr : h.Has ⟨.repeated, r⟩) : Knows (h.cell r).field
  | map {r : Ref .map} (hr : h.Has ⟨.map, r⟩) : Knows (h.cell r).field

/-- Where the content of a new message can come from. -/
inductive Source : Message → Prop
  /-- nowhere: it is empty -/
  | empty {d : MessageDescriptor} (hd : d.Among pools) : Source (.empty d)
  /-- it is copied from a message -/
  | contents {r : Ref .message} {m : Message} (hr : h.Has ⟨.message, r⟩)
    (hm : h.contents r = .ok m) : Source m
  /-- a value was converted for a field -/
  | stored {f : FieldDescriptor} {kind : Kind} {v : Value} {config : Config} {m : Message}
    (hf : Knows pools h f) (hk : kind = f.kind ∨ kind = f.keyKind ∨ kind = f.valueKind)
    (hv : v.Within h) (hm : h.toStored kind v config = .ok (.message m)) : Source m
  /-- it was stored in a message -/
  | part {r : Ref .message} {f : FieldDescriptor} {s : Stored} {m : Message}
    (hr : h.Has ⟨.message, r⟩) (hf : f ∈ (h.cell r).content.descriptor.fields)
    (hs : (h.cell r).content.stored? f = some s) (hm : s.Contains m) : Source m
  | wire {d : MessageDescriptor} {bytes : List UInt8} {m : Message} (hd : d.Among pools)
    (hm : Message.ofWire? d bytes = some m) : Source m
  | json {d : MessageDescriptor} {j : Json} {m : Message} (hd : d.Among pools)
    (hm : Message.ofJson? d j = some m) : Source m
  | text {d : MessageDescriptor} {s : String} {m : Message} (hd : d.Among pools)
    (hm : Message.ofText? d s = some m) : Source m
  /-- a message was packed -/
  | packed {r : Ref .message} {m n : Message} {config : Config} (hr : h.Has ⟨.message, r⟩)
    (hm : h.contents r = .ok m) (hn : m.pack config = .ok n) : Source n
  /-- the host gave it -/
  | given {m : Message} (hd : m.descriptor.Among pools) (hm : m.Conforms) : Source m

/-- What a message as a whole can be replaced by. -/
inductive Replaces (r : Ref .message) : Message → Prop
  | cleared : Replaces r (.empty (h.cell r).content.descriptor)
  | filled {m : Message} (hm : h.contents r = .ok m) : Replaces r m.fillDefaults
  | merged {src : Ref .message} {m n : Message} (hsrc : h.Has ⟨.message, src⟩)
    (hname : h.fullName r = h.fullName src) (hm : h.contents r = .ok m)
    (hn : h.contents src = .ok n) : Replaces r (m.merge n)

/-- What a field can be set to; none if it is unset. -/
inductive Assigns (f : FieldDescriptor) (config : Config) : Option Stored → Prop
  | unset : Assigns f config none
  | single {v : Value} {s : Stored} (hmap : f.isMap = false) (hlist : f.isList = false)
    (hv : v.Within h) (hs : h.toStored f.kind v config = .ok s) : Assigns f config (some s)
  | list {q : Ref .repeated} {s : Stored} (hmap : f.isMap = false) (hlist : f.isList = true)
    (hq : h.Has ⟨.repeated, q⟩) (hf : (h.cell q).field = f)
    (hs : h.repeatedContents q = .ok s) : Assigns f config (some s)
  | map {q : Ref .map} {s : Stored} (hmap : f.isMap = true) (hq : h.Has ⟨.map, q⟩)
    (hf : (h.cell q).field = f) (hs : h.mapContents q = .ok s) : Assigns f config (some s)

/-! ## Changes -/

/-- One change. -/
inductive Change : Heap → Prop
  /-- numbers for callables were used up -/
  | count (n : Nat) : Change { h with nextId := n }
  | list {items : List Value} (hitems : ∀ v ∈ items, v.Within h) :
    Change (h.alloc .list { items := items })
  | dict {entries : List (Value × Value)} (hentries : ∀ e ∈ entries, e.1.Within h ∧ e.2.Within h) :
    Change (h.alloc .dict { entries := entries })
  | message {m : Message} {config : Config} (hm : Source pools h m) :
    Change (h.alloc .message { content := m, config := config })
  /-- a view with checked items, or with the items of a view besides -/
  | repeated {c : RepeatedCell} (hfrozen : c.frozen = false) (hf : Knows pools h c.field)
    (hitems : ∀ v ∈ c.items, h.Normal c.kind v ∨
      ∃ q : Ref .repeated, h.Has ⟨.repeated, q⟩ ∧ (h.cell q).field = c.field ∧ v ∈ (h.cell q).items) :
    Change (h.alloc .repeated c)
  /-- a view of what a list field stores -/
  | readRepeated {r : Ref .message} {f : FieldDescriptor} {c : RepeatedCell} (hfrozen : c.frozen = false)
    (hr : h.Has ⟨.message, r⟩) (hf : f ∈ (h.cell r).content.descriptor.fields)
    (hc : c.ReadFrom h (h.cell r).content f (h.cell r).config) : Change (h.alloc .repeated c)
  /-- a view with checked entries -/
  | map {c : MapCell} (hfrozen : c.frozen = false) (hf : Knows pools h c.field)
    (hentries : ∀ e ∈ c.entries, h.Normal c.field.keyKind e.1 ∧ h.Normal c.field.valueKind e.2)
    (hdistinct : h.SelfEqual c.field.keyKind → (c.entries.map (·.1)).Nodup) :
    Change (h.alloc .map c)
  /-- a view of what a map field stores -/
  | readMap {r : Ref .message} {f : FieldDescriptor} {c : MapCell} (hfrozen : c.frozen = false)
    (hr : h.Has ⟨.message, r⟩) (hf : f ∈ (h.cell r).content.descriptor.fields)
    (hc : c.ReadFrom h (h.cell r).content f (h.cell r).config) : Change (h.alloc .map c)
  | setList {r : Ref .list} {items : List Value} (hr : h.Has ⟨.list, r⟩)
    (hfrozen : (h.cell r).frozen = false) (hitems : ∀ v ∈ items, v.Within h) :
    Change (h.put r { h.cell r with items := items })
  | setDict {r : Ref .dict} {entries : List (Value × Value)} (hr : h.Has ⟨.dict, r⟩)
    (hfrozen : (h.cell r).frozen = false)
    (hentries : ∀ e ∈ entries, e.1.Within h ∧ e.2.Within h) :
    Change (h.put r { h.cell r with entries := entries })
  /-- some items were removed, and checked ones added -/
  | setRepeated {r : Ref .repeated} {items : List Value} (hr : h.Has ⟨.repeated, r⟩)
    (hfrozen : (h.cell r).frozen = false)
    (hitems : ∀ v ∈ items, v ∈ (h.cell r).items ∨ h.Normal (h.cell r).kind v ∧ h.Fresh v)
    (hnodup : ((h.cell r).items.filterMap Value.ref?).Nodup → (items.filterMap Value.ref?).Nodup) :
    Change (h.put r { h.cell r with items := items })
  /-- some entries were removed, and checked ones added -/
  | setMap {r : Ref .map} {entries : List (Value × Value)} (hr : h.Has ⟨.map, r⟩)
    (hfrozen : (h.cell r).frozen = false)
    (hkeys : ∀ e ∈ entries, e.1 ∈ (h.cell r).entries.map (·.1) ∨
      h.Normal (h.cell r).field.keyKind e.1)
    (hvalues : ∀ e ∈ entries, e.2 ∈ (h.cell r).entries.map (·.2) ∨
      h.Normal (h.cell r).field.valueKind e.2 ∧ h.Fresh e.2)
    (hnodup : (((h.cell r).entries.map (·.2)).filterMap Value.ref?).Nodup →
      ((entries.map (·.2)).filterMap Value.ref?).Nodup)
    (hdistinct : h.SelfEqual (h.cell r).field.keyKind → ((h.cell r).entries.map (·.1)).Nodup →
      (entries.map (·.1)).Nodup) :
    Change (h.put r { h.cell r with entries := entries })
  /-- a field was written, and the views of it and its oneof dropped -/
  | assign {r : Ref .message} {name : String} {f : FieldDescriptor} {stored : Option Stored}
    (hr : h.Has ⟨.message, r⟩) (hfrozen : (h.cell r).frozen = false)
    (hf : (h.cell r).content.descriptor.field? name = some f)
    (hs : Assigns h f (h.cell r).config stored) :
    Change (h.put r { h.cell r with
      content := stored.elim ((h.cell r).content.clear f) ((h.cell r).content.set f)
      views := Script.keptViews f (h.cell r).views })
  /-- a message as a whole was written, and its views dropped -/
  | replace {r : Ref .message} {m : Message} (hr : h.Has ⟨.message, r⟩)
    (hfrozen : (h.cell r).frozen = false) (hm : Replaces h r m) :
    Change (h.put r { h.cell r with content := m, views := [] })
  /-- what a field was read as is kept -/
  | keep {r : Ref .message} {name : String} {f : FieldDescriptor} {v : Value}
    (hr : h.Has ⟨.message, r⟩) (hnew : lookupName name (h.cell r).views = none)
    (hf : (h.cell r).content.descriptor.field? name = some f)
    (hv : h.Reads (h.cell r).content f (h.cell r).config v)
    (hfrozen : (h.cell r).frozen = true → ∀ p, v.ref? = some p → (h.cell p.2).isFrozen = true)
    (hfresh : h.Fresh v) (helements : ∀ w ∈ h.elements v, h.Fresh w)
    (hnodup : ((h.elements v).filterMap Value.ref?).Nodup)
    (hafter : ∀ w ∈ v :: h.elements v, ∀ q : Ref .message, w = .message q → r.index < q.index) :
    Change (h.put r { h.cell r with views := (h.cell r).views ++ [(name, v)] })
  | freeze {v : Value} (hv : v.Within h) : Change (h.freeze v)

/-- Whether all that was done is that a message keeps what a field of it was read as. -/
structure KeepsView (h : Heap) (r : Ref .message) (name : String) (f : FieldDescriptor) (v : Value)
    (h' : Heap) : Prop where
  has : h.Has ⟨.message, r⟩
  new : lookupName name (h.cell r).views = none
  field : (h.cell r).content.descriptor.field? name = some f
  reads : h.Reads (h.cell r).content f (h.cell r).config v
  after : ∀ w ∈ v :: h.elements v, ∀ q : Ref .message, w = .message q → r.index < q.index
  eq : h' = h.put r { h.cell r with views := (h.cell r).views ++ [(name, v)] }

/-- Any number of changes. -/
def Changes (pools : Set Pool) : Heap → Heap → Prop := Relation.ReflTransGen (Change pools)

end Heap

end Protoscript
