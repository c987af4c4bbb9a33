import Protoscript.Proofs.Nesting

/-!
# Types that two pools declare alike

Two pools that were made from the same files are told apart, but each type of the one has a counterpart
in the other: the type of its name, with the same fields. A message of the one pool can be moved to the
other, which changes nothing but the types that it and the messages in it refer to.

* `MessageDescriptor.counterpart` — the type of a pool that has the name of a type;
* `Pool.Redeclares` — a pool declares all types of another one again, in the same way;
* `Message.moved`, `Stored.moved` — messages with the counterparts of their types;
* `Message.equals_moved` — comparing with a message does not tell whether it was moved;
* `MessageDescriptor.Takes.moved`, `Message.toWire_moved` — a moved message conforms to its new type, and
  its encoding is the same.
-/

namespace Protoscript

/-! ## Counterparts -/

/-- The type of a pool that has the name of a type; if there is none, the type itself. -/
def MessageDescriptor.counterpart (p : Pool) (d : MessageDescriptor) : MessageDescriptor :=
  ((p.messages.findIdx? fun m => m.fullName == d.fullName).map (⟨p, ·⟩)).getD d

/-- Whether two types of values are the same, but for the pools of messages and enums. -/
inductive Kind.Counterpart (p : Pool) : Kind → Kind → Prop
  | scalar (t : ScalarType) : Kind.Counterpart p (.scalar t) (.scalar t)
  | message (d : MessageDescriptor) : Kind.Counterpart p (.message d) (.message (d.counterpart p))
  | enum {d e : EnumDescriptor} (fullName : e.fullName = d.fullName) (values : e.values = d.values) :
    Kind.Counterpart p (.enum d) (.enum e)

/-- Whether two fields are declared in the same way. -/
structure FieldDescriptor.Counterpart (p : Pool) (f g : FieldDescriptor) : Prop where
  name : g.name = f.name
  number : g.number = f.number
  isRepeated : g.info.isRepeated = f.info.isRepeated
  kind : f.kind.Counterpart p g.kind
  hasPresence : g.hasPresence = f.hasPresence
  declaredDefault : g.info.declaredDefault = f.info.declaredDefault
  oneof : g.info.oneof = f.info.oneof
  edition : g.message.info.edition = f.message.info.edition

/-- Whether a pool declares every type of another pool again, in the same way. It may declare more. -/
structure Pool.Redeclares (p q : Pool) : Prop where
  among {d : MessageDescriptor} (hd : d.Among {q}) : (d.counterpart p).Among {p}
  isMapEntry {d : MessageDescriptor} (hd : d.Among {q}) : (d.counterpart p).isMapEntry = d.isMapEntry
  fields {d : MessageDescriptor} (hd : d.Among {q}) :
    List.Forall₂ (FieldDescriptor.Counterpart p) d.fields (d.counterpart p).fields

@[simp] theorem MessageDescriptor.fullName_counterpart (p : Pool) (d : MessageDescriptor) :
    (d.counterpart p).fullName = d.fullName := by
  unfold counterpart
  rcases hfind : p.messages.findIdx? fun m => m.fullName == d.fullName with _ | i <;> rw [hfind]
  · rfl
  · obtain ⟨hi, hname, -⟩ := List.findIdx?_eq_some_iff_getElem.1 hfind
    change (p.messages.getD i default).fullName = d.fullName
    rw [List.getD_eq_getElem _ _ hi]
    exact beq_iff_eq.1 hname

variable {p q : Pool}

/-- The counterpart is the one type of the pool that has the name. -/
theorem MessageDescriptor.counterpart_eq {d e : MessageDescriptor} (he : e.Among {p})
    (hname : e.fullName = d.fullName) : d.counterpart p = e := by
  have hcounterpart := d.fullName_counterpart p
  unfold counterpart at hcounterpart ⊢
  rcases hfind : p.messages.findIdx? fun m => m.fullName == d.fullName with _ | i <;>
    rw [hfind] at hcounterpart ⊢
  · have hno := List.findIdx?_eq_none_iff.1 hfind e.info he.info_mem
    exact absurd hname (beq_eq_false_iff_ne.1 hno)
  · obtain ⟨hi, -⟩ := List.findIdx?_eq_some_iff_getElem.1 hfind
    exact MessageDescriptor.eq_of_fullName ⟨rfl, hi⟩ he (hcounterpart.trans hname.symm)

/-- A type of a pool is its own counterpart there. -/
theorem MessageDescriptor.Among.counterpart_eq {d : MessageDescriptor} (hd : d.Among {p}) :
    d.counterpart p = d :=
  MessageDescriptor.counterpart_eq hd rfl

theorem MessageDescriptor.number_of_numbered? {d : MessageDescriptor} {number : Nat} {f : FieldDescriptor}
    (hf : d.numbered? number = some f) : f.number = number := by
  obtain ⟨info, hinfo, rfl⟩ := Option.map_eq_some_iff.1 hf
  exact beq_iff_eq.1 (List.find?_some hinfo :)

namespace FieldDescriptor

variable {f g : FieldDescriptor}

theorem Counterpart.defaultScalar?_eq (hfg : f.Counterpart p g) : g.defaultScalar? = f.defaultScalar? := by
  unfold defaultScalar?
  rw [hfg.declaredDefault]
  rcases f.info.declaredDefault with _ | s
  · have hkind := hfg.kind
    revert hkind
    generalize f.kind = k
    generalize g.kind = l
    rintro (t | d | ⟨-, hvalues⟩)
    · rfl
    · rfl
    · simp only [EnumDescriptor.defaultNumber, hvalues]
  · rfl

section

variable (hpq : p.Redeclares q) (hfg : f.Counterpart p g) (hf : f.kind.Of q)

include hpq hfg hf

theorem Counterpart.isMap_eq : g.isMap = f.isMap := by
  unfold isMap
  rw [hfg.isRepeated]
  have hkind := hfg.kind
  revert hkind hf
  generalize f.kind = k
  generalize g.kind = l
  rintro hf (t | d | hname)
  · rfl
  · simp only [hpq.isMapEntry (hf d rfl)]
  · rfl

theorem Counterpart.isList_eq : g.isList = f.isList := by
  unfold isList
  rw [hfg.isRepeated, hfg.isMap_eq hpq hf]

end

end FieldDescriptor

/-- Members of one oneof have counterparts that are. -/
theorem FieldDescriptor.Counterpart.siblings {d : MessageDescriptor} {f f' g g' : FieldDescriptor}
    (hf : f.Counterpart p f') (hg : g.Counterpart p g') (hfd : f ∈ d.fields) (hgd : g ∈ d.fields)
    (h : g' ∈ f'.siblings) : g ∈ f.siblings := by
  unfold FieldDescriptor.siblings inOneof at h ⊢
  rw [hf.oneof] at h
  split at h
  · rename_i hset
    rw [if_pos hset]
    obtain ⟨-, hsame⟩ := List.mem_filter.1 h
    rw [hf.number, hg.number, hg.oneof] at hsame
    rw [(MessageDescriptor.mem_fields.1 hfd).1]
    exact List.mem_filter.2 ⟨hgd, hsame⟩
  · cases h

namespace Pool.Redeclares

variable (hpq : p.Redeclares q) {d : MessageDescriptor} {f g : FieldDescriptor}

include hpq

theorem exists_counterpart (hd : d.Among {q}) (hf : f ∈ d.fields) :
    ∃ g ∈ (d.counterpart p).fields, f.Counterpart p g := by
  obtain ⟨g, hg, hfg⟩ := exists_of_forall₂ (hpq.fields hd).flip hf
  exact ⟨g, hg, hfg⟩

theorem exists_original (hd : d.Among {q}) (hg : g ∈ (d.counterpart p).fields) :
    ∃ f ∈ d.fields, f.Counterpart p g :=
  exists_of_forall₂ (hpq.fields hd) hg

/-- Counterparts have counterparts under the same numbers. -/
theorem numbered?_eq_some (hd : d.Among {q}) {number : Nat} (hf : d.numbered? number = some f) :
    ∃ g, (d.counterpart p).numbered? number = some g ∧ f.Counterpart p g := by
  obtain ⟨g, hg, hfg⟩ := hpq.exists_counterpart hd (MessageDescriptor.numbered?_mem hf)
  refine ⟨g, ?_, hfg⟩
  rw [← MessageDescriptor.number_of_numbered? hf, ← hfg.number]
  exact MessageDescriptor.numbered?_number hg

theorem numbered?_eq_none (hd : d.Among {q}) {number : Nat} (hf : d.numbered? number = none) :
    (d.counterpart p).numbered? number = none := by
  rcases hg : (d.counterpart p).numbered? number with _ | g
  · rfl
  · obtain ⟨f, hmem, hfg⟩ := hpq.exists_original hd (MessageDescriptor.numbered?_mem hg)
    have hnumber := MessageDescriptor.numbered?_number hmem
    rw [← hfg.number, MessageDescriptor.number_of_numbered? hg, hf] at hnumber
    cases hnumber

/-- The parts of an entry type have counterparts, if only defaults in place of parts that it lacks. -/
theorem part (hd : d.Among {q}) (number : Nat) :
    ((d.numbered? number).getD default).Counterpart p
      (((d.counterpart p).numbered? number).getD default) := by
  rcases hf : d.numbered? number with _ | f
  · rw [hpq.numbered?_eq_none hd hf]
    exact ⟨rfl, rfl, rfl, .scalar _, rfl, rfl, rfl, rfl⟩
  · obtain ⟨g, hg, hfg⟩ := hpq.numbered?_eq_some hd hf
    rw [hg]
    exact hfg

end Pool.Redeclares

/-! ### Pools of the same files -/

/-- Pools of the same declarations declare each other again. -/
theorem Pool.redeclares_of_eq (hmessages : p.messages = q.messages) (henums : p.enums = q.enums) :
    p.Redeclares q := by
  have hcounterpart {d : MessageDescriptor} (hd : d.Among {q}) :
      d.counterpart p = ⟨p, d.index⟩ ∧ (⟨p, d.index⟩ : MessageDescriptor).Among {p} := by
    have hlt : d.index < p.messages.length := by
      rw [hmessages, ← hd.pool_eq]
      exact hd.declared
    refine ⟨MessageDescriptor.counterpart_eq ⟨rfl, hlt⟩ ?_, rfl, hlt⟩
    simp only [MessageDescriptor.fullName, MessageDescriptor.info, hmessages, ← hd.pool_eq]
  have hinfo {d : MessageDescriptor} (hd : d.Among {q}) : (d.counterpart p).info = d.info := by
    simp only [(hcounterpart hd).1, MessageDescriptor.info, hmessages, ← hd.pool_eq]
  refine ⟨fun hd => (hcounterpart hd).1 ▸ (hcounterpart hd).2, fun hd => ?_, fun {d} hd => ?_⟩
  · rw [MessageDescriptor.isMapEntry, hinfo hd, MessageDescriptor.isMapEntry]
  · rw [MessageDescriptor.fields, MessageDescriptor.fields, hinfo hd, List.forall₂_map_left_iff,
      List.forall₂_map_right_iff, List.forall₂_same]
    intro info hmem
    refine ⟨rfl, rfl, rfl, ?_, rfl, rfl, rfl, congrArg MessageInfo.edition (hinfo hd)⟩
    have hf : (⟨d, info⟩ : FieldDescriptor).Of q :=
      FieldDescriptor.of_mem hd (MessageDescriptor.mem_fields.2 ⟨rfl, hmem⟩)
    have hkind := hf.kind
    rcases hk : info.kind with t | i | i <;> simp only [FieldDescriptor.kind, hk] at hkind ⊢
    · exact .scalar t
    · have hsame := (hcounterpart (hkind _ rfl)).1
      rw [(hcounterpart hd).1, ← hsame]
      exact .message _
    · refine .enum ?_ ?_ <;>
        simp only [EnumDescriptor.fullName, EnumDescriptor.values, EnumDescriptor.info, (hcounterpart hd).1,
          henums, hd.pool_eq]

/-- The number of a pool does not matter to how its files are resolved. -/
theorem Pool.ofFiles_renumbered {id : Nat} {files : List FileDecl} (h : Pool.ofFiles id files = .ok p)
    (other : Nat) : Pool.ofFiles other files = .ok { p with id := other } := by
  unfold Pool.ofFiles at h ⊢
  obtain ⟨_, hfiles, h⟩ := Except.bind_ok.1 h
  obtain ⟨_, hpaths, h⟩ := Except.bind_ok.1 h
  refine Except.bind_ok.2 ⟨_, hfiles, Except.bind_ok.2 ⟨_, hpaths, ?_⟩⟩
  extract_lets sites enumSites names packages scope resolved at h
  obtain ⟨_, hnames, h⟩ := Except.bind_ok.1 h
  refine Except.bind_ok.2 ⟨_, hnames, ?_⟩
  split at h
  · cases h
  rename_i hfree
  extract_lets
  rw [hfree]
  dsimp only [resolved] at h
  obtain ⟨messages, hmessages, h⟩ := Except.bind_ok.1 h
  obtain ⟨enums, henums, h⟩ := Except.bind_ok.1 h
  obtain ⟨distinct, hdistinct, h⟩ := Except.bind_ok.1 h
  obtain ⟨within, hwithin, h⟩ := Except.bind_ok.1 h
  cases h
  refine Except.bind_ok.2 ⟨messages, hmessages, Except.bind_ok.2 ⟨enums, henums, ?_⟩⟩
  exact Except.bind_ok.2 ⟨distinct, hdistinct, Except.bind_ok.2 ⟨within, hwithin, rfl⟩⟩

/-- **Pools that were made from the same files** declare each other's types again. -/
theorem Pool.redeclares_ofFiles {i j : Nat} {files : List FileDecl} (hp : Pool.ofFiles i files = .ok p)
    (hq : Pool.ofFiles j files = .ok q) : p.Redeclares q := by
  rw [Pool.ofFiles_renumbered hp j] at hq
  cases hq
  exact redeclares_of_eq rfl rfl

/-! ## Moved messages -/

mutual

/-- A message as one of a pool, by the names of its type and of those of the messages in it. -/
def Message.moved (p : Pool) : Message → Message
  | .mk d fields unknown => .mk (d.counterpart p) (Message.movedFields p fields) unknown

/-- Fields, moved to a pool. -/
def Message.movedFields (p : Pool) : List (Nat × Stored) → List (Nat × Stored)
  | [] => []
  | (number, value) :: rest => (number, value.moved p) :: Message.movedFields p rest

/-- A stored value, moved to a pool. -/
def Stored.moved (p : Pool) : Stored → Stored
  | .scalar s => .scalar s
  | .message m => .message (m.moved p)
  | .list items => .list (Stored.movedItems p items)
  | .map entries => .map (Stored.movedEntries p entries)

/-- The items of a list, moved to a pool. -/
def Stored.movedItems (p : Pool) : List Stored → List Stored
  | [] => []
  | value :: rest => value.moved p :: Stored.movedItems p rest

/-- The entries of a map, moved to a pool. -/
def Stored.movedEntries (p : Pool) : List (MapKey × Stored) → List (MapKey × Stored)
  | [] => []
  | (key, value) :: rest => (key, value.moved p) :: Stored.movedEntries p rest

end

theorem Stored.movedItems_eq (p : Pool) (items : List Stored) :
    Stored.movedItems p items = items.map (Stored.moved p) := by
  induction items with
  | nil => rfl
  | cons s rest ih => rw [Stored.movedItems, List.map_cons, ih]

theorem Stored.movedEntries_eq (p : Pool) (entries : List (MapKey × Stored)) :
    Stored.movedEntries p entries = entries.map fun e => (e.1, e.2.moved p) := by
  induction entries with
  | nil => rfl
  | cons e rest ih =>
    obtain ⟨key, value⟩ := e
    rw [Stored.movedEntries, List.map_cons, ih]

namespace Message

theorem movedFields_eq (p : Pool) (fields : List (Nat × Stored)) :
    movedFields p fields = fields.map fun e => (e.1, e.2.moved p) := by
  induction fields with
  | nil => rfl
  | cons e rest ih =>
    obtain ⟨number, value⟩ := e
    rw [movedFields, List.map_cons, ih]

@[simp] theorem descriptor_moved (p : Pool) (m : Message) :
    (m.moved p).descriptor = m.descriptor.counterpart p := by
  cases m
  rfl

@[simp] theorem unknown_moved (p : Pool) (m : Message) : (m.moved p).unknown = m.unknown := by
  cases m
  rfl

theorem fields_moved (p : Pool) (m : Message) :
    (m.moved p).fields = m.fields.map fun e => (e.1, e.2.moved p) := by
  cases m
  exact movedFields_eq p _

@[simp] theorem fullName_moved (p : Pool) (m : Message) : (m.moved p).fullName = m.fullName := by
  unfold fullName
  rw [descriptor_moved, MessageDescriptor.fullName_counterpart]

/-- What a moved message holds under a number was there before. -/
theorem stored?_moved {f g : FieldDescriptor} (hnumber : g.number = f.number) (m : Message) :
    (m.moved p).stored? g = (m.stored? f).map (Stored.moved p) := by
  unfold stored?
  rw [fields_moved, hnumber]
  induction m.fields with
  | nil => rfl
  | cons e rest ih =>
    rw [List.map_cons, lookupNumber, lookupNumber]
    split
    · rfl
    · exact ih

end Message

/-- Moving changes neither the shape of a stored value nor its scalars. -/
theorem Stored.isDefaultOf_moved (f : FieldDescriptor) (s : Stored) :
    (s.moved p).isDefaultOf f = s.isDefaultOf f := by
  cases s with
  | scalar => rfl
  | message => rfl
  | list items => rw [Stored.moved, Stored.movedItems_eq, isDefaultOf, isDefaultOf, List.isEmpty_map]
  | map entries => rw [Stored.moved, Stored.movedEntries_eq, isDefaultOf, isDefaultOf, List.isEmpty_map]

theorem Message.has_moved (f : FieldDescriptor) (m : Message) : (m.moved p).has f = m.has f := by
  unfold has
  rw [stored?_moved rfl]
  rcases m.stored? f with _ | s
  · rfl
  · simp only [Option.map_some, Stored.isDefaultOf_moved]

/-! ### Equality -/

theorem lookupKey_moved (key : MapKey) (entries : List (MapKey × Stored)) :
    lookupKey key (Stored.movedEntries p entries) = (lookupKey key entries).map (Stored.moved p) := by
  induction entries with
  | nil => rfl
  | cons e rest ih =>
    obtain ⟨k, value⟩ := e
    rw [Stored.movedEntries, lookupKey, lookupKey]
    split
    · rfl
    · exact ih

theorem Stored.flatEquals_moved (s t : Stored) : s.flatEquals (t.moved p) = s.flatEquals t := by
  rcases t with x | m | (_ | ⟨item, rest⟩) | (_ | ⟨⟨key, value⟩, rest⟩) <;>
    rcases s with y | n | (_ | ⟨other, more⟩) | (_ | ⟨other, more⟩) <;> rfl

/-- A map holds a moved entry for each entry of another one as far as it did before. -/
theorem Stored.mapWithin_moved {xs ys : List (MapKey × Stored)}
    (h : ∀ e ∈ xs, ∀ t, e.2.equals (t.moved p) = e.2.equals t) :
    Stored.mapWithin xs (Stored.movedEntries p ys) = Stored.mapWithin xs ys := by
  rw [Bool.eq_iff_iff, mapWithin_iff, mapWithin_iff]
  refine forall₂_congr fun e he => ?_
  rw [lookupKey_moved]
  rcases lookupKey e.1 ys with _ | t
  · rfl
  · simp only [Option.map_some, Option.some.injEq, exists_eq_left', h e he]

theorem Stored.listEquals_moved {xs ys : List Stored}
    (h : ∀ s ∈ xs, ∀ t, s.equals (t.moved p) = s.equals t) :
    Stored.listEquals xs (Stored.movedItems p ys) = Stored.listEquals xs ys := by
  rw [Bool.eq_iff_iff, listEquals_iff, listEquals_iff, movedItems_eq, List.forall₂_map_right_iff]
  constructor
  · exact fun hall => forall₂_of_mem hall fun s hs t _ hst => h s hs t ▸ hst
  · exact fun hall => forall₂_of_mem hall fun s hs t _ hst => (h s hs t).symm ▸ hst

/-- The values of a map are smaller than the map. -/
theorem Stored.sizeOf_value_lt {entries : List (MapKey × Stored)} {e : MapKey × Stored} (he : e ∈ entries) :
    sizeOf e.2 < sizeOf (Stored.map entries) := by
  have hmem := List.sizeOf_lt_of_mem he
  obtain ⟨key, value⟩ := e
  simp only [Prod.mk.sizeOf_spec, Stored.map.sizeOf_spec] at hmem ⊢
  omega

mutual

/-- **A message equals a moved one** if it equals the message as it was. -/
theorem Message.equals_moved (a b : Message) : a.equals (b.moved p) = a.equals b := by
  rw [Bool.eq_iff_iff, Message.equals_iff, Message.equals_iff, Message.fullName_moved]
  refine and_congr_right fun _ => forall₂_congr fun f _ => ?_
  have hequals (s : Stored) (hs : a.stored? f = some s) :
      s.equals ((b.moved p).get f) = s.equals (b.get f) := by
    have hlt := Message.sizeOf_stored?_lt hs
    rw [Message.get, Message.get, Message.stored?_moved rfl]
    rcases b.stored? f with _ | t
    · rfl
    · exact s.equals_moved t
  have hflat (s : Stored) : s.flatEquals ((b.moved p).get f) = s.flatEquals (b.get f) := by
    rw [Message.get, Message.get, Message.stored?_moved rfl]
    rcases b.stored? f with _ | t
    · rfl
    · exact s.flatEquals_moved t
  rw [Message.has_moved]
  rcases hs : a.stored? f with _ | s
  · simp only [hflat]
  · simp only [hequals s hs]
termination_by sizeOf a

theorem Stored.equals_moved (s t : Stored) : s.equals (t.moved p) = s.equals t := by
  cases s with
  | scalar x => cases t <;> simp only [Stored.moved, Stored.equals]
  | message m =>
    cases t with
    | message n => rw [Stored.moved, Stored.equals, Stored.equals, m.equals_moved n]
    | _ => simp only [Stored.moved, Stored.equals]
  | list xs =>
    cases t with
    | list ys =>
      rw [Stored.moved, Stored.equals, Stored.equals, Stored.listEquals_moved fun s hs t => s.equals_moved t]
    | _ => simp only [Stored.moved, Stored.equals]
  | map es =>
    cases t with
    | map fs =>
      have hvalues (e : MapKey × Stored) (he : e ∈ es) (t : Stored) :
          e.2.equals (t.moved p) = e.2.equals t := by
        have hlt : sizeOf e.2 < 1 + sizeOf es := by simpa using Stored.sizeOf_value_lt he
        exact e.2.equals_moved t
      rw [Stored.moved, Stored.equals, Stored.equals, Stored.movedEntries_eq, List.length_map,
        ← Stored.movedEntries_eq, Stored.mapWithin_moved hvalues]
    | _ => simp only [Stored.moved, Stored.equals]
termination_by sizeOf s

end

/-! ### Types -/

namespace Kind.Counterpart

variable {k l : Kind} (hkl : k.Counterpart p l)

include hkl

theorem holdsScalar {s : Scalar} (hs : k.HoldsScalar s) : l.HoldsScalar s := by
  cases hkl with
  | message => cases hs
  | _ => exact hs

theorem toWire?_eq (s : Scalar) : l.toWire? s = k.toWire? s := by
  cases hkl with
  | enum => cases s <;> rfl
  | _ => rfl

theorem packedCode?_eq : l.packedCode? = k.packedCode? := by
  cases hkl <;> rfl

end Kind.Counterpart

/-- The keys and values of maps have counterparts. -/
theorem Pool.Redeclares.partKinds (hpq : p.Redeclares q) {f g : FieldDescriptor} (hf : f.kind.Of q)
    (hfg : f.Counterpart p g) : f.keyKind.Counterpart p g.keyKind ∧ f.valueKind.Counterpart p g.valueKind := by
  unfold FieldDescriptor.keyKind FieldDescriptor.valueKind
  have hkind := hfg.kind
  revert hf hkind
  generalize f.kind = k
  generalize g.kind = l
  rintro hf (t | d | ⟨hname, hvalues⟩)
  · exact ⟨.scalar t, .scalar t⟩
  · exact ⟨(hpq.part (hf d rfl) 1).kind, (hpq.part (hf d rfl) 2).kind⟩
  · exact ⟨.enum hname hvalues, .enum hname hvalues⟩

mutual

theorem Kind.Holds.moved (hpq : p.Redeclares q) : ∀ {k : Kind} {s : Stored}, k.Holds s → k.Of q → ∀ {l : Kind},
    k.Counterpart p l → l.Holds (s.moved p)
  | _, _, .scalar hs, _, _, hkl => .scalar (hkl.holdsScalar hs)
  | _, _, .message hd hm, hk, _, .message _ => by
    subst hd
    exact .message (Message.descriptor_moved p _) (Message.Conforms.moved hpq hm (hk _ rfl))

theorem FieldDescriptor.Holds.moved (hpq : p.Redeclares q) : ∀ {f : FieldDescriptor} {s : Stored},
    f.Holds s → f.Of q → ∀ {g : FieldDescriptor}, f.Counterpart p g → g.Holds (s.moved p)
  | _, _, .single hmap hlist hs, hf, _, hfg =>
    .single (hfg.isMap_eq hpq hf.kind ▸ hmap) (hfg.isList_eq hpq hf.kind ▸ hlist)
      (Kind.Holds.moved hpq hs hf.kind hfg.kind)
  | _, _, .list hlist hitems, hf, _, hfg => by
    rw [Stored.moved, Stored.movedItems_eq]
    refine .list (hfg.isList_eq hpq hf.kind ▸ hlist) fun s hs => ?_
    obtain ⟨t, ht, rfl⟩ := List.mem_map.1 hs
    exact Kind.Holds.moved hpq (hitems t ht) hf.kind hfg.kind
  | _, _, .map hmap hkeys hvalues hsorted, hf, _, hfg => by
    obtain ⟨hkey, hvalue⟩ := hpq.partKinds hf.kind hfg
    rw [Stored.moved, Stored.movedEntries_eq]
    refine .map (hfg.isMap_eq hpq hf.kind ▸ hmap) (fun e he => ?_) (fun e he => ?_) ?_
    · obtain ⟨e', he', rfl⟩ := List.mem_map.1 he
      exact hkey.holdsScalar (hkeys e' he')
    · obtain ⟨e', he', rfl⟩ := List.mem_map.1 he
      exact Kind.Holds.moved hpq (hvalues e' he') hf.valueKind hvalue
    · rwa [List.map_map]

/-- A moved message conforms to the counterpart of its type. -/
theorem Message.Conforms.moved (hpq : p.Redeclares q) : ∀ {m : Message}, m.Conforms →
    m.descriptor.Among {q} → (m.moved p).Conforms
  | m, .mk sorted declared held single undeclared, hd => by
    have hnumbers : (m.moved p).fields.map (·.1) = m.fields.map (·.1) := by
      rw [Message.fields_moved, List.map_map]
      rfl
    have horiginal {g : FieldDescriptor} (hg : g ∈ (m.moved p).descriptor.fields) :
        ∃ f ∈ m.descriptor.fields, f.Counterpart p g := by
      rw [Message.descriptor_moved] at hg
      exact hpq.exists_original hd hg
    refine .mk (hnumbers ▸ sorted) (fun e he => ?_) (fun g hg s hs => ?_) (fun g hg hset k hk => ?_) ?_
    · rw [Message.fields_moved] at he
      obtain ⟨e', he', rfl⟩ := List.mem_map.1 he
      obtain ⟨f, hf, hnumber⟩ := declared e' he'
      obtain ⟨g, hg, hfg⟩ := hpq.exists_counterpart hd hf
      exact ⟨g, Message.descriptor_moved p m ▸ hg, hfg.number.trans hnumber⟩
    · obtain ⟨f, hf, hfg⟩ := horiginal hg
      rw [Message.stored?_moved hfg.number] at hs
      obtain ⟨t, ht, rfl⟩ := Option.map_eq_some_iff.1 hs
      exact FieldDescriptor.Holds.moved hpq (held f hf t ht) (FieldDescriptor.of_mem hd hf) hfg
    · obtain ⟨f, hf, hfg⟩ := horiginal hg
      obtain ⟨k', hk', hkk'⟩ := horiginal (MessageDescriptor.mem_of_siblings hg hk)
      rw [Message.stored?_moved hfg.number, Option.isSome_map] at hset
      rw [Message.stored?_moved hkk'.number, single f hf hset k' (hfg.siblings hkk' hf hk' hk)]
      rfl
    · rw [Message.unknown_moved, Message.descriptor_moved]
      exact fun e he => hpq.numbered?_eq_none hd (undeclared e he)

end

theorem MessageDescriptor.Takes.moved (hpq : p.Redeclares q) {d : MessageDescriptor} (hd : d.Among {q})
    {m : Message} (hm : d.Takes m) : (d.counterpart p).Takes (m.moved p) :=
  ⟨by rw [Message.descriptor_moved, hm.descriptor], hm.conforms.moved hpq (hm.descriptor ▸ hd)⟩

/-! ### Encodings -/

section

variable {f g : FieldDescriptor} (hpq : p.Redeclares q) (hf : f.kind.Of q) (hfg : f.Counterpart p g)

include hpq hf hfg

theorem Stored.isDefaultOf_counterpart (s : Stored) : (s.moved p).isDefaultOf g = s.isDefaultOf f := by
  rw [Stored.isDefaultOf_moved]
  cases s <;> simp only [isDefaultOf, hfg.isMap_eq hpq hf, hfg.isList_eq hpq hf, hfg.defaultScalar?_eq]

theorem FieldDescriptor.Counterpart.scalarWire_eq (s : Scalar) : g.scalarWire s = f.scalarWire s := by
  simp only [scalarWire, hfg.hasPresence, hfg.number, hfg.kind.toWire?_eq,
    show (Stored.scalar s).isDefaultOf g = (Stored.scalar s).isDefaultOf f from
      Stored.isDefaultOf_counterpart hpq hf hfg (.scalar s)]

omit hpq hf in
theorem FieldDescriptor.Counterpart.listWire_eq (ws : List WireValue) : g.listWire ws = f.listWire ws := by
  simp only [listWire, hfg.edition, hfg.kind.packedCode?_eq, hfg.number]

/-- A single value is written as it was if it is as one item. -/
theorem Stored.toWire_counterpart {s : Stored} (hs : f.kind.Holds s)
    (hitem : g.kind.itemToWire? (s.moved p) = f.kind.itemToWire? s) : (s.moved p).toWire g = s.toWire f := by
  generalize hk : f.kind = k at hs
  cases hs with
  | scalar => exact hfg.scalarWire_eq hpq hf _
  | message =>
    simp only [Stored.moved, Kind.itemToWire?, Option.some.injEq, WireValue.delimited.injEq] at hitem
    rw [Stored.moved, Stored.toWire, Stored.toWire, hitem, hfg.number]

end

/-- What stands among the fields of a message is what the message holds there. -/
theorem Message.stored?_of_mem {m : Message} (sorted : (m.fields.map (·.1)).Pairwise (· < ·))
    {e : Nat × Stored} (he : e ∈ m.fields) {f : FieldDescriptor} (hf : f.number = e.1) :
    m.stored? f = some e.2 := by
  unfold stored?
  rw [hf]
  revert he sorted
  generalize m.fields = fields
  intro sorted he
  induction fields with
  | nil => cases he
  | cons e' rest ih =>
    rw [List.map_cons, List.pairwise_cons] at sorted
    rw [lookupNumber]
    rcases List.mem_cons.1 he with rfl | he
    · rw [if_pos rfl]
    · rw [if_neg (Nat.ne_of_lt (sorted.1 _ (List.mem_map_of_mem he))), ih sorted.2 he]

/-- The entries of a map are written as they were if their values are. -/
theorem Stored.toWire_map_counterpart (hpq : p.Redeclares q) {f g : FieldDescriptor} (hf : f.Of q)
    (hfg : f.Counterpart p g) (hmap : f.isMap = true) {entries : List (MapKey × Stored)}
    (hvalues : ∀ e ∈ entries, f.valueKind.Holds e.2)
    (hitems : ∀ e ∈ entries, ∀ l, f.valueKind.Counterpart p l →
      l.itemToWire? (e.2.moved p) = f.valueKind.itemToWire? e.2) :
    ((Stored.map entries).moved p).toWire g = (Stored.map entries).toWire f := by
  obtain ⟨entry, hentry⟩ := FieldDescriptor.kind_of_isMap hmap
  have hgentry : g.kind = .message (entry.counterpart p) := by
    have hkind := hfg.kind
    rw [hentry] at hkind
    generalize g.kind = l at hkind
    cases hkind
    rfl
  have hd := hf.kind entry hentry
  have hkey : (FieldDescriptor.entryKey entry).Counterpart p
    (FieldDescriptor.entryKey (entry.counterpart p)) := hpq.part hd 1
  have hvalue : (FieldDescriptor.entryValue entry).Counterpart p
    (FieldDescriptor.entryValue (entry.counterpart p)) := hpq.part hd 2
  have hvalueKind : f.valueKind = (FieldDescriptor.entryValue entry).kind := by
    rw [FieldDescriptor.valueKind, hentry]
  rw [hvalueKind] at hvalues hitems
  have hentries : ∀ e ∈ entries, (entry.counterpart p).entryFields e.1 (e.2.moved p) =
      entry.entryFields e.1 e.2 := by
    intro e he
    rw [MessageDescriptor.entryFields, MessageDescriptor.entryFields,
      hkey.scalarWire_eq hpq (hf.part hentry 1), Stored.toWire_counterpart hpq (hf.part hentry 2) hvalue
        (hvalues e he) (hitems e he _ hvalue.kind)]
    rfl
  rw [Stored.moved, Stored.movedEntries_eq, Stored.toWire, Stored.toWire, Stored.entriesToWire_eq hentry,
    Stored.entriesToWire_eq hgentry, hfg.number]
  simp only [List.map_map]
  refine List.map_congr_left fun e he => ?_
  exact congrArg (fun fields => (f.number, WireValue.delimited (writeFields fields))) (hentries e he)

/-- The fields of a message are written as they were if each of them is. -/
theorem Message.fieldsToWire_moved (hpq : p.Redeclares q) {d : MessageDescriptor} (hd : d.Among {q})
    {fields : List (Nat × Stored)}
    (h : ∀ e ∈ fields, ∀ f, d.numbered? e.1 = some f → ∀ g, f.Counterpart p g →
      (e.2.moved p).toWire g = e.2.toWire f) :
    fieldsToWire (d.counterpart p) (movedFields p fields) = fieldsToWire d fields := by
  induction fields with
  | nil => rfl
  | cons e rest ih =>
    obtain ⟨number, s⟩ := e
    obtain ⟨hfirst, hrest⟩ := List.forall_mem_cons.1 h
    rw [movedFields, fieldsToWire, fieldsToWire, ih hrest]
    rcases hf : d.numbered? number with _ | f
    · rw [hpq.numbered?_eq_none hd hf]
    · obtain ⟨g, hg, hfg⟩ := hpq.numbered?_eq_some hd hf
      rw [hg]
      exact congrArg (· ++ _) (hfirst f hf g hfg)

mutual

theorem Kind.Holds.itemToWire?_moved (hpq : p.Redeclares q) : ∀ {k : Kind} {s : Stored}, k.Holds s →
    k.Of q → ∀ {l : Kind}, k.Counterpart p l → l.itemToWire? (s.moved p) = k.itemToWire? s
  | _, _, .scalar _, _, _, hkl => hkl.toWire?_eq _
  | _, _, .message hd hm, hk, _, _ => by
    subst hd
    rw [Stored.moved, Kind.itemToWire?, Kind.itemToWire?, Message.Conforms.toWire_moved hpq hm (hk _ rfl)]

theorem FieldDescriptor.Holds.toWire_moved (hpq : p.Redeclares q) : ∀ {f : FieldDescriptor} {s : Stored},
    f.Holds s → f.Of q → ∀ {g : FieldDescriptor}, f.Counterpart p g → (s.moved p).toWire g = s.toWire f
  | _, _, .single _ _ hs, hf, _, hfg => Stored.toWire_counterpart hpq hf.kind hfg hs
    (Kind.Holds.itemToWire?_moved hpq hs hf.kind hfg.kind)
  | f, .list items, .list hlist hitems, hf, g, hfg => by
    have hsame : items.filterMap (g.kind.itemToWire? ∘ Stored.moved p) =
        items.filterMap f.kind.itemToWire? := List.filterMap_congr fun s hs =>
      Kind.Holds.itemToWire?_moved hpq (hitems s hs) hf.kind hfg.kind
    rw [Stored.moved, Stored.movedItems_eq, Stored.toWire, Stored.toWire, Stored.itemsToWire_eq,
      Stored.itemsToWire_eq, List.filterMap_map, hsame, hfg.listWire_eq]
  | _, _, .map hmap _ hvalues _, hf, _, hfg => Stored.toWire_map_counterpart hpq hf hfg hmap hvalues
    fun e he _ hkl => Kind.Holds.itemToWire?_moved hpq (hvalues e he) hf.valueKind hkl

/-- **A moved message is written as it was.** -/
theorem Message.Conforms.toWire_moved (hpq : p.Redeclares q) : ∀ {m : Message}, m.Conforms →
    m.descriptor.Among {q} → (m.moved p).toWire = m.toWire
  | .mk d fields _, .mk sorted _ held _ _, hd => by
    have hd : d.Among {q} := hd
    rw [Message.moved, Message.toWire, Message.toWire, Message.fieldsToWire_moved hpq hd]
    intro e he f hf g hfg
    have hmem := MessageDescriptor.numbered?_mem hf
    have hstored := Message.stored?_of_mem sorted he (MessageDescriptor.number_of_numbered? hf)
    exact FieldDescriptor.Holds.toWire_moved hpq (held f hmem e.2 hstored) (FieldDescriptor.of_mem hd hmem) hfg

end

/-! ### Nesting -/

/-- What lies in a moved value was there before, and was moved too. -/
theorem Stored.contains_moved {s : Stored} {c : Message} (h : (s.moved p).Contains c) :
    ∃ c', s.Contains c' ∧ c'.moved p = c := by
  generalize ht : s.moved p = t at h
  induction h generalizing s with
  | message =>
    cases s <;> cases ht
    exact ⟨_, .message, rfl⟩
  | list hmem _ ih =>
    cases s <;> cases ht
    rw [Stored.movedItems_eq] at hmem
    obtain ⟨s, hs, hmoved⟩ := List.mem_map.1 hmem
    obtain ⟨c', hc', hc⟩ := ih hmoved
    exact ⟨c', .list hs hc', hc⟩
  | map hmem _ ih =>
    cases s <;> cases ht
    rw [Stored.movedEntries_eq] at hmem
    obtain ⟨e, he, rfl⟩ := List.mem_map.1 hmem
    obtain ⟨c', hc', hc⟩ := ih rfl
    exact ⟨c', .map he hc', hc⟩

namespace Message

variable (hpq : p.Redeclares q) {m : Message} (hm : m.Conforms) (hd : m.descriptor.Among {q})

include hpq hm hd

theorem encloses_moved {c : Message} (h : (m.moved p).Encloses c) :
    ∃ c', m.Encloses c' ∧ c'.Conforms ∧ c'.descriptor.Among {q} ∧ c'.moved p = c := by
  obtain ⟨g, hg, t, ht, hc⟩ := h
  rw [descriptor_moved] at hg
  obtain ⟨f, hf, hfg⟩ := hpq.exists_original hd hg
  rw [stored?_moved hfg.number] at ht
  obtain ⟨s, hs, rfl⟩ := Option.map_eq_some_iff.1 ht
  obtain ⟨c', hc', hmoved⟩ := Stored.contains_moved hc
  have hholds := (⟨rfl, hm⟩ : m.descriptor.Takes m).stored hf hs
  obtain ⟨hamong, hconforms⟩ := hholds.contains (FieldDescriptor.of_mem hd hf) hc'
  exact ⟨c', ⟨f, hf, s, hs, hc'⟩, hconforms, hamong, hmoved⟩

theorem NestsWithin.moved {depth : Nat} (h : m.NestsWithin depth) : (m.moved p).NestsWithin depth := by
  induction depth generalizing m with
  | zero =>
    intro c hc
    obtain ⟨c', hc', -⟩ := encloses_moved hpq hm hd hc
    exact h c' hc'
  | succ depth ih =>
    intro c hc
    obtain ⟨c', hc', hconforms, hamong, rfl⟩ := encloses_moved hpq hm hd hc
    exact ih hconforms hamong (h c' hc')

theorem FitsWithin.moved {depth : Nat} (h : m.FitsWithin depth) : (m.moved p).FitsWithin depth := by
  have hfits {room : Nat} (hu : m.UndeclaredFits room) : (m.moved p).UndeclaredFits room :=
    ⟨m.unknown_moved p ▸ hu.sorted, m.unknown_moved p ▸ hu.fits⟩
  induction depth generalizing m with
  | zero => exact hfits h
  | succ depth ih =>
    refine ⟨hfits h.1, fun c hc => ?_⟩
    obtain ⟨c', hc', hconforms, hamong, rfl⟩ := encloses_moved hpq hm hd hc
    exact ih hconforms hamong (h.2 c' hc') fun hu =>
      ⟨c'.unknown_moved p ▸ hu.sorted, c'.unknown_moved p ▸ hu.fits⟩

end Message

end Protoscript
