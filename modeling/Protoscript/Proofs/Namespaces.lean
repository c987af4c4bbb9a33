import Mathlib
import Protoscript.Proofs.Computation
import Protoscript.Proofs.Lookups
import Protoscript.Proofs.Packing
import Protoscript.Proofs.Rooting
import Protoscript.Script.Operations

/-!
# Walking to types

From a package, types are reached along their short names: first those declared at its top level, then those
declared inside messages. Nothing else is reached, and each is reached along one path, whatever was looked up
before.

* `Pool.Member`, `Pool.Leads` — the types declared in a scope, and those that a path of names leads to;
* `Script.walk` — walking along attributes;
* `Pool.Rooted.member_unique`, `Pool.Rooted.symbolName_leads` — short names tell the types of a scope apart,
  and paths spell full names;
* `Loader.Lists` — whether a list of types is that of a scope; `Loader.lists_members`, `Loader.lists_nested`
  — the lists that packages and message types have are;
* `Loader.run_attr_iff` — one step;
* `Loader.walk_reaches` — any number of steps.
-/

namespace Protoscript

/-! ## Types and scopes -/

/-- Where types are declared: in a package, or in the message at a place. -/
inductive TypeScope where
  | package (name : String)
  | message (place : Nat)

namespace Pool

/-- The types that are declared in a scope, by short name. In a message, the entry types of maps do not
count. -/
def Member (p : Pool) : TypeScope → String → TypeSymbol → Prop
  | .package package, name, .message i =>
    ∃ m, p.messages[i]? = some m ∧ m.name = name ∧ m.package = package ∧ m.parent = none
  | .package package, name, .enum i =>
    ∃ e, p.enums[i]? = some e ∧ e.name = name ∧ e.package = package ∧ e.parent = none
  | .message place, name, .message i =>
    ∃ m, p.messages[i]? = some m ∧ m.name = name ∧ m.parent = some place ∧ m.isMapEntry = false
  | .message place, name, .enum i => ∃ e, p.enums[i]? = some e ∧ e.name = name ∧ e.parent = some place

/-- A path of short names leads from a scope to a type. -/
inductive Leads (p : Pool) : TypeScope → List String → TypeSymbol → Prop
  | last {scope : TypeScope} {name : String} {s : TypeSymbol} (h : p.Member scope name s) :
      Leads p scope [name] s
  | step {scope : TypeScope} {name : String} {i : Nat} {rest : List String} {s : TypeSymbol}
      (hfirst : p.Member scope name (.message i)) (hrest : Leads p (.message i) rest s) :
      Leads p scope (name :: rest) s

/-- The full name of a type. -/
def symbolName (p : Pool) : TypeSymbol → String
  | .message i => (⟨p, i⟩ : MessageDescriptor).fullName
  | .enum i => (⟨p, i⟩ : EnumDescriptor).fullName

/-- The full name of a scope. -/
def scopeName (p : Pool) : TypeScope → String
  | .package name => name
  | .message i => (⟨p, i⟩ : MessageDescriptor).fullName

/-- No type at the top level of a package has a full name with a dot in front. -/
def PlainPackage (p : Pool) (package : String) : Prop :=
  ∀ name s, p.Member (.package package) name s → bareName (p.symbolName s) = p.symbolName s

variable {p : Pool} {scope : TypeScope} {name : String} {s : TypeSymbol}

theorem info_message {i : Nat} {m : MessageInfo} (h : p.messages[i]? = some m) :
    (⟨p, i⟩ : MessageDescriptor).info = m := by
  rw [MessageDescriptor.info, List.getD_eq_getElem?_getD, h]
  rfl

theorem info_enum {i : Nat} {e : EnumInfo} (h : p.enums[i]? = some e) : (⟨p, i⟩ : EnumDescriptor).info = e := by
  rw [EnumDescriptor.info, List.getD_eq_getElem?_getD, h]
  rfl

/-- The short name of a type. -/
def shortName (p : Pool) : TypeSymbol → String
  | .message i => (⟨p, i⟩ : MessageDescriptor).name
  | .enum i => (⟨p, i⟩ : EnumDescriptor).name

theorem Member.get (h : p.Member scope name s) :
    (∃ i m, s = .message i ∧ p.messages[i]? = some m ∧ m.name = name) ∨
      ∃ i e, s = .enum i ∧ p.enums[i]? = some e ∧ e.name = name := by
  cases scope <;> cases s <;> obtain ⟨x, hget, hname, -⟩ := h
  · exact .inl ⟨_, x, rfl, hget, hname⟩
  · exact .inr ⟨_, x, rfl, hget, hname⟩
  · exact .inl ⟨_, x, rfl, hget, hname⟩
  · exact .inr ⟨_, x, rfl, hget, hname⟩

theorem Member.name_eq (h : p.Member scope name s) : name = p.shortName s := by
  obtain ⟨i, m, rfl, hget, rfl⟩ | ⟨i, e, rfl, hget, rfl⟩ := h.get
  · rw [shortName, MessageDescriptor.name, info_message hget]
  · rw [shortName, EnumDescriptor.name, info_enum hget]

/-! ### Lists of descriptors -/

theorem mem_allMessages {d : MessageDescriptor} :
    d ∈ p.allMessages ↔ ∃ i, d = ⟨p, i⟩ ∧ p.messages[i]? = some d.info := by
  rw [allMessages, List.mem_map]
  constructor
  · rintro ⟨i, hi, rfl⟩
    have hget := List.getElem?_eq_getElem (List.mem_range.1 hi)
    exact ⟨i, rfl, hget.trans (congrArg some (info_message hget).symm)⟩
  · rintro ⟨i, rfl, hget⟩
    exact ⟨i, List.mem_range.2 (List.getElem?_eq_some_iff.1 hget).1, rfl⟩

theorem mem_allEnums {d : EnumDescriptor} :
    d ∈ p.allEnums ↔ ∃ i, d = ⟨p, i⟩ ∧ p.enums[i]? = some d.info := by
  rw [allEnums, List.mem_map]
  constructor
  · rintro ⟨i, hi, rfl⟩
    have hget := List.getElem?_eq_getElem (List.mem_range.1 hi)
    exact ⟨i, rfl, hget.trans (congrArg some (info_enum hget).symm)⟩
  · rintro ⟨i, rfl, hget⟩
    exact ⟨i, List.mem_range.2 (List.getElem?_eq_some_iff.1 hget).1, rfl⟩

theorem nodup_allMessages (p : Pool) : p.allMessages.Nodup :=
  List.nodup_range.map fun _ _ h => (MessageDescriptor.mk.inj h).2

theorem nodup_allEnums (p : Pool) : p.allEnums.Nodup :=
  List.nodup_range.map fun _ _ h => (EnumDescriptor.mk.inj h).2

theorem nestedMessages_eq (p : Pool) (place : Nat) : (⟨p, place⟩ : MessageDescriptor).nestedMessages =
    p.allMessages.filter fun d => d.info.parent == some place := by
  rw [allMessages, ← List.filterMap_eq_filter, List.filterMap_map]
  rfl

theorem nestedEnums_eq (p : Pool) (place : Nat) : (⟨p, place⟩ : MessageDescriptor).nestedEnums =
    p.allEnums.filter fun d => d.info.parent == some place := by
  rw [allEnums, ← List.filterMap_eq_filter, List.filterMap_map]
  rfl

/-! ### Names -/

/-- Whether a type is one of the pool. -/
def Has (p : Pool) : TypeSymbol → Prop
  | .message i => i < p.messages.length
  | .enum i => i < p.enums.length

theorem Member.has (h : p.Member scope name s) : p.Has s := by
  obtain ⟨i, m, rfl, hget, -⟩ | ⟨i, e, rfl, hget, -⟩ := h.get
  · exact (List.getElem?_eq_some_iff.1 hget).1
  · exact (List.getElem?_eq_some_iff.1 hget).1

/-- The place of a type among all of them, the messages first. -/
def rank (p : Pool) : TypeSymbol → Nat
  | .message i => i
  | .enum i => p.messages.length + i

theorem getElem?_rank (h : p.Has s) :
    (p.messages.map (·.fullName) ++ p.enums.map (·.fullName))[p.rank s]? = some (p.symbolName s) := by
  cases s with
  | message i =>
    have hget := List.getElem?_eq_getElem (show i < p.messages.length from h)
    rw [rank, symbolName, MessageDescriptor.fullName, info_message hget, List.getElem?_append_left
      (by rw [List.length_map]; exact h), List.getElem?_map, hget]
    rfl
  | enum i =>
    have hget := List.getElem?_eq_getElem (show i < p.enums.length from h)
    rw [rank, symbolName, EnumDescriptor.fullName, info_enum hget, List.getElem?_append_right (by simp),
      List.length_map, Nat.add_sub_cancel_left, List.getElem?_map, hget]
    rfl

namespace Rooted

/-- **Short names are the last parts of full names.** -/
theorem symbolName_member (hp : p.Rooted) (h : p.Member scope name s) :
    p.symbolName s = joinName (p.scopeName scope) name := by
  have inside {place : Nat} {package scope : String}
      (h : p.scopeName? package (some place) = some scope) : p.scopeName (.message place) = scope := by
    obtain ⟨m, hm, rfl⟩ := Option.map_eq_some_iff.1 h
    exact congrArg MessageInfo.fullName (info_message hm)
  have ofMessage {i : Nat} {m : MessageInfo} (hget : p.messages[i]? = some m) :
      ∃ scope, p.scopeName? m.package m.parent = some scope ∧
        p.symbolName (.message i) = joinName scope m.name := by
    rw [symbolName, MessageDescriptor.fullName, info_message hget]
    exact hp.messages m (List.mem_of_getElem? hget)
  have ofEnum {i : Nat} {e : EnumInfo} (hget : p.enums[i]? = some e) :
      ∃ scope, p.scopeName? e.package e.parent = some scope ∧
        p.symbolName (.enum i) = joinName scope e.name := by
    rw [symbolName, EnumDescriptor.fullName, info_enum hget]
    exact hp.enums e (List.mem_of_getElem? hget)
  -- types of a package have no parent, nested ones have the message as their parent
  cases scope with
  | package package =>
    cases s with
    | message i =>
      obtain ⟨m, hget, rfl, rfl, htop⟩ := h
      obtain ⟨scope, hscope, hfull⟩ := ofMessage hget
      rw [htop] at hscope
      exact Option.some.inj hscope ▸ hfull
    | enum i =>
      obtain ⟨e, hget, rfl, rfl, htop⟩ := h
      obtain ⟨scope, hscope, hfull⟩ := ofEnum hget
      rw [htop] at hscope
      exact Option.some.inj hscope ▸ hfull
  | message place =>
    cases s with
    | message i =>
      obtain ⟨m, hget, rfl, hparent, -⟩ := h
      obtain ⟨scope, hscope, hfull⟩ := ofMessage hget
      rwa [inside (hparent ▸ hscope)]
    | enum i =>
      obtain ⟨e, hget, rfl, hparent⟩ := h
      obtain ⟨scope, hscope, hfull⟩ := ofEnum hget
      rwa [inside (hparent ▸ hscope)]

/-- **A path spells the full name** of the type that it leads to. -/
theorem symbolName_leads (hp : p.Rooted) {path : List String} (h : p.Leads scope path s) :
    p.symbolName s = path.foldl joinName (p.scopeName scope) := by
  induction h with
  | last hmember => exact hp.symbolName_member hmember
  | step hfirst _ ih => rw [ih, List.foldl_cons, ← hp.symbolName_member hfirst]; rfl

/-- A full name is that of one type. -/
theorem symbolName_inj (hp : p.Rooted) {s' : TypeSymbol} (h : p.Has s) (h' : p.Has s')
    (heq : p.symbolName s = p.symbolName s') : s = s' := by
  have hs := getElem?_rank h
  have hs' := getElem?_rank h'
  have hsame : p.rank s = p.rank s' :=
    (List.getElem?_inj (List.getElem?_eq_some_iff.1 hs).1 hp.distinct).1 (hs.trans (heq ▸ hs'.symm))
  cases s with
  | message i =>
    have hi : i < p.messages.length := h
    cases s' with
    | message j => exact congrArg _ hsame
    | enum j => exact absurd hsame (by simp only [rank]; omega)
  | enum i =>
    cases s' with
    | message j =>
      have hj : j < p.messages.length := h'
      exact absurd hsame (by simp only [rank]; omega)
    | enum j => exact congrArg _ (Nat.add_left_cancel hsame)

/-- **Short names tell the types of a scope apart.** -/
theorem member_unique (hp : p.Rooted) {s' : TypeSymbol} (h : p.Member scope name s)
    (h' : p.Member scope name s') : s = s' :=
  hp.symbolName_inj h.has h'.has ((hp.symbolName_member h).trans (hp.symbolName_member h').symm)

end Rooted

end Pool

/-! ## Listed types -/

/-- What is found by name in a list without repeated names is what the list has. -/
theorem lookupName_eq_some {α : Type} {name : String} {a : α} {entries : List (String × α)}
    (h : (entries.map (·.1)).Nodup) : lookupName name entries = some a ↔ (name, a) ∈ entries := by
  have hfound {e : String × α} (he : entries.find? (fun e => e.1 == name) = some e) :
      e ∈ entries ∧ e.1 = name :=
    ⟨List.mem_of_find?_eq_some he, beq_iff_eq.1 (List.find?_some he :)⟩
  unfold lookupName
  rw [Option.map_eq_some_iff]
  constructor
  · rintro ⟨e, he, rfl⟩
    obtain ⟨hmem, rfl⟩ := hfound he
    exact hmem
  · intro hmem
    have hsome : (entries.find? fun e => e.1 == name).isSome :=
      List.find?_isSome.2 ⟨_, hmem, beq_self_eq_true name⟩
    obtain ⟨e, he⟩ := Option.isSome_iff_exists.1 hsome
    obtain ⟨hmem', hname⟩ := hfound he
    exact ⟨e, he, congrArg Prod.snd (List.inj_on_of_nodup_map h hmem' hmem hname)⟩

theorem mem_sortNames {name : String} {names : List String} : name ∈ sortNames names ↔ name ∈ names :=
  List.mem_mergeSort

/-- Names in order ascend, if none is repeated. -/
theorem pairwise_sortNames {names : List String} (h : names.Nodup) : (sortNames names).Pairwise (· < ·) := by
  have hsorted : (sortNames names).Pairwise fun a b => decide (a ≤ b) = true := by
    refine List.pairwise_mergeSort (fun a b c hab hbc => ?_) (fun a b => ?_) names
    · exact decide_eq_true (String.le_trans (of_decide_eq_true hab) (of_decide_eq_true hbc))
    · rw [Bool.or_eq_true, decide_eq_true_iff, decide_eq_true_iff]
      exact String.le_total a b
  have hnodup : (sortNames names).Nodup := (List.mergeSort_perm names _).nodup_iff.2 h
  refine (hsorted.and hnodup).imp fun {a b} hab => String.not_le.1 fun hba => hab.2 ?_
  exact String.le_antisymm (of_decide_eq_true hab.1) hba

namespace Loader

variable {l : Loader} {scope : TypeScope} {types : List (String × TypeHandle)}

/-- The handle of a type. -/
def handle (l : Loader) : TypeSymbol → TypeHandle
  | .message i => .message ⟨⟨l.pool, i⟩, l.config⟩
  | .enum i => .enum ⟨l.pool, i⟩

/-- Whether a list of types is that of a scope. -/
structure Lists (l : Loader) (scope : TypeScope) (types : List (String × TypeHandle)) : Prop where
  mem_iff : ∀ name t, (name, t) ∈ types ↔ ∃ s, l.pool.Member scope name s ∧ t = l.handle s
  nodup : (types.map (·.1)).Nodup

/-- A list is that of a scope if it has the types of the scope, and has none twice. -/
theorem Lists.of_mem_iff (hl : l.pool.Rooted) (hnodup : types.Nodup)
    (h : ∀ name t, (name, t) ∈ types ↔ ∃ s, l.pool.Member scope name s ∧ t = l.handle s) :
    l.Lists scope types := by
  refine ⟨h, hnodup.map_on ?_⟩
  rintro ⟨name, t⟩ ht ⟨name', t'⟩ ht' rfl
  obtain ⟨s, hs, rfl⟩ := (h name t).1 ht
  obtain ⟨s', hs', rfl⟩ := (h name t').1 ht'
  rw [hl.member_unique hs hs']

/-- The types of messages and enums, by short name. -/
theorem lists_append (hl : l.pool.Rooted) {ds : List MessageDescriptor} {es : List EnumDescriptor}
    (hds : ds.Nodup) (hes : es.Nodup)
    (hmessages : ∀ d, d ∈ ds ↔ ∃ i, d = ⟨l.pool, i⟩ ∧ l.pool.Member scope d.name (.message i))
    (henums : ∀ d, d ∈ es ↔ ∃ i, d = ⟨l.pool, i⟩ ∧ l.pool.Member scope d.name (.enum i)) :
    l.Lists scope ((ds.map fun d => (d.name, TypeHandle.message ⟨d, l.config⟩)) ++
      es.map fun d => (d.name, TypeHandle.enum d)) := by
  refine Lists.of_mem_iff hl (List.nodup_append.2 ⟨hds.map fun d e heq => ?_, hes.map fun d e heq => ?_, ?_⟩)
    fun name t => ?_
  · exact (MessageType.mk.inj (TypeHandle.message.inj (Prod.mk.inj heq).2)).1
  · exact TypeHandle.enum.inj (Prod.mk.inj heq).2
  · rintro x hx y hy rfl
    obtain ⟨d, -, rfl⟩ := List.mem_map.1 hx
    obtain ⟨e, -, heq⟩ := List.mem_map.1 hy
    cases (Prod.mk.inj heq).2
  · rw [List.mem_append, List.mem_map, List.mem_map]
    constructor
    · rintro (⟨d, hd, heq⟩ | ⟨d, hd, heq⟩)
      · obtain ⟨rfl, rfl⟩ := Prod.mk.inj heq
        obtain ⟨i, rfl, h⟩ := (hmessages d).1 hd
        exact ⟨.message i, h, rfl⟩
      · obtain ⟨rfl, rfl⟩ := Prod.mk.inj heq
        obtain ⟨i, rfl, h⟩ := (henums d).1 hd
        exact ⟨.enum i, h, rfl⟩
    · rintro ⟨s, h, rfl⟩
      obtain rfl := h.name_eq
      cases s with
      | message i => exact .inl ⟨_, (hmessages _).2 ⟨i, rfl, h⟩, rfl⟩
      | enum i => exact .inr ⟨_, (henums _).2 ⟨i, rfl, h⟩, rfl⟩

/-- **The types in a message type** are those declared in its message. -/
theorem lists_nested (hl : l.pool.Rooted) (place : Nat) :
    l.Lists (.message place) (MessageType.nested ⟨⟨l.pool, place⟩, l.config⟩) := by
  dsimp only [MessageType.nested]
  rw [Pool.nestedMessages_eq, Pool.nestedEnums_eq]
  refine lists_append hl (((Pool.nodup_allMessages _).filter _).filter _) ((Pool.nodup_allEnums _).filter _)
    (fun d => ?_) fun d => ?_
  · rw [List.mem_filter, List.mem_filter, Pool.mem_allMessages, Bool.not_eq_true', beq_iff_eq]
    constructor
    · rintro ⟨⟨⟨i, rfl, hget⟩, hparent⟩, hentry⟩
      exact ⟨i, rfl, _, hget, rfl, hparent, hentry⟩
    · rintro ⟨i, rfl, m, hget, -, hparent, hentry⟩
      obtain rfl := Pool.info_message hget
      exact ⟨⟨⟨i, rfl, hget⟩, hparent⟩, hentry⟩
  · rw [List.mem_filter, Pool.mem_allEnums, beq_iff_eq]
    constructor
    · rintro ⟨⟨i, rfl, hget⟩, hparent⟩
      exact ⟨i, rfl, _, hget, rfl, hparent⟩
    · rintro ⟨i, rfl, e, hget, -, hparent⟩
      obtain rfl := Pool.info_enum hget
      exact ⟨⟨i, rfl, hget⟩, hparent⟩

/-- The messages and enums at the top level of a package. -/
theorem lists_top (hl : l.pool.Rooted) (package : String) :
    l.Lists (.package package)
      (((l.topMessages package).map fun d => (d.name, TypeHandle.message ⟨d, l.config⟩)) ++
        (l.topEnums package).map fun d => (d.name, TypeHandle.enum d)) := by
  refine lists_append hl ((Pool.nodup_allMessages _).filter _) ((Pool.nodup_allEnums _).filter _)
    (fun d => ?_) fun d => ?_
  · rw [topMessages, List.mem_filter, Pool.mem_allMessages, Bool.and_eq_true, beq_iff_eq, Option.isNone_iff_eq_none]
    constructor
    · rintro ⟨⟨i, rfl, hget⟩, hpackage, htop⟩
      exact ⟨i, rfl, _, hget, rfl, hpackage, htop⟩
    · rintro ⟨i, rfl, m, hget, -, hpackage, htop⟩
      obtain rfl := Pool.info_message hget
      exact ⟨⟨i, rfl, hget⟩, hpackage, htop⟩
  · rw [topEnums, List.mem_filter, Pool.mem_allEnums, Bool.and_eq_true, beq_iff_eq, Option.isNone_iff_eq_none]
    constructor
    · rintro ⟨⟨i, rfl, hget⟩, hpackage, htop⟩
      exact ⟨i, rfl, _, hget, rfl, hpackage, htop⟩
    · rintro ⟨i, rfl, e, hget, -, hpackage, htop⟩
      obtain rfl := Pool.info_enum hget
      exact ⟨⟨i, rfl, hget⟩, hpackage, htop⟩

/-- A message is found by its full name, if that has no dot in front. -/
theorem messageType_fullName {i : Nat} (hi : l.pool.Has (.message i))
    (hbare : Pool.bareName (l.pool.symbolName (.message i)) = l.pool.symbolName (.message i)) :
    l.messageType (l.pool.symbolName (.message i)) = .ok ⟨⟨l.pool, i⟩, l.config⟩ := by
  have hamong : (⟨l.pool, i⟩ : MessageDescriptor).Among {l.pool} := ⟨rfl, hi⟩
  have hfound : l.pool.message? (l.pool.symbolName (.message i)) = some ⟨l.pool, i⟩ :=
    (MessageDescriptor.message?_eq_some hamong).2 hbare
  rw [messageType_eq, hfound]

/-- An enum is found by its full name, if that has no dot in front. -/
theorem enumType_fullName (hl : l.pool.Rooted) {i : Nat} (hi : l.pool.Has (.enum i))
    (hbare : Pool.bareName (l.pool.symbolName (.enum i)) = l.pool.symbolName (.enum i)) :
    l.enumType (l.pool.symbolName (.enum i)) = .ok ⟨l.pool, i⟩ := by
  have hi : i < l.pool.enums.length := hi
  have hname : l.pool.symbolName (.enum i) = l.pool.enums[i].fullName :=
    congrArg EnumInfo.fullName (Pool.info_enum (List.getElem?_eq_getElem hi))
  have hindex : (l.pool.enums.findIdx? fun e => e.fullName == l.pool.symbolName (.enum i)) = some i := by
    refine List.findIdx?_eq_some_iff_getElem.2 ⟨hi, beq_iff_eq.2 hname.symm, fun j hlt => ?_⟩
    -- no other enum of the pool has the name
    have hpairs := List.pairwise_iff_getElem.1 (List.pairwise_map.1 (List.nodup_append.1 hl.distinct).2.1)
    rw [beq_iff_eq, hname]
    exact hpairs j i (by omega) hi hlt
  have hfound : l.pool.enum? (l.pool.symbolName (.enum i)) = some ⟨l.pool, i⟩ := by
    rw [Pool.enum?, hbare, hindex]
    rfl
  rw [enumType_eq, hfound]

/-- **The types in a package** are those declared at its top level, if their full names are plain. -/
theorem lists_members (hl : l.pool.Rooted) {package : String} (hplain : l.pool.PlainPackage package) :
    ∃ types, (⟨l, package⟩ : Package).members = .ok types ∧ l.Lists (.package package) types := by
  have hlists := lists_top hl package
  refine ⟨_, ?_, hlists⟩
  have hmessages : ((l.topMessages package).mapM fun d => do
        return (d.name, TypeHandle.message (← l.messageType d.fullName))) =
      .ok ((l.topMessages package).map fun d => (d.name, TypeHandle.message ⟨d, l.config⟩)) := by
    refine Except.mapM_ok.2 (List.forall₂_map_right_iff.2 (List.forall₂_same.2 fun d hd => ?_))
    obtain ⟨s, hs, heq⟩ := (hlists.mem_iff _ _).1 (List.mem_append_left _ (List.mem_map_of_mem hd))
    cases s with
    | enum i => cases heq
    | message i =>
      cases heq
      have hfound := messageType_fullName hs.has (hplain _ _ hs)
      exact Except.bind_ok.2 ⟨_, hfound, rfl⟩
  have henums : ((l.topEnums package).mapM fun d => do
        return (d.name, TypeHandle.enum (← l.enumType d.fullName))) =
      .ok ((l.topEnums package).map fun d => (d.name, TypeHandle.enum d)) := by
    refine Except.mapM_ok.2 (List.forall₂_map_right_iff.2 (List.forall₂_same.2 fun d hd => ?_))
    obtain ⟨s, hs, heq⟩ := (hlists.mem_iff _ _).1 (List.mem_append_right _ (List.mem_map_of_mem hd))
    cases s with
    | message i => cases heq
    | enum i =>
      cases heq
      have hfound := enumType_fullName hl hs.has (hplain _ _ hs)
      exact Except.bind_ok.2 ⟨_, hfound, rfl⟩
  rw [Package.members_eq]
  exact Except.bind_ok.2 ⟨_, hmessages, Except.bind_ok.2 ⟨_, henums, rfl⟩⟩

end Loader

/-! ## Walking -/

/-- Whether types are attributes of a value: it is a package or a message type. -/
def Value.isNamespace : Value → Bool
  | .package _ | .messageType _ => true
  | _ => false

/-- Walks along attributes, from packages and message types only. -/
def Script.walk (v : Value) : List String → Script (Option Value)
  | [] => return some v
  | name :: rest => do
    if v.isNamespace then
      match ← attr v name with
      | some w => walk w rest
      | none => return none
    else return none

namespace Loader

variable {l : Loader} {h : Heap} {scope : TypeScope} {name : String} {v w : Value}

/-- A scope as a value. -/
def scopeValue (l : Loader) : TypeScope → Value
  | .package name => .package ⟨l, name⟩
  | .message i => .messageType ⟨⟨l.pool, i⟩, l.config⟩

/-- A type as a value. -/
def typeValue (l : Loader) (s : TypeSymbol) : Value := (l.handle s).toValue

/-- A scope has its types by name: it is a message, or a package with plain names. -/
def Opens (l : Loader) : TypeScope → Prop
  | .package name => l.pool.PlainPackage name
  | .message _ => True

/-- A package has the types that it lists. -/
theorem member_ok {p : Package} {types : List (String × TypeHandle)} (h : p.members = .ok types) :
    p.member name = .ok w ↔ (lookupName name types).map TypeHandle.toValue = some w := by
  cases hfound : lookupName name types with
  | none =>
    simp only [Package.member, h, bind, Except.bind, hfound]
    exact ⟨nofun, nofun⟩
  | some t =>
    simp only [Package.member, h, bind, Except.bind, hfound]
    exact ⟨fun heq => congrArg some (Except.ok.inj heq), fun heq => congrArg Except.ok (Option.some.inj heq)⟩

/-- **One step** leads to the type of that name. -/
theorem run_attr_iff (hl : l.pool.Rooted) (hopens : l.Opens scope) :
    (Script.attr (l.scopeValue scope) name).run h = (.ok (some w), h) ↔
      ∃ s, l.pool.Member scope name s ∧ w = l.typeValue s := by
  have hlookup {types : List (String × TypeHandle)} (hlists : l.Lists scope types) :
      (lookupName name types).map TypeHandle.toValue = some w ↔
        ∃ s, l.pool.Member scope name s ∧ w = l.typeValue s := by
    rw [Option.map_eq_some_iff]
    simp only [lookupName_eq_some hlists.nodup, hlists.mem_iff]
    constructor
    · rintro ⟨_, ⟨s, hs, rfl⟩, rfl⟩
      exact ⟨s, hs, rfl⟩
    · rintro ⟨s, hs, rfl⟩
      exact ⟨_, ⟨s, hs, rfl⟩, rfl⟩
  cases scope with
  | package package =>
    obtain ⟨types, htypes, hlists⟩ := lists_members hl hopens
    rw [← hlookup hlists, ← member_ok htypes]
    show (Script.ofExcept ((⟨l, package⟩ : Package).member name) >>= fun v => pure (some v)).run h = _ ↔ _
    rw [Script.run_bind, Script.run_ofExcept]
    cases (⟨l, package⟩ : Package).member name with
    | error e => exact ⟨nofun, nofun⟩
    | ok v =>
      constructor
      · rintro ⟨⟩
        rfl
      · rintro ⟨⟩
        rfl
  | message i =>
    rw [← hlookup (lists_nested hl i)]
    constructor
    · exact fun heq => Except.ok.inj (Prod.mk.inj heq).1
    · exact fun heq => Prod.ext (congrArg Except.ok heq) rfl

/-- **The names listed** are those of the attributes, in ascending order. -/
theorem attrNames_lists (hl : l.pool.Rooted) (hopens : l.Opens scope) :
    (h.attrNames (l.scopeValue scope)).Pairwise (· < ·) ∧
      ∀ name, name ∈ h.attrNames (l.scopeValue scope) ↔ ∃ s, l.pool.Member scope name s := by
  have of_lists {types : List (String × TypeHandle)} (hlists : l.Lists scope types) :
      (sortNames (types.map (·.1))).Pairwise (· < ·) ∧
        ∀ name, name ∈ sortNames (types.map (·.1)) ↔ ∃ s, l.pool.Member scope name s := by
    refine ⟨pairwise_sortNames hlists.nodup, fun name => ?_⟩
    rw [mem_sortNames, List.mem_map]
    constructor
    · rintro ⟨⟨name, t⟩, hmem, rfl⟩
      obtain ⟨s, hs, -⟩ := (hlists.mem_iff name t).1 hmem
      exact ⟨s, hs⟩
    · rintro ⟨s, hs⟩
      exact ⟨(name, l.handle s), (hlists.mem_iff name _).2 ⟨s, hs, rfl⟩, rfl⟩
  cases scope with
  | package package =>
    obtain ⟨types, htypes, hlists⟩ := lists_members hl hopens
    rw [scopeValue, Heap.attrNames, Package.memberNames, htypes]
    exact of_lists hlists
  | message i => exact of_lists (lists_nested hl i)

/-- Looking for a type changes nothing. -/
theorem run_attr_namespace (hv : v.isNamespace = true) (name : String) :
    ∃ r, ∀ h : Heap, (Script.attr v name).run h = (r, h) := by
  cases v with
  | package p =>
    refine ⟨(p.member name).map some, fun h => ?_⟩
    show (Script.ofExcept (p.member name) >>= fun v => pure (some v)).run h = _
    rw [Script.run_bind, Script.run_ofExcept]
    cases p.member name <;> rfl
  | messageType t => exact ⟨_, fun _ => rfl⟩
  | _ => cases hv

/-- A walk of one step and more. -/
theorem run_walk_cons (hv : v.isNamespace = true) (rest : List String) :
    (Script.walk v (name :: rest)).run h = (.ok (some w), h) ↔
      ∃ u, (Script.attr v name).run h = (.ok (some u), h) ∧ (Script.walk u rest).run h = (.ok (some w), h) := by
  obtain ⟨r, hr⟩ := run_attr_namespace hv name
  rw [Script.walk, if_pos hv, Script.run_bind, hr]
  rcases r with e | _ | u
  · exact ⟨nofun, nofun⟩
  · exact ⟨nofun, nofun⟩
  · constructor
    · exact fun hrun => ⟨u, rfl, hrun⟩
    · rintro ⟨u, ⟨⟩, hrun⟩
      exact hrun

/-- **A walk** leads to the type that the path leads to. -/
theorem run_walk_iff (hl : l.pool.Rooted) (hopens : l.Opens scope) {path : List String} (hpath : path ≠ []) :
    (Script.walk (l.scopeValue scope) path).run h = (.ok (some w), h) ↔
      ∃ s, l.pool.Leads scope path s ∧ w = l.typeValue s := by
  induction path generalizing scope with
  | nil => exact absurd rfl hpath
  | cons name rest ih =>
    rw [run_walk_cons (by cases scope <;> rfl)]
    simp only [run_attr_iff hl hopens]
    -- the last name may lead to an enum, all others lead to messages
    cases rest with
    | nil =>
      constructor
      · rintro ⟨_, ⟨s, hs, rfl⟩, hrun⟩
        exact ⟨s, .last hs, (Option.some.inj (Except.ok.inj (Prod.mk.inj hrun).1)).symm⟩
      · rintro ⟨s, hs, rfl⟩
        cases hs with
        | last hs => exact ⟨_, ⟨s, hs, rfl⟩, rfl⟩
        | step _ hrest => nomatch hrest
    | cons next rest =>
      constructor
      · rintro ⟨_, ⟨s, hs, rfl⟩, hrun⟩
        cases s with
        | message i =>
          obtain ⟨s, hrest, rfl⟩ := (ih (show l.Opens (.message i) from trivial) (List.cons_ne_nil _ _)).1 hrun
          exact ⟨s, .step hs hrest, rfl⟩
        | enum i => nomatch hrun
      · rintro ⟨s, hs, rfl⟩
        cases hs with
        | step hfirst hrest =>
          have hrun := (ih (show l.Opens (.message _) from trivial) (List.cons_ne_nil _ _)).2 ⟨s, hrest, rfl⟩
          exact ⟨_, ⟨_, hfirst, rfl⟩, hrun⟩

/-- Walking changes nothing. -/
theorem run_walk_snd (v : Value) (path : List String) (h : Heap) : ((Script.walk v path).run h).2 = h := by
  induction path generalizing v with
  | nil => rfl
  | cons name rest ih =>
    rw [Script.walk]
    split
    · rename_i hv
      obtain ⟨r, hr⟩ := run_attr_namespace hv name
      rw [Script.run_bind, hr]
      rcases r with e | _ | u
      · rfl
      · rfl
      · exact ih u
    · rfl

/-- A walk that succeeds leads to the package that it started from, or to a type. -/
theorem walk_package (hl : l.pool.Rooted) {package : String} (hplain : l.pool.PlainPackage package)
    {path : List String} (hrun : (Script.walk (.package ⟨l, package⟩) path).run h = (.ok (some v), h)) :
    v = l.scopeValue (.package package) ∨ ∃ s, v = l.typeValue s := by
  cases path with
  | nil => exact .inl (Option.some.inj (Except.ok.inj (Prod.mk.inj hrun).1)).symm
  | cons name rest =>
    have hopens : l.Opens (.package package) := hplain
    obtain ⟨s, -, rfl⟩ := (run_walk_iff hl hopens (List.cons_ne_nil _ _)).1 hrun
    exact .inr ⟨s, rfl⟩

end Loader

/-- The full name of a type that is a value. -/
def Value.declaredName? : Value → Option String
  | .messageType t => some t.descriptor.fullName
  | .enumType d => some d.fullName
  | _ => none

/-- A name without a dot in front has none in front of what is added to it. -/
theorem Pool.bareName_append {name : String} (hname : name ≠ "") (hbare : bareName name = name) (rest : String) :
    bareName (name ++ rest) = name ++ rest := by
  cases hlist : name.toList with
  | nil => exact absurd (String.toList_eq_nil_iff.1 hlist) hname
  | cons c cs =>
    have hdot : c ≠ '.' := by
      rintro rfl
      have hshort : bareName name = String.ofList cs := by
        unfold bareName
        rw [hlist]
        rfl
      have hsame : cs = name.toList := by rw [← hbare, hshort, String.toList_ofList]
      exact List.cons_ne_self '.' cs (hlist.symm.trans hsame.symm)
    unfold bareName
    rw [String.toList_append, hlist, List.cons_append]
    split
    · rename_i heq
      exact absurd (List.cons.inj heq).1 hdot
    · rfl

/-- A package without a dot in front has plain names. -/
theorem Pool.Rooted.plainPackage {p : Pool} (hp : p.Rooted) {package : String} (hpackage : package ≠ "")
    (hbare : bareName package = package) : p.PlainPackage package := by
  intro name s hs
  rw [hp.symbolName_member hs, scopeName, joinName, if_neg (by simpa using hpackage), String.append_assoc]
  exact bareName_append hpackage hbare _

/-- **The namespaces name every type.** In a pool that was made from files, a package is found after any
lookups if the full names of its top-level types have no dot in front. Then a walk from it succeeds just if
the path leads to a type; it reaches that type, which has the full name that the path spells. A package or a
message type on the way lists the names of its attributes, in ascending order. -/
theorem Loader.walk_reaches {l : Loader} {id : Nat} {files : List FileDecl}
    (hfiles : Pool.ofFiles id files = .ok l.pool) {package : String} (hplain : l.pool.PlainPackage package)
    (queries : List TypeQuery) :
    ∃ p, ((l.findPackage package).run.run (l.remembered queries)).1 = .ok p ∧
      (∀ (h : Heap) path v, path ≠ [] → (((Script.walk (.package p) path).run h).1 = .ok (some v) ↔
        ∃ s, l.pool.Leads (.package package) path s ∧ v = l.typeValue s)) ∧
      (∀ path s, l.pool.Leads (.package package) path s →
        (l.typeValue s).declaredName? = some (path.foldl joinName package)) ∧
      ∀ (h : Heap) path v, ((Script.walk (.package p) path).run h).1 = .ok (some v) → v.isNamespace = true →
        (h.attrNames v).Pairwise (· < ·) ∧
        ∀ name, name ∈ h.attrNames v ↔ ∃ w, ((Script.attr v name).run h).1 = .ok (some w) := by
  have hl := Pool.rooted_ofFiles hfiles
  have hopens : l.Opens (.package package) := hplain
  have hrun {α : Type} {x : Except Error α × Heap} {h : Heap} {r : Except Error α} (hsnd : x.2 = h) :
      x.1 = r ↔ x = (r, h) := by
    obtain ⟨a, b⟩ := x
    obtain rfl := hsnd
    simp
  obtain ⟨types, htypes, -⟩ := lists_members hl hplain
  have hfound : l.package package = .ok ⟨l, package⟩ := by
    rw [package_eq, htypes]
    rfl
  refine ⟨⟨l, package⟩, ?_, fun h path v hpath => ?_, fun path s hs => ?_, fun h path v hwalk hv => ?_⟩
  · rw [(l.gives_findPackage package _ (l.sound_remembered queries)).1, hfound]
  · rw [hrun (run_walk_snd _ _ _)]
    exact run_walk_iff hl hopens hpath
  · have hname := hl.symbolName_leads hs
    cases s <;> exact congrArg some hname
  · rw [hrun (run_walk_snd _ _ _)] at hwalk
    -- a namespace is a package or a message type
    have hscope : ∃ scope, l.Opens scope ∧ v = l.scopeValue scope := by
      obtain rfl | ⟨s, rfl⟩ := walk_package hl hplain hwalk
      · exact ⟨_, hopens, rfl⟩
      · cases s with
        | message i => exact ⟨.message i, trivial, rfl⟩
        | enum i => cases hv
    obtain ⟨scope, hscope, rfl⟩ := hscope
    obtain ⟨hsorted, hmem⟩ := attrNames_lists (h := h) hl hscope
    refine ⟨hsorted, fun name => (hmem name).trans ?_⟩
    obtain ⟨r, hr⟩ := run_attr_namespace hv name
    have hstep {w : Value} : ((Script.attr (l.scopeValue scope) name).run h).1 = .ok (some w) ↔
        ∃ s, l.pool.Member scope name s ∧ w = l.typeValue s := by
      rw [hrun (by rw [hr]), run_attr_iff hl hscope]
    simp only [hstep]
    constructor
    · rintro ⟨s, hs⟩
      exact ⟨_, s, hs, rfl⟩
    · rintro ⟨_, s, hs, -⟩
      exact ⟨s, hs⟩

/-! ## Types in a library, and in a package with a dot in front -/

namespace Sample

/-- A message without fields. -/
def emptyInfo (name fullName package : String) (parent : Option Nat) : MessageInfo :=
  { (default : MessageInfo) with
    name := name
    fullName := fullName
    package := package
    edition := .proto3
    parent := parent }

/-- A file with an enum in a message in a message. -/
def boxFile : FileDecl where
  name := "box.proto"
  package := "a"
  messages := [{ name := "Box", nested := [{ name := "Lid", enums := [{ name := "Hue", values := [("RED", 0)] }] }] }]
  edition := .proto3

/-- The pool made from the file. -/
def boxes : Pool where
  id := 0
  messages := [emptyInfo "Box" "a.Box" "a" none, emptyInfo "Lid" "a.Box.Lid" "a" (some 0)]
  enums := [{ name := "Hue", fullName := "a.Box.Lid.Hue", package := "a", parent := some 1, values := [("RED", 0)] }]
  nodup_names := by decide
  kinds_within := by decide

theorem ofFiles_boxFile : Pool.ofFiles 0 [boxFile] = .ok boxes := by cbv

theorem leads_hue : boxes.Leads (.package "a") ["Box", "Lid", "Hue"] (.enum 0) := by
  have hbox : boxes.Member (.package "a") "Box" (.message 0) := ⟨_, rfl, rfl, rfl, rfl⟩
  have hlid : boxes.Member (.message 0) "Lid" (.message 1) := ⟨_, rfl, rfl, rfl, rfl⟩
  exact .step hbox (.step hlid (.last ⟨_, rfl, rfl, rfl⟩))

/-- A loader of the pool. -/
def boxLoader : Loader := ⟨boxes, {}⟩

/-- The enum is reached, after lookups that succeed and lookups that fail. -/
theorem hue_reached :
    (Pool.ofFiles 0 [boxFile] = .ok boxLoader.pool ∧ boxLoader.pool.PlainPackage "a") ∧
    ∃ p, ((boxLoader.findPackage "a").run.run
        (boxLoader.remembered [.message "a.Box.Lid", .package "a.Box", .enum "Hue"])).1 = .ok p ∧
      ((Script.walk (.package p) ["Box", "Lid", "Hue"]).run {}).1 = .ok (some (.enumType ⟨boxes, 0⟩)) ∧
      (EnumDescriptor.fullName ⟨boxes, 0⟩) = "a.Box.Lid.Hue" := by
  have hplain : boxes.PlainPackage "a" :=
    (Pool.rooted_ofFiles ofFiles_boxFile).plainPackage (by decide) (by decide)
  obtain ⟨p, hp, hwalk, hname, -⟩ := Loader.walk_reaches (l := boxLoader) ofFiles_boxFile hplain
    [.message "a.Box.Lid", .package "a.Box", .enum "Hue"]
  refine ⟨⟨ofFiles_boxFile, hplain⟩, p, hp, ?_, ?_⟩
  · exact (hwalk {} _ _ (List.cons_ne_nil _ _)).2 ⟨_, leads_hue, rfl⟩
  · exact Option.some.inj (hname _ _ leads_hue)

/-- A file with a dot in front of its package. -/
def dottedFile : FileDecl where
  name := "m.proto"
  package := ".p"
  messages := [{ name := "M" }]
  edition := .proto3

/-- The pool made from the file. -/
def dotted : Pool where
  id := 0
  messages := [emptyInfo "M" ".p.M" ".p" none]
  enums := []
  nodup_names := by decide
  kinds_within := by decide

theorem ofFiles_dottedFile : Pool.ofFiles 0 [dottedFile] = .ok dotted := by cbv

/-- **A dot in front of a package hides its types**: the pool has a type in it, but the package is not found. -/
theorem package_not_found : Pool.ofFiles 0 [dottedFile] = .ok dotted ∧
    dotted.Leads (.package ".p") ["M"] (.message 0) ∧
    (((⟨dotted, {}⟩ : Loader).findPackage ".p").run.run {}).1 = .error (.typeNotFound ".p.M") :=
  ⟨ofFiles_dottedFile, .last ⟨_, rfl, rfl, rfl, rfl⟩, by cbv⟩

end Sample

end Protoscript
