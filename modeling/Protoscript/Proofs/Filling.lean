import Protoscript.Proofs.EqualMessages
import Protoscript.Proofs.Foreign
import Protoscript.Proofs.Parts
import Protoscript.Proofs.WireFields

/-!
# What a message holds once its defaults are filled in

Filling in stores a default in the fields that lack one, and goes into the messages that are set. All
else stays: no field becomes set or unset that had no default to be given, no member of a oneof is
selected, and lists and maps keep their items and keys.

* `Message.Lacks` — a field that is to be given its declared default;
* `MessageDescriptor.Takes.stored?_fillDefaults` — what every field holds afterwards;
* `Message.Filled`, `Stored.Filled` — the relation of what was and what is, at every depth;
* `MessageDescriptor.Takes.filled`, `MessageDescriptor.Takes.fillDefaults_fillDefaults` — filling in
  is so related, and doing it again changes nothing;
* `MessageDescriptor.Takes.part?_fillDefaults` — the messages inside are where they were, filled in.
-/

namespace Protoscript

/-- Whether a field of a message is to be given a declared default: it holds a single scalar, belongs to
no oneof, and is unset. -/
structure Message.Lacks (m : Message) (f : FieldDescriptor) (s : Scalar) : Prop where
  declared : f.info.declaredDefault = some s
  single : f.inOneof = false ∧ f.isMap = false ∧ f.isList = false ∧ f.kind.isMessage = false
  unset : m.has f = false

/-! ## One field -/

/-- Gives a field its declared default, if it lacks one. -/
def Message.fillField (m : Message) (f : FieldDescriptor) : Message :=
  match f.info.declaredDefault with
  | some value =>
    if f.inOneof || f.isMap || f.isList || f.kind.isMessage || m.has f then m
    else m.set f (.scalar value)
  | none => m

namespace Message

variable {m n : Message} {f g : FieldDescriptor} {s : Scalar}

theorem fillDefaults_mk (d : MessageDescriptor) (fields : List (Nat × Stored))
    (unknown : List (Nat × List WireValue)) : (mk d fields unknown).fillDefaults =
      d.fields.foldl fillField (mk d (fillFields fields) unknown) := by
  rw [fillDefaults]
  rfl

theorem Lacks.fillField (h : m.Lacks f s) : m.fillField f = m.set f (.scalar s) := by
  obtain ⟨honeof, hmap, hlist, hkind⟩ := h.single
  simp [Message.fillField, h.declared, honeof, hmap, hlist, hkind, h.unset]

theorem fillField_of_not_lacks (h : ∀ s, ¬ m.Lacks f s) : m.fillField f = m := by
  unfold fillField
  split
  · rename_i value hvalue
    split
    · rfl
    · rename_i hno
      simp only [Bool.or_eq_true, not_or, Bool.not_eq_true] at hno
      obtain ⟨⟨⟨⟨honeof, hmap⟩, hlist⟩, hkind⟩, hunset⟩ := hno
      exact absurd ⟨hvalue, ⟨honeof, hmap, hlist, hkind⟩, hunset⟩ (h value)
  · rfl

theorem Lacks.congr (h : m.Lacks f s) (hhas : n.has f = m.has f) : n.Lacks f s :=
  ⟨h.declared, h.single, hhas.trans h.unset⟩

/-- Whether a field lacks a default depends on what it holds only. -/
theorem Lacks.of_stored? (h : m.Lacks f s) (hstored : n.stored? f = m.stored? f) : n.Lacks f s :=
  h.congr (has_congr hstored)

theorem stored?_fillField_self (h : m.Lacks f s) : (m.fillField f).stored? f = some (.scalar s) := by
  rw [h.fillField, stored?_set_self m rfl]

/-- A field that is given its default is no member of a oneof, so that no other field is touched. -/
theorem stored?_fillField_of_ne (hne : g.number ≠ f.number) :
    (m.fillField f).stored? g = m.stored? g := by
  by_cases h : ∃ s, m.Lacks f s
  · obtain ⟨s, h⟩ := h
    rw [h.fillField, stored?_set_of_ne m hne]
    unfold select FieldDescriptor.siblings
    rw [h.single.1]
    rfl
  · rw [fillField_of_not_lacks (not_exists.1 h)]

end Message

/-! ## All fields -/

theorem Stored.isDefaultOf_fillDefaults (s : Stored) (f : FieldDescriptor) :
    s.fillDefaults.isDefaultOf f = s.isDefaultOf f := by
  cases s with
  | scalar => rw [Stored.fillDefaults]
  | message =>
    rw [Stored.fillDefaults]
    rfl
  | list items =>
    rw [Stored.fillDefaults, Stored.fillItems_eq, Stored.isDefaultOf, Stored.isDefaultOf]
    cases items <;> rfl
  | map entries =>
    rw [Stored.fillDefaults, Stored.fillEntries_eq, Stored.isDefaultOf, Stored.isDefaultOf]
    cases entries <;> rfl

namespace Message

variable {f g : FieldDescriptor}

/-- Fields of other numbers hold what they held. -/
theorem stored?_foldl_fillField_of_ne {fs : List FieldDescriptor} (h : ∀ f ∈ fs, g.number ≠ f.number)
    (m : Message) : (fs.foldl fillField m).stored? g = m.stored? g :=
  List.foldl_keeps (P := fun n : Message => n.stored? g = m.stored? g)
    (fun _ f hf hn => (stored?_fillField_of_ne (h f hf)).trans hn) rfl

/-- Of fields with different numbers, each is filled in as if it were the only one. -/
theorem stored?_foldl_fillField {fs : List FieldDescriptor} (hnodup : (fs.map (·.number)).Nodup)
    (hg : g ∈ fs) (m : Message) : (fs.foldl fillField m).stored? g = (m.fillField g).stored? g := by
  obtain ⟨before, after, rfl⟩ := List.append_of_mem hg
  rw [List.map_append, List.map_cons, List.nodup_append] at hnodup
  obtain ⟨-, hafter, hbefore⟩ := hnodup
  have hsame : (before.foldl fillField m).stored? g = m.stored? g :=
    stored?_foldl_fillField_of_ne (fun f hf he =>
      hbefore _ (List.mem_map_of_mem hf) _ List.mem_cons_self he.symm) m
  rw [List.foldl_append, List.foldl_cons, stored?_foldl_fillField_of_ne fun f hf he =>
    (List.nodup_cons.1 hafter).1 (List.mem_map.2 ⟨f, hf, he.symm⟩)]
  by_cases h : ∃ s, m.Lacks g s
  · obtain ⟨s, h⟩ := h
    rw [stored?_fillField_self h, stored?_fillField_self (h.of_stored? hsame)]
  · have hno : ∀ s, ¬ m.Lacks g s := not_exists.1 h
    rw [fillField_of_not_lacks hno, fillField_of_not_lacks fun s hs => hno s (hs.of_stored? hsame.symm),
      hsame]

end Message

namespace MessageDescriptor

variable {d : MessageDescriptor} {m : Message} {f : FieldDescriptor} {s : Scalar}

theorem nodup_map_number (d : MessageDescriptor) : (d.fields.map (·.number)).Nodup := by
  have h := d.info.nodup_numbers
  unfold fields
  rwa [List.map_map]

namespace Takes

/-- A field that lacks a default holds it afterwards, and any other one holds what it held, filled in
itself. -/
theorem stored?_fillDefaults (hm : d.Takes m) (hf : f ∈ d.fields) :
    (∀ s, m.Lacks f s → m.fillDefaults.stored? f = some (.scalar s)) ∧
      ((∀ s, ¬ m.Lacks f s) → m.fillDefaults.stored? f = (m.stored? f).map Stored.fillDefaults) := by
  obtain ⟨e, fields, unknown⟩ := m
  obtain rfl : e = d := hm.descriptor
  have hinside : (Message.mk e (Message.fillFields fields) unknown).stored? f =
      ((Message.mk e fields unknown).stored? f).map Stored.fillDefaults :=
    Message.lookupNumber_fillFields f.number fields
  have hhas : (Message.mk e (Message.fillFields fields) unknown).has f =
      (Message.mk e fields unknown).has f := by
    unfold Message.has
    rw [hinside]
    cases (Message.mk e fields unknown).stored? f with
    | none => rfl
    | some s => simp only [Option.map_some, Stored.isDefaultOf_fillDefaults]
  have hfold : (Message.mk e fields unknown).fillDefaults.stored? f =
      ((Message.mk e (Message.fillFields fields) unknown).fillField f).stored? f := by
    rw [Message.fillDefaults_mk, Message.stored?_foldl_fillField e.nodup_map_number hf]
  refine ⟨fun s hs => ?_, fun hno => ?_⟩
  · rw [hfold, Message.stored?_fillField_self (hs.congr hhas)]
  · rw [hfold, Message.fillField_of_not_lacks fun s hs => hno s (hs.congr hhas.symm), hinside]

/-- No field becomes set or unset that is not given a default. -/
theorem has_fillDefaults (hm : d.Takes m) (hf : f ∈ d.fields) (hno : ∀ s, ¬ m.Lacks f s) :
    m.fillDefaults.has f = m.has f := by
  unfold Message.has
  rw [(hm.stored?_fillDefaults hf).2 hno]
  cases m.stored? f with
  | none => rfl
  | some s => simp only [Option.map_some, Stored.isDefaultOf_fillDefaults]

/-- Unknown data stay. -/
theorem unknown_fillDefaults (hm : d.Takes m) : m.fillDefaults.unknown = m.unknown := by
  have hfilled := Message.takes_fillDefaults hm
  obtain ⟨e, fields, unknown⟩ := m
  obtain rfl : e = d := hm.descriptor
  rw [Message.fillDefaults_mk]
  refine List.foldl_keeps (P := fun n : Message => n.unknown = unknown) (fun n f hf hn => ?_) rfl
  by_cases h : ∃ s, n.Lacks f s
  · obtain ⟨s, h⟩ := h
    have herase : (n.set f (.scalar s)).unknown = eraseNumber f.number (n.select f).unknown := rfl
    have hselect : n.select f = n := by
      unfold Message.select FieldDescriptor.siblings
      rw [h.single.1]
      rfl
    rw [h.fillField, herase, hselect, hn]
    cases hm.conforms with
    | mk _ _ _ _ undeclared =>
      refine List.filter_eq_self.2 fun u hu => bne_iff_ne.2 fun hnumber => ?_
      have hnone : e.numbered? u.1 = none := undeclared u hu
      rw [hnumber, numbered?_number hf] at hnone
      cases hnone
  · rwa [Message.fillField_of_not_lacks (not_exists.1 h)]

end Takes

end MessageDescriptor

/-! ## What was and what is -/

mutual

/-- Whether a message is what filling in makes of another one: fields that lack a default hold it, and
all others are set as they were, and hold what they held, filled in themselves. -/
inductive Message.Filled : Message → Message → Prop
  | mk {m n : Message}
      (descriptor : n.descriptor = m.descriptor)
      (unknown : n.unknown = m.unknown)
      (given : ∀ f ∈ m.descriptor.fields, ∀ s, m.Lacks f s → n.stored? f = some (.scalar s))
      (has : ∀ f ∈ m.descriptor.fields, (∀ s, ¬ m.Lacks f s) → n.has f = m.has f)
      (kept : ∀ f ∈ m.descriptor.fields, (∀ s, ¬ m.Lacks f s) →
        (n.stored? f).isSome = (m.stored? f).isSome)
      (inside : ∀ f ∈ m.descriptor.fields, (∀ s, ¬ m.Lacks f s) → ∀ s t, m.stored? f = some s →
        n.stored? f = some t → s.Filled t) :
      Message.Filled m n

/-- Whether a stored value is what filling in makes of another one. Scalars stay, and so do the number of
the items of a list and the keys of a map. -/
inductive Stored.Filled : Stored → Stored → Prop
  | scalar (s : Scalar) : Stored.Filled (.scalar s) (.scalar s)
  | message {m n : Message} (h : m.Filled n) : Stored.Filled (.message m) (.message n)
  | list {xs ys : List Stored} (h : List.Forall₂ Stored.Filled xs ys) : Stored.Filled (.list xs) (.list ys)
  | map {es fs : List (MapKey × Stored)} (hkeys : fs.map (·.1) = es.map (·.1))
      (h : List.Forall₂ Stored.Filled (es.map (·.2)) (fs.map (·.2))) : Stored.Filled (.map es) (.map fs)

end

/-- Values that are mapped are related to what they were, if each is. -/
theorem List.forall₂_map_self {α β : Type} {R : α → β → Prop} {f : α → β} {xs : List α}
    (h : ∀ x ∈ xs, R x (f x)) : List.Forall₂ R xs (xs.map f) :=
  List.forall₂_map_right_iff.2 (List.forall₂_same.2 h)

mutual

/-- **Filling in**, at every depth. -/
theorem MessageDescriptor.Takes.filled {d : MessageDescriptor} {m : Message} (hm : d.Takes m) :
    m.Filled m.fillDefaults := by
  have hsame : m.fillDefaults.descriptor = m.descriptor :=
    (Message.takes_fillDefaults hm).descriptor.trans hm.descriptor.symm
  have hfields {f : FieldDescriptor} (hf : f ∈ m.descriptor.fields) : f ∈ d.fields := hm.descriptor ▸ hf
  have held {f : FieldDescriptor} (hf : f ∈ m.descriptor.fields) (hno : ∀ s, ¬ m.Lacks f s) :=
    (hm.stored?_fillDefaults (hfields hf)).2 hno
  refine .mk hsame hm.unknown_fillDefaults (fun f hf => (hm.stored?_fillDefaults (hfields hf)).1)
    (fun f hf => hm.has_fillDefaults (hfields hf)) (fun f hf hno => ?_) fun f hf hno s t hs ht => ?_
  · rw [held hf hno, Option.isSome_map]
  · rw [held hf hno, hs, Option.map_some] at ht
    obtain rfl := Option.some.inj ht
    have hlt := Message.sizeOf_stored?_lt hs
    exact FieldDescriptor.Holds.filled (hm.stored (hfields hf) hs)
termination_by 2 * sizeOf m
decreasing_by
  omega

theorem FieldDescriptor.Holds.filled {f : FieldDescriptor} {s : Stored} (hs : f.Holds s) :
    s.Filled s.fillDefaults := by
  by_cases hlist : f.isList = true
  · obtain ⟨items, hitems, hall⟩ := hs.items hlist
    rw [hitems, Stored.fillDefaults, Stored.fillItems_eq]
    refine .list (List.forall₂_map_self fun t ht => ?_)
    have hlt := List.sizeOf_lt_of_mem ht
    exact Kind.Holds.filled (hall t ht)
  by_cases hmap : f.isMap = true
  · obtain ⟨entries, hentries, -, hvalues, -⟩ := hs.entries hmap
    rw [hentries, Stored.fillDefaults, Stored.fillEntries_eq]
    refine .map (List.map_map ..) ?_
    rw [List.map_map, List.forall₂_map_left_iff, List.forall₂_map_right_iff]
    refine List.forall₂_same.2 fun e he => ?_
    have hlt := List.sizeOf_lt_of_mem he
    exact Kind.Holds.filled (hvalues e he)
  · exact Kind.Holds.filled (hs.kind (by simpa using hmap) (by simpa using hlist))
termination_by 2 * sizeOf s + 1
decreasing_by
  · simp only [hitems, Stored.list.sizeOf_spec]
    omega
  · obtain ⟨key, value⟩ := e
    simp only [Prod.mk.sizeOf_spec] at hlt
    simp only [hentries, Stored.map.sizeOf_spec]
    omega
  · omega

theorem Kind.Holds.filled {kind : Kind} {s : Stored} (hs : kind.Holds s) : s.Filled s.fillDefaults := by
  cases hvalue : s with
  | scalar x =>
    rw [Stored.fillDefaults]
    exact .scalar x
  | message m =>
    rw [hvalue] at hs
    cases hs with
    | message hd hm =>
      rw [Stored.fillDefaults]
      exact .message (MessageDescriptor.Takes.filled ⟨hd, hm⟩)
  | list items => exact absurd (hvalue ▸ hs) Kind.Holds.not_list
  | map entries => exact absurd (hvalue ▸ hs) Kind.Holds.not_map
termination_by 2 * sizeOf s
decreasing_by
  simp only [hvalue, Stored.message.sizeOf_spec]
  omega

end

/-! ## Doing it again -/

mutual

/-- **Filling in again** changes nothing. A default that has no presence is given again. -/
theorem MessageDescriptor.Takes.fillDefaults_fillDefaults {d : MessageDescriptor} {m : Message}
    (hm : d.Takes m) : m.fillDefaults.fillDefaults = m.fillDefaults := by
  have hfilled := Message.takes_fillDefaults hm
  refine hfilled.eq_of_stored? (Message.takes_fillDefaults hfilled) hfilled.unknown_fillDefaults
    fun f hf => ?_
  obtain ⟨hgiven, hkept⟩ := hm.stored?_fillDefaults hf
  obtain ⟨hgiven', hkept'⟩ := hfilled.stored?_fillDefaults hf
  by_cases h : ∃ s, m.Lacks f s
  · obtain ⟨s, hs⟩ := h
    by_cases h' : ∃ t, m.fillDefaults.Lacks f t
    · obtain ⟨t, ht⟩ := h'
      obtain rfl := Option.some.inj (hs.declared.symm.trans ht.declared)
      rw [hgiven s hs, hgiven' s ht]
    · rw [hkept' (not_exists.1 h'), hgiven s hs, Option.map_some, Stored.fillDefaults]
  · have hno := not_exists.1 h
    have hhas := hm.has_fillDefaults hf hno
    rw [hkept' fun s hs => hno s (hs.congr hhas.symm), hkept hno]
    rcases hs : m.stored? f with _ | s
    · rfl
    · have hlt := Message.sizeOf_stored?_lt hs
      rw [Option.map_some, Option.map_some,
        FieldDescriptor.Holds.fillDefaults_fillDefaults (hm.stored hf hs)]
termination_by 2 * sizeOf m
decreasing_by
  omega

theorem FieldDescriptor.Holds.fillDefaults_fillDefaults {f : FieldDescriptor} {s : Stored}
    (hs : f.Holds s) : s.fillDefaults.fillDefaults = s.fillDefaults := by
  by_cases hlist : f.isList = true
  · obtain ⟨items, hitems, hall⟩ := hs.items hlist
    rw [hitems, Stored.fillDefaults, Stored.fillDefaults, Stored.fillItems_eq, Stored.fillItems_eq,
      List.map_map]
    refine congrArg _ (List.map_congr_left fun t ht => ?_)
    have hlt := List.sizeOf_lt_of_mem ht
    exact Kind.Holds.fillDefaults_fillDefaults (hall t ht)
  by_cases hmap : f.isMap = true
  · obtain ⟨entries, hentries, -, hvalues, -⟩ := hs.entries hmap
    rw [hentries, Stored.fillDefaults, Stored.fillDefaults, Stored.fillEntries_eq,
      Stored.fillEntries_eq, List.map_map]
    refine congrArg _ (List.map_congr_left fun e he => ?_)
    have hlt := List.sizeOf_lt_of_mem he
    exact congrArg (Prod.mk e.1) (Kind.Holds.fillDefaults_fillDefaults (hvalues e he))
  · exact Kind.Holds.fillDefaults_fillDefaults (hs.kind (by simpa using hmap) (by simpa using hlist))
termination_by 2 * sizeOf s + 1
decreasing_by
  · simp only [hitems, Stored.list.sizeOf_spec]
    omega
  · obtain ⟨key, value⟩ := e
    simp only [Prod.mk.sizeOf_spec] at hlt
    simp only [hentries, Stored.map.sizeOf_spec]
    omega
  · omega

theorem Kind.Holds.fillDefaults_fillDefaults {kind : Kind} {s : Stored} (hs : kind.Holds s) :
    s.fillDefaults.fillDefaults = s.fillDefaults := by
  cases hvalue : s with
  | scalar x => rw [Stored.fillDefaults, Stored.fillDefaults]
  | message m =>
    rw [hvalue] at hs
    cases hs with
    | message hd hm =>
      rw [Stored.fillDefaults, Stored.fillDefaults]
      exact congrArg _ (MessageDescriptor.Takes.fillDefaults_fillDefaults ⟨hd, hm⟩)
  | list items => exact absurd (hvalue ▸ hs) Kind.Holds.not_list
  | map entries => exact absurd (hvalue ▸ hs) Kind.Holds.not_map
termination_by 2 * sizeOf s
decreasing_by
  simp only [hvalue, Stored.message.sizeOf_spec]
  omega

end

/-! ## Messages inside -/

theorem lookupKey_fillEntries (key : MapKey) (entries : List (MapKey × Stored)) :
    lookupKey key (Stored.fillEntries entries) = (lookupKey key entries).map Stored.fillDefaults := by
  induction entries with
  | nil => rfl
  | cons e rest ih =>
    obtain ⟨k, value⟩ := e
    rw [Stored.fillEntries, lookupKey, lookupKey]
    split
    · rfl
    · exact ih

/-- A message that is set in a field is filled in where it is: a field that is given a default holds
none. -/
theorem MessageDescriptor.Takes.lookupNumber_fillDefaults {d : MessageDescriptor} {x y : Message}
    (hx : d.Takes x) {number : Nat} {t : Stored} (ht : lookupNumber number x.fields = some t)
    {path : List Part} (hpath : t.part? path = some (.message y)) :
    (∃ f : FieldDescriptor, f.Holds t) ∧
      lookupNumber number x.fillDefaults.fields = some t.fillDefaults := by
  obtain ⟨f, hf, rfl⟩ : ∃ f ∈ d.fields, f.number = number := by
    by_contra hno
    rw [hx.lookupNumber_eq_none fun f hf he => hno ⟨f, hf, he⟩] at ht
    cases ht
  have hholds : f.Holds t := hx.stored hf ht
  -- what a part lies in is no scalar
  have hno (s : Scalar) : ¬ x.Lacks f s := by
    intro hs
    obtain ⟨-, hmap, hlist, hkind⟩ := hs.single
    have hsingle := hholds.kind hmap hlist
    cases t with
    | scalar =>
      cases path with
      | nil => cases hpath
      | cons step => cases step <;> cases hpath
    | message m =>
      obtain ⟨e, hk, -⟩ := hholds.messageType
      rw [hk] at hkind
      cases hkind
    | list => exact absurd hsingle Kind.Holds.not_list
    | map => exact absurd hsingle Kind.Holds.not_map
  have hfilled := (hx.stored?_fillDefaults hf).2 hno
  unfold Message.stored? at hfilled
  exact ⟨⟨f, hholds⟩, by rw [hfilled, ht, Option.map_some]⟩

/-- The induction is on the path. Lists and maps are held by fields, their elements by kinds. -/
theorem Stored.part?_fillDefaults {path : List Part} {s : Stored} {y : Message}
    (hs : (∃ f : FieldDescriptor, f.Holds s) ∨ ∃ kind : Kind, kind.Holds s)
    (hpath : s.part? path = some (.message y)) :
    s.fillDefaults.part? path = some (.message y.fillDefaults) := by
  induction path generalizing s with
  | nil =>
    obtain rfl := Option.some.inj hpath
    rw [fillDefaults, part?]
  | cons step path ih =>
    -- a part is a field of a message, an item of a list or an entry of a map
    cases step <;> cases s <;> try cases hpath
    case field.message number x =>
      obtain ⟨t, ht, hpath⟩ := Option.bind_eq_some_iff.1 hpath
      obtain ⟨d, hx⟩ : ∃ d : MessageDescriptor, d.Takes x := by
        rcases hs with ⟨f, hs⟩ | ⟨kind, hs⟩
        · obtain ⟨d, -, hx⟩ := hs.messageType
          exact ⟨d, hx⟩
        · cases hs with
          | message hd hx => exact ⟨_, hd, hx⟩
      obtain ⟨hholds, hlookup⟩ := hx.lookupNumber_fillDefaults ht hpath
      rw [fillDefaults]
      exact Option.bind_eq_some_iff.2 ⟨_, hlookup, ih (.inl hholds) hpath⟩
    case item.list i items =>
      obtain ⟨t, ht, hpath⟩ := Option.bind_eq_some_iff.1 hpath
      rw [fillDefaults, fillItems_eq]
      refine Option.bind_eq_some_iff.2
        ⟨t.fillDefaults, by rw [List.getElem?_map, ht, Option.map_some], ih (.inr ?_) hpath⟩
      rcases hs with ⟨f, hs⟩ | ⟨kind, hs⟩
      · cases hs with
        | list _ hitems => exact ⟨_, hitems t (List.mem_of_getElem? ht)⟩
        | single _ _ hs => exact absurd hs Kind.Holds.not_list
      · exact absurd hs Kind.Holds.not_list
    case entry.map key entries =>
      obtain ⟨t, ht, hpath⟩ := Option.bind_eq_some_iff.1 hpath
      rw [fillDefaults]
      refine Option.bind_eq_some_iff.2
        ⟨t.fillDefaults, by rw [lookupKey_fillEntries, ht, Option.map_some], ih (.inr ?_) hpath⟩
      rcases hs with ⟨f, hs⟩ | ⟨kind, hs⟩
      · cases hs with
        | map _ _ hvalues => exact ⟨_, hvalues _ (lookupKey_mem ht)⟩
        | single _ _ hs => exact absurd hs Kind.Holds.not_map
      · exact absurd hs Kind.Holds.not_map

/-- **Messages inside** are where they were, filled in themselves. -/
theorem MessageDescriptor.Takes.part?_fillDefaults {d : MessageDescriptor} {x y : Message}
    (hx : d.Takes x) {path : List Part} (hpath : (Stored.message x).part? path = some (.message y)) :
    (Stored.message x.fillDefaults).part? path = some (.message y.fillDefaults) := by
  have hfilled := Stored.part?_fillDefaults (.inr ⟨_, hx.holds⟩) hpath
  rwa [Stored.fillDefaults] at hfilled

end Protoscript
