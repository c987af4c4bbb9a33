import Protoscript.Json.OfMessage
import Protoscript.Proofs.JsonNames
import Protoscript.Proofs.JsonWrappers
import Protoscript.Proofs.Transcoding

/-!
# Messages in JSON are read back

The fields that are set in a message are written in the order of their numbers, and read one after the
other into an empty message. What has been read so far holds what the message holds, and nothing in the
fields that are still to come; so no other member of a oneof is in the way when a field is read.

* `Message.Plain` — messages without floating-point numbers and without types that have a form of their
  own, other than wrappers;
* `FieldDescriptor.exists_restores` — what a field holds is read back;
* `Message.ReadSoFar` — the invariant of reading members, with its step
  `Message.ReadSoFar.cons`;
* `Message.Plain.backFromJson` — such messages are read back as messages that are the same on the wire,
  but for what they carry under numbers that are not declared.
-/

namespace Protoscript

/-! ## What cannot be read -/

theorem ScalarType.ofJson?_null (t : ScalarType) : t.ofJson? .null = none := by
  unfold ofJson?
  rcases t.storage <;> rfl

theorem ScalarType.ofJson?_object (t : ScalarType) (members : List (String × Json)) :
    t.ofJson? (.object members) = none := by
  unfold ofJson?
  rcases t.storage <;> rfl

/-- No message is read from null. -/
theorem Message.ofJson?_null (d : MessageDescriptor) : Message.ofJson? d .null = none := by
  rw [Message.ofJson?]
  · rcases wrappedType? d.fullName with _ | t
    · rfl
    · exact congrArg (Option.map (Message.wrapping d)) t.ofJson?_null
  · rintro _ ⟨⟩

/-- No single value is read from null. -/
theorem Stored.ofJson?_null (kind : Kind) : Stored.ofJson? kind .null = none := by
  cases kind with
  | message d =>
    rw [Stored.ofJson?]
    exact congrArg (Option.map Stored.message) (Message.ofJson?_null d)
  | scalar t =>
    rw [Stored.ofJson?]
    · exact congrArg (Option.map Stored.scalar) t.ofJson?_null
    · rintro _ ⟨⟩
  | enum d =>
    rw [Stored.ofJson?]
    · rfl
    · rintro _ ⟨⟩

/-! ## Single values -/

/-- Whether a message is read back from its JSON form as one that is the same on the wire, but for what
it carries under numbers that are not declared. -/
def Message.BackFromJson (depth : Nat) (m : Message) : Prop :=
  ∃ j n, m.toJsonWithin? depth = some j ∧ j.Legible ∧ Message.ofJson? m.descriptor j.reread = some n ∧
    m.Alike False n

namespace FieldDescriptor

/-- Whether a single value of a field's type is written as `j`, and that is read as `t`. -/
structure Passes (depth : Nat) (f : FieldDescriptor) (s : Stored) (j : Json) (t : Stored) : Prop where
  written : s.toJson? depth f = some j
  legible : j.Legible
  read : Stored.ofJson? f.kind j.reread = some t
  alike : s.Alike False t

variable {depth : Nat} {f : FieldDescriptor} {s : Stored}

/-- **A single value** is read back. -/
theorem exists_passes (hs : f.kind.Holds s) (hfloat : f.kind.isFloat = false)
    (hnames : f.kind.NamesApart) (hback : ∀ c, s.Contains c → c.BackFromJson depth) :
    ∃ j t, f.Passes depth s j t := by
  rcases hkind : f.kind with t | d | d <;> rw [hkind] at hs
  case message =>
    cases hs with
    | scalar hs => cases hs
    | @message _ m hd =>
      obtain ⟨j, n, hwritten, hlegible, hread, halike⟩ := hback m .message
      refine ⟨j, .message n, ?_, hlegible, ?_, .message halike⟩
      · rw [Stored.toJson?, hwritten]
      · rw [hkind, Stored.ofJson?, ← hd, hread, Option.map_some]
  all_goals
    cases hs with
    | @scalar _ a hs =>
      rw [← hkind] at hs
      obtain ⟨hlegible, hread⟩ := Kind.scalarOfJson?_toJson hs hfloat hnames
      refine ⟨a.toJson f.kind, .scalar a, by rw [Stored.toJson?], hlegible, ?_, .scalar (.inl rfl)⟩
      rw [hkind] at hread ⊢
      rw [Stored.ofJson?, hread, Option.map_some]
      rintro _ ⟨⟩

/-- What a single value is read from is read into a field as that value. -/
theorem readMember?_single (hmap : f.isMap = false) (hlist : f.isList = false) {j : Json}
    (hs : Stored.ofJson? f.kind j = some s) (x : Message) : x.readMember? f j = x.setMember? f s := by
  cases j with
  | null =>
    rw [Stored.ofJson?_null] at hs
    cases hs
  | object members | array items =>
    rw [Message.readMember?, hmap, hlist, if_neg Bool.false_ne_true, if_neg Bool.false_ne_true, hs,
      Option.bind_some]
  | _ =>
    rw [Message.readMember?, hmap, hlist, Bool.or_false, if_neg Bool.false_ne_true, hs, Option.bind_some]
    all_goals (intros; contradiction)

/-! ## Lists and maps -/

/-- The items of a list are read back. -/
theorem exists_items {items : List Stored} (hitems : ∀ s ∈ items, f.kind.Holds s)
    (hfloat : f.kind.isFloat = false) (hnames : f.kind.NamesApart)
    (hback : ∀ s ∈ items, ∀ c, s.Contains c → c.BackFromJson depth) :
    ∃ js ts, Stored.itemsToJson? depth f items = some js ∧ (∀ j ∈ js, j.Legible) ∧
      Stored.readItems? f.kind (Json.rereadItems js) = some ts ∧
      List.Forall₂ (Stored.Alike False) items ts := by
  induction items with
  | nil =>
    refine ⟨[], [], by rw [Stored.itemsToJson?], List.forall_mem_nil _, ?_, .nil⟩
    rw [Json.rereadItems, Stored.readItems?]
  | cons s rest ih =>
    obtain ⟨hs, hrest⟩ := List.forall_mem_cons.1 hitems
    obtain ⟨hsback, hrestback⟩ := List.forall_mem_cons.1 hback
    obtain ⟨j, t, hpasses⟩ := exists_passes hs hfloat hnames hsback
    obtain ⟨js, ts, hwritten, hlegible, hread, halike⟩ := ih hrest hrestback
    refine ⟨j :: js, t :: ts, ?_, List.forall_mem_cons.2 ⟨hpasses.legible, hlegible⟩, ?_,
      .cons hpasses.alike halike⟩
    · rw [Stored.itemsToJson?, hpasses.written, hwritten]
    · rw [Json.rereadItems, Stored.readItems?, hpasses.read, hread]

/-- The entries of a map are read back, on top of others. -/
theorem exists_entries {entry : MessageDescriptor} (hkind : f.kind = .message entry)
    {entries : List (MapKey × Stored)} (hkeys : ∀ e ∈ entries, f.keyKind.HoldsKey e.1)
    (hvalues : ∀ e ∈ entries, f.valueKind.Holds e.2) (hfloat : f.valueKind.isFloat = false)
    (hnames : f.valueKind.NamesApart)
    (hback : ∀ e ∈ entries, ∀ c, e.2.Contains c → c.BackFromJson depth) :
    ∃ members es, Stored.entriesToJson? depth f entries = some members ∧ (∀ m ∈ members, m.2.Legible) ∧
      (∀ olds, Stored.readEntries? f olds (Json.rereadMembers members) =
        some (es.foldl (fun es e => insertKey e.1 e.2 es) olds)) ∧
      List.Forall₂ (Stored.EntriesAlike False) entries es := by
  have hkeyKind : f.keyKind = (entryKey entry).kind := by rw [keyKind, hkind]
  have hvalueKind : f.valueKind = (entryValue entry).kind := by rw [valueKind, hkind]
  rw [hkeyKind] at hkeys
  rw [hvalueKind] at hvalues hfloat hnames
  -- on the entries, for whatever entries they are read after
  induction entries with
  | nil =>
    refine ⟨[], [], by rw [Stored.entriesToJson?], List.forall_mem_nil _, fun olds => ?_, .nil⟩
    rw [Json.rereadMembers, Stored.readEntries?, List.foldl_nil]
  | cons e rest ih =>
    obtain ⟨key, s⟩ := e
    obtain ⟨hkey, hrestkeys⟩ := List.forall_mem_cons.1 hkeys
    obtain ⟨hs, hrest⟩ := List.forall_mem_cons.1 hvalues
    obtain ⟨hsback, hrestback⟩ := List.forall_mem_cons.1 hback
    obtain ⟨j, t, hpasses⟩ := exists_passes hs hfloat hnames hsback
    obtain ⟨members, es, hwritten, hlegible, hread, halike⟩ := ih hrestkeys hrest hrestback
    refine ⟨(key.jsonName, j) :: members, (key, t) :: es, ?_,
      List.forall_mem_cons.2 ⟨hpasses.legible, hlegible⟩, fun olds => ?_,
      .cons ⟨rfl, hpasses.alike⟩ halike⟩
    · rw [Stored.entriesToJson?, hkind]
      dsimp only
      rw [hpasses.written, hwritten]
    · rw [Json.rereadMembers, Stored.readEntries?, hkind]
      dsimp only
      rw [Kind.keyOfJson?_jsonName hkey, hpasses.read]
      exact hread _

/-! ## Fields -/

/-- The type of the values that a field holds; of a map, those of its entries. -/
def heldKind (f : FieldDescriptor) : Kind := if f.isMap then f.valueKind else f.kind

/-- Whether what a field holds is written as `j`, and that is read into the field as `t`. -/
structure Restores (depth : Nat) (f : FieldDescriptor) (s : Stored) (j : Json) (t : Stored) : Prop where
  written : s.toJson? depth f = some j
  legible : j.Legible
  read : ∀ x : Message, x.readMember? f j.reread = x.setMember? f t
  alike : s.Alike False t

/-- **What a field holds** is read back into the field. -/
theorem exists_restores (hs : f.Holds s) (hfloat : f.heldKind.isFloat = false)
    (hnames : f.heldKind.NamesApart) (hback : ∀ c, s.Contains c → c.BackFromJson depth) :
    ∃ j t, f.Restores depth s j t := by
  unfold heldKind at hfloat hnames
  cases hs with
  | single hmap hlist hs =>
    rw [hmap, if_neg Bool.false_ne_true] at hfloat hnames
    obtain ⟨j, t, hpasses⟩ := exists_passes hs hfloat hnames hback
    exact ⟨j, t, hpasses.written, hpasses.legible, readMember?_single hmap hlist hpasses.read,
      hpasses.alike⟩
  | @list _ items hlist hitems =>
    have hmap := isMap_of_isList hlist
    rw [hmap, if_neg Bool.false_ne_true] at hfloat hnames
    obtain ⟨js, ts, hwritten, hlegible, hread, halike⟩ :=
      exists_items hitems hfloat hnames fun s hs c hc => hback c (.list hs hc)
    refine ⟨.array js, .list ts, ?_, .array hlegible, fun x => ?_, Stored.alike_list.2 halike⟩
    · rw [Stored.toJson?, hwritten, Option.map_some]
    · rw [Json.reread, Message.readMember?, hmap, if_neg Bool.false_ne_true, hlist, if_pos rfl, hread,
        Option.bind_some]
  | @map _ entries hmap hkeys hvalues hsorted =>
    rw [hmap, if_pos rfl] at hfloat hnames
    obtain ⟨entry, hkind⟩ := kind_of_isMap hmap
    obtain ⟨members, es, hwritten, hlegible, hread, halike⟩ :=
      exists_entries hkind hkeys hvalues hfloat hnames fun e he c hc => hback c (.map he hc)
    have hsame : (Stored.map entries).Alike False (.map es) := Stored.alike_map.2 halike
    have hkeys : entries.map (·.1) = es.map (·.1) := by
      cases hsame with
      | map hkeys => exact hkeys
    -- the entries are in order, so they are put into the map as they stand
    have hnew : es.foldl (fun es e => insertKey e.1 e.2 es) [] = es :=
      mapOfEntries_of_sorted (hkeys ▸ hsorted)
    refine ⟨.object members, .map es, ?_, .object hlegible, fun x => ?_, hsame⟩
    · rw [Stored.toJson?, hwritten, Option.map_some]
    · rw [Json.reread, Message.readMember?, hmap, if_pos rfl, hread, hnew, Option.bind_some]

end FieldDescriptor

/-! ## One member after the other -/

namespace Message

/-- Whether a field of a message holds in another one what it holds there. -/
structure ReadAt (m x : Message) (g : FieldDescriptor) : Prop where
  set : x.has g = m.has g
  stored : m.has g = true → ∀ s t, m.stored? g = some s → x.stored? g = some t → s.Alike False t

/-- Whether all fields of a message but some have been read into another one, which holds nothing in
those. -/
structure ReadSoFar (m x : Message) (rest : List (Nat × Stored)) : Prop where
  descriptor : x.descriptor = m.descriptor
  ahead : ∀ g ∈ m.descriptor.fields, g.number ∈ rest.map (·.1) → x.stored? g = none
  done : ∀ g ∈ m.descriptor.fields, g.number ∉ rest.map (·.1) → m.ReadAt x g

variable {d : MessageDescriptor} {m x : Message} {f g : FieldDescriptor} {s t : Stored}
  {rest : List (Nat × Stored)}

theorem ReadAt.of_stored?_eq_none (hm : m.has g = false) (hx : x.stored? g = none) : m.ReadAt x g := by
  refine ⟨?_, fun hset => ?_⟩
  · rw [hm, has, hx]
  · rw [hm] at hset
    cases hset

theorem ReadAt.congr {y : Message} (h : m.ReadAt x g) (hy : y.stored? g = x.stored? g) :
    m.ReadAt y g := by
  refine ⟨(has_congr hy).trans h.set, fun hset s t hs ht => h.stored hset s t hs (hy ▸ ht)⟩

/-- At first, nothing has been read. -/
theorem readSoFar_empty (hm : d.Takes m) : m.ReadSoFar (.empty d) m.fields := by
  refine ⟨hm.descriptor.symm, fun _ _ _ => rfl, fun g _ hno => .of_stored?_eq_none ?_ rfl⟩
  have hnone : m.stored? g = none := by
    unfold stored?
    rwa [← Option.not_isSome_iff_eq_none, lookupNumber_isSome_iff]
  rw [has, hnone]

/-- In the end, everything has. -/
theorem ReadSoFar.alike (h : m.ReadSoFar x []) : m.Alike False x :=
  .mk h.descriptor (fun g hg => (h.done g hg List.not_mem_nil).set)
    (fun g hg => (h.done g hg List.not_mem_nil).stored) False.elim

section

variable (hm : d.Takes m) (hf : f ∈ d.fields) (hs : m.stored? f = some s)
  (h : m.ReadSoFar x ((f.number, s) :: rest))

include hm hf hs h

/-- A field that is not set is passed over. -/
theorem ReadSoFar.skip (hunset : m.has f = false) : m.ReadSoFar x rest := by
  refine ⟨h.descriptor, fun g hg hmem => h.ahead g hg (List.mem_cons_of_mem _ hmem), fun g hg hno => ?_⟩
  by_cases hnumber : g.number = f.number
  · obtain rfl := MessageDescriptor.eq_of_number (hm.descriptor ▸ hg) hf hnumber
    exact .of_stored?_eq_none hunset (h.ahead g hg List.mem_cons_self)
  · exact h.done g hg fun hmem => (List.mem_cons.1 hmem).elim hnumber hno

/-- No member of the field's oneof is in the way. -/
theorem ReadSoFar.setMember?_eq : x.setMember? f t = some (x.set f t) := by
  have hmessage : f.message = d := (MessageDescriptor.mem_fields.1 hf).1
  refine if_neg fun hany => ?_
  obtain ⟨g, hg, hset⟩ := List.any_eq_true.1 hany
  unfold FieldDescriptor.oneofMembers at hg
  split at hg
  · rename_i hone
    obtain ⟨hgf, hsame⟩ := List.mem_filter.1 hg
    have hgd : g ∈ m.descriptor.fields := by rwa [hm.descriptor, ← hmessage]
    have hunset : x.has g = false := by
      by_cases hmem : g.number ∈ ((f.number, s) :: rest).map (·.1)
      · rw [has, h.ahead g hgd hmem]
      · have hne : g.number ≠ f.number := fun he => hmem (he ▸ List.mem_cons_self)
        have hrivals : g ∈ f.siblings :=
          FieldDescriptor.rivals_iff.2 ⟨hone, hgf, by simpa using hsame, hne⟩
        have hnone := hm.siblings_eq_none hf (Option.isSome_iff_exists.2 ⟨s, hs⟩) g hrivals
        rw [(h.done g hgd hmem).set, has, hnone]
    rw [hunset] at hset
    cases hset
  · cases hg

/-- **The step.** A field that is set is read. -/
theorem ReadSoFar.cons (hset : m.has f = true) (hst : s.Alike False t)
    (hsorted : (((f.number, s) :: rest).map (·.1)).Pairwise (· < ·))
    (hahead : ∀ e ∈ rest, e ∈ m.fields) :
    m.ReadSoFar (x.set f t) rest := by
  have hmessage : f.message = d := (MessageDescriptor.mem_fields.1 hf).1
  -- the other members of the oneof are unset, so that writing this one takes nothing away
  have hsiblings := hm.siblings_eq_none hf (Option.isSome_iff_exists.2 ⟨s, hs⟩)
  have hlater {number : Nat} (hmem : number ∈ rest.map (·.1)) : f.number < number :=
    (List.pairwise_cons.1 hsorted).1 number hmem
  refine ⟨(descriptor_set x f t).trans h.descriptor, fun g hg hmem => ?_, fun g hg hno => ?_⟩
  · have hne : g.number ≠ f.number := Nat.ne_of_gt (hlater hmem)
    have hheld : (m.stored? g).isSome := by
      obtain ⟨e, he, hnumber⟩ := List.mem_map.1 hmem
      exact lookupNumber_isSome_iff.2 (List.mem_map.2 ⟨e, hahead e he, hnumber⟩)
    have hrivals : ¬ f.Rivals g := fun hrivals => by
      rw [hsiblings g hrivals] at hheld
      cases hheld
    rw [stored?_set_of_not_rivals x (by rwa [hmessage, ← hm.descriptor]) hne hrivals]
    exact h.ahead g hg (List.mem_cons_of_mem _ hmem)
  · by_cases hnumber : g.number = f.number
    · obtain rfl := MessageDescriptor.eq_of_number (hm.descriptor ▸ hg) hf hnumber
      have hwritten : (x.set g t).stored? g = some t := stored?_set_self x rfl t
      refine ⟨?_, fun _ u v hu hv => ?_⟩
      · rw [has, has, hwritten, hs]
        dsimp only
        rw [hst.isDefaultOf_eq]
      · cases hs.symm.trans hu
        cases hwritten.symm.trans hv
        exact hst
    have hno' : g.number ∉ ((f.number, s) :: rest).map (·.1) :=
      fun hmem => (List.mem_cons.1 hmem).elim hnumber hno
    by_cases hrivals : f.Rivals g
    · refine .of_stored?_eq_none ?_ (stored?_set_of_rivals x hrivals t)
      rw [has, hsiblings g hrivals]
    · refine (h.done g hg hno').congr ?_
      exact stored?_set_of_not_rivals x (by rwa [hmessage, ← hm.descriptor]) hnumber hrivals t

end

/-- **The run.** The fields that are to come are written, and read one after the other. -/
theorem exists_members {depth : Nat} (hm : d.Takes m)
    (hnames : ∀ f ∈ d.fields, d.memberField? f.name = some f)
    (hrestores : ∀ f ∈ d.fields, ∀ s, m.stored? f = some s → m.has f = true →
      ∃ j t, f.Restores depth s j t)
    {fs : List (Nat × Stored)} (hfs : ∀ e ∈ fs, e ∈ m.fields)
    (hsorted : (fs.map (·.1)).Pairwise (· < ·))
    (h : m.ReadSoFar x fs) :
    ∃ members z, m.fieldsToJson? depth fs = some members ∧ (∀ e ∈ members, e.2.Legible) ∧
      x.readMembers? (Json.rereadMembers members) = some z ∧ m.Alike False z := by
  -- on the fields that are left, for whatever was read back so far
  induction fs generalizing x with
  | nil =>
    refine ⟨[], x, by rw [fieldsToJson?], List.forall_mem_nil _, ?_, h.alike⟩
    rw [Json.rereadMembers, readMembers?]
  | cons e rest ih =>
    obtain ⟨number, s⟩ := e
    obtain ⟨hmem, hrest⟩ := List.forall_mem_cons.1 hfs
    have hlater := (List.pairwise_cons.1 hsorted).2
    obtain ⟨f, hf, rfl, hs⟩ : ∃ f ∈ d.fields, f.number = number ∧ m.stored? f = some s := by
      obtain ⟨rfl, ⟨sorted, declared⟩⟩ := hm
      obtain ⟨f, hf, hnumber⟩ := declared _ hmem
      exact ⟨f, hf, hnumber, stored?_of_mem sorted hmem hnumber⟩
    have hnumbered : m.descriptor.numbered? f.number = some f :=
      MessageDescriptor.numbered?_number (hm.descriptor.symm ▸ hf)
    by_cases hset : m.has f = true
    · obtain ⟨j, t, hwritten, hlegible, hread, hst⟩ := hrestores f hf s hs hset
      obtain ⟨members, z, hmembers, hall, hz, halike⟩ :=
        ih hrest hlater (h.cons hm hf hs hset hst hsorted hrest)
      refine ⟨(f.name, j) :: members, z, ?_, List.forall_mem_cons.2 ⟨hlegible, hall⟩, ?_, halike⟩
      · rw [fieldsToJson?, hnumbered]
        dsimp only
        rw [if_pos hset, hwritten, hmembers]
      · rw [Json.rereadMembers, readMembers?, h.descriptor, hm.descriptor, hnames f hf]
        dsimp only
        rw [hread, h.setMember?_eq hm hf hs]
        exact hz
    · -- an unset field is not written
      have hunset : m.has f = false := Bool.eq_false_iff.2 hset
      obtain ⟨members, z, hmembers, hall, hz, halike⟩ := ih hrest hlater (h.skip hm hf hs hunset)
      refine ⟨members, z, ?_, hall, hz, halike⟩
      rw [fieldsToJson?, hnumbered]
      dsimp only
      rw [if_neg hset, hmembers]

/-! ## Messages -/

/-- The full names of the types with a JSON form of their own, other than wrappers. -/
def formNames : List String := [
  anyFullName, "google.protobuf.Timestamp", "google.protobuf.Duration", "google.protobuf.Struct",
  "google.protobuf.Value", "google.protobuf.ListValue", "google.protobuf.NullValue",
  "google.protobuf.FieldMask", "google.protobuf.Empty"
]

/-- Whether no floating-point number is set in a message, and no type but wrappers has a JSON form of its
own, at any depth. -/
inductive Plain : Message → Prop
  | mk {m : Message} (form : m.fullName ∉ formNames)
    (fields : ∀ f ∈ m.descriptor.fields, m.has f = true →
      f.heldKind.isFloat = false ∧ f.heldKind.name ∉ formNames)
    (inner : ∀ c, m.Encloses c → c.Plain) : Plain m

variable {p : Pool} {depth : Nat}

/-- A wrapper is read back. -/
theorem backFromJson_wrapper {t : ScalarType} (hd : d.IsWrapper t) (hm : d.Takes m)
    (hfloat : m.has ⟨d, wrapperInfo t⟩ = true → (Kind.scalar t).isFloat = false) :
    m.BackFromJson depth := by
  obtain ⟨hlegible, n, hread, halike⟩ := hd.readsBack hm hfloat
  obtain ⟨s, hs, -⟩ := Option.map_eq_some_iff.1 hread
  refine ⟨m.bareJson t, n, ?_, hlegible, ?_, halike⟩
  · obtain ⟨descriptor, fields, unknown⟩ := m
    obtain rfl : descriptor = d := hm.descriptor
    rw [toJsonWithin?.eq_def]
    dsimp only
    rw [hd.name]
  · rw [hm.descriptor, Message.ofJson?, hd.name]
    · exact hread
    · intro members hmembers
      rw [hmembers, ScalarType.ofJson?_object] at hs
      cases hs

/-- A message without a form of its own is read back, if its fields are. -/
theorem backFromJson_object (hm : d.Takes m) (hwrapper : wrappedType? d.fullName = none)
    (hany : d.fullName ≠ anyFullName) (hnames : ∀ f ∈ d.fields, d.memberField? f.name = some f)
    (hrestores : ∀ f ∈ d.fields, ∀ s, m.stored? f = some s → m.has f = true →
      ∃ j t, f.Restores depth s j t) : m.BackFromJson depth := by
  have hsorted : (m.fields.map (·.1)).Pairwise (· < ·) := by
    obtain ⟨-, ⟨sorted⟩⟩ := hm
    exact sorted
  obtain ⟨members, z, hmembers, hlegible, hread, halike⟩ :=
    exists_members hm hnames hrestores (fun _ he => he) hsorted (readSoFar_empty hm)
  have hno : (d.fullName == anyFullName) = false := beq_eq_false_iff_ne.2 hany
  refine ⟨.object members, z, ?_, .object hlegible, ?_, halike⟩
  · obtain ⟨descriptor, fields, unknown⟩ := m
    obtain rfl : descriptor = d := hm.descriptor
    rw [toJsonWithin?.eq_def]
    dsimp only
    rw [hwrapper]
    dsimp only
    rw [hno, if_neg Bool.false_ne_true]
    exact congrArg (Option.map Json.object) hmembers
  · rw [hm.descriptor, Json.reread, Message.ofJson?, hno, if_neg Bool.false_ne_true, hwrapper]
    exact hread

/-- **A plain message is read back** from its JSON form as one that is the same on the wire, but for what
it carries under numbers that are not declared. -/
theorem Plain.backFromJson (hp : p.NamesJson) (hwrappers : p.DeclaresWrappers) (hplain : m.Plain)
    (hd : m.descriptor.Among {p}) (hm : m.Conforms) : m.BackFromJson depth := by
  -- on the plain message: all messages inside are read back
  induction hplain with
  | @mk m form fields inner ih =>
    have htakes : m.descriptor.Takes m := ⟨rfl, hm⟩
    rcases hwrapper : wrappedType? m.descriptor.fullName with _ | t
    · refine backFromJson_object htakes hwrapper (fun hany => form ?_) (fun f hf => ?_)
        fun f hf s hs hset => ?_
      · rw [fullName, hany]
        exact List.mem_cons_self
      · obtain ⟨hmessage, -⟩ := MessageDescriptor.mem_fields.1 hf
        exact hmessage ▸ hp.memberField?_name (FieldDescriptor.of_mem hd hf)
      · have hof := FieldDescriptor.of_mem hd hf
        have hholds := htakes.stored hf hs
        refine FieldDescriptor.exists_restores hholds (fields f hf hset).1 ?_ fun c hc => ?_
        · unfold FieldDescriptor.heldKind
          split
          · exact hp.namesApart_valueKind hof
          · exact hp.namesApart hof
        · obtain ⟨hcd, hconforms⟩ := hholds.contains hof hc
          exact ih c ⟨f, hf, s, hs, hc⟩ hcd hconforms
    · have hd' : m.descriptor.IsWrapper t := ⟨hwrapper, hwrappers _ hd.info_mem t hwrapper⟩
      exact backFromJson_wrapper hd' htakes fun hset => (fields _ hd'.mem hset).1

end Message

end Protoscript
