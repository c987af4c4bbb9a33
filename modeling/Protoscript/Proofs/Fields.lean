import Protoscript.Message.Basic
import Mathlib.Data.List.Nodup

/-!
# What writing a field does to the others

* `FieldDescriptor.Rivals` — whether a field is another member of a field's oneof;
* `Message.stored?_set_self`, `Message.stored?_clear_self`, … — what every field holds after one was
  written;
* `Message.has_of_some`, `Message.get_of_stored?`, … — whether a field is set, and what it reads as, by
  what it holds;
* `MessageDescriptor.eq_of_number`, `MessageDescriptor.eq_of_name` — a field is given by its number,
  and by its name.
-/

namespace Protoscript

/-! ## Fields of one message -/

theorem MessageDescriptor.mem_fields {d : MessageDescriptor} {f : FieldDescriptor} :
    f ∈ d.fields ↔ f.message = d ∧ f.info ∈ d.info.fields := by
  unfold fields
  rw [List.mem_map]
  constructor
  · rintro ⟨info, hinfo, rfl⟩
    exact ⟨rfl, hinfo⟩
  · rintro ⟨rfl, hinfo⟩
    exact ⟨f.info, hinfo, rfl⟩

/-- A field is given by its number. -/
theorem MessageDescriptor.eq_of_number {d : MessageDescriptor} {f g : FieldDescriptor}
    (hf : f ∈ d.fields) (hg : g ∈ d.fields) (h : f.number = g.number) : f = g := by
  obtain ⟨rfl, hf⟩ := mem_fields.1 hf
  obtain ⟨hm, hg⟩ := mem_fields.1 hg
  have hinfo := List.inj_on_of_nodup_map f.message.info.nodup_numbers hf hg h
  cases f
  cases g
  simp_all

/-- A field is given by its name. -/
theorem MessageDescriptor.eq_of_name {d : MessageDescriptor} {f g : FieldDescriptor}
    (hf : f ∈ d.fields) (hg : g ∈ d.fields) (h : f.name = g.name) : f = g := by
  obtain ⟨rfl, hf⟩ := mem_fields.1 hf
  obtain ⟨hm, hg⟩ := mem_fields.1 hg
  have hinfo := List.inj_on_of_nodup_map f.message.info.nodup_names hf hg h
  cases f
  cases g
  simp_all

theorem MessageDescriptor.field?_eq_some {d : MessageDescriptor} {name : String}
    {f : FieldDescriptor} : d.field? name = some f ↔ f ∈ d.fields ∧ f.name = name := by
  unfold field?
  rw [Option.map_eq_some_iff]
  constructor
  · rintro ⟨info, hinfo, rfl⟩
    have hname := List.find?_some hinfo
    exact ⟨mem_fields.2 ⟨rfl, List.mem_of_find?_eq_some hinfo⟩, beq_iff_eq.1 hname⟩
  · rintro ⟨hf, hname⟩
    have hsome : (d.info.fields.find? fun g => g.name == name).isSome := by
      rw [List.find?_isSome]
      exact ⟨f.info, (mem_fields.1 hf).2, beq_iff_eq.2 hname⟩
    obtain ⟨info, hinfo⟩ := Option.isSome_iff_exists.1 hsome
    refine ⟨info, hinfo, ?_⟩
    refine eq_of_name (mem_fields.2 ⟨rfl, List.mem_of_find?_eq_some hinfo⟩) hf ?_
    have hfound := List.find?_some hinfo
    rw [hname]
    exact beq_iff_eq.1 hfound

/-! ## Oneofs -/

/-- Whether `g` is another member of the oneof of `f`, so that writing `f` unsets it. -/
def FieldDescriptor.Rivals (f g : FieldDescriptor) : Prop := g ∈ f.siblings

theorem FieldDescriptor.rivals_iff {f g : FieldDescriptor} :
    f.Rivals g ↔
      f.info.oneof.isSome ∧ g ∈ f.message.fields ∧ g.info.oneof = f.info.oneof ∧
        g.number ≠ f.number := by
  unfold Rivals siblings inOneof
  by_cases h : f.info.oneof.isSome
  · simp [h]
  · simp [h]

theorem FieldDescriptor.Rivals.symm {f g : FieldDescriptor} (hf : f ∈ f.message.fields)
    (h : f.Rivals g) : g.Rivals f := by
  rw [rivals_iff] at h ⊢
  obtain ⟨hone, hg, heq, hne⟩ := h
  have hm : g.message = f.message := (MessageDescriptor.mem_fields.1 hg).1
  exact ⟨heq ▸ hone, hm ▸ hf, heq.symm, hne.symm⟩

/-! ## Defaults -/

section

variable {f : FieldDescriptor}

theorem FieldDescriptor.isMap_of_isList (h : f.isList = true) : f.isMap = false := by
  unfold isList at h
  simp only [Bool.and_eq_true, Bool.not_eq_true'] at h
  exact h.2

/-- A map field is one of messages. -/
theorem FieldDescriptor.isMessage_of_isMap (hmap : f.isMap = true) :
    f.kind.isMessage = true := by
  have hentry := (Bool.and_eq_true_iff.1 hmap).2
  cases hk : f.kind with
  | message => rfl
  | scalar | enum =>
    rw [hk] at hentry
    cases hentry

theorem Stored.defaultOf_map (hmap : f.isMap = true) : Stored.defaultOf f = .map [] :=
  if_pos hmap

theorem Stored.defaultOf_list (hlist : f.isList = true) : Stored.defaultOf f = .list [] := by
  rw [defaultOf, FieldDescriptor.isMap_of_isList hlist, hlist]
  rfl

theorem Stored.defaultOf_single (hmap : f.isMap = false) (hlist : f.isList = false) :
    Stored.defaultOf f = singleDefault f := by
  rw [defaultOf, hmap, hlist]
  rfl

end

/-! ## What fields hold after a write -/

namespace Message

@[simp] theorem descriptor_empty (d : MessageDescriptor) : (empty d).descriptor = d := rfl

@[simp] theorem descriptor_clear (m : Message) (f : FieldDescriptor) :
    (m.clear f).descriptor = m.descriptor := rfl

theorem descriptor_foldl_clear (m : Message) (fs : List FieldDescriptor) :
    (fs.foldl clear m).descriptor = m.descriptor := by
  induction fs generalizing m with
  | nil => rfl
  | cons f rest ih => rw [List.foldl_cons, ih, descriptor_clear]

@[simp] theorem descriptor_select (m : Message) (f : FieldDescriptor) :
    (m.select f).descriptor = m.descriptor :=
  descriptor_foldl_clear m f.siblings

@[simp] theorem descriptor_set (m : Message) (f : FieldDescriptor) (s : Stored) :
    (m.set f s).descriptor = m.descriptor :=
  descriptor_select m f

@[simp] theorem stored?_empty (d : MessageDescriptor) (f : FieldDescriptor) :
    (empty d).stored? f = none := rfl

theorem stored?_clear_self (m : Message) {f g : FieldDescriptor} (h : g.number = f.number) :
    (m.clear f).stored? g = none := by
  unfold stored? clear
  rw [h, fields_mk, lookupNumber_eraseNumber_self]

theorem stored?_clear_of_ne (m : Message) {f g : FieldDescriptor} (h : g.number ≠ f.number) :
    (m.clear f).stored? g = m.stored? g := by
  unfold stored? clear
  rw [fields_mk, lookupNumber_eraseNumber_of_ne h]

theorem stored?_foldl_clear_of_mem (m : Message) {fs : List FieldDescriptor} {g : FieldDescriptor}
    (h : g ∈ fs ∨ m.stored? g = none) : (fs.foldl clear m).stored? g = none := by
  induction fs generalizing m with
  | nil =>
    rcases h with h | h
    · cases h
    · exact h
  | cons f rest ih =>
    rw [List.foldl_cons]
    apply ih
    by_cases hfg : g.number = f.number
    · exact .inr (stored?_clear_self m hfg)
    · rcases h with h | h
      · rcases List.mem_cons.1 h with rfl | h
        · exact absurd rfl hfg
        · exact .inl h
      · exact .inr ((stored?_clear_of_ne m hfg).trans h)

theorem stored?_foldl_clear_of_ne (m : Message) {fs : List FieldDescriptor} {g : FieldDescriptor}
    (h : ∀ f ∈ fs, g.number ≠ f.number) : (fs.foldl clear m).stored? g = m.stored? g := by
  induction fs generalizing m with
  | nil => rfl
  | cons f rest ih =>
    rw [List.foldl_cons, ih _ fun f' hf' => h f' (List.mem_cons_of_mem _ hf'),
      stored?_clear_of_ne m (h f List.mem_cons_self)]

theorem stored?_select_of_rivals (m : Message) {f g : FieldDescriptor} (h : f.Rivals g) :
    (m.select f).stored? g = none :=
  stored?_foldl_clear_of_mem m (.inl h)

theorem stored?_select_of_not_rivals (m : Message) {f g : FieldDescriptor}
    (hg : g ∈ f.message.fields) (h : ¬ f.Rivals g) : (m.select f).stored? g = m.stored? g := by
  refine stored?_foldl_clear_of_ne m fun f' hf' hnum => h ?_
  have hm : f' ∈ f.message.fields := (FieldDescriptor.rivals_iff.1 hf').2.1
  rw [MessageDescriptor.eq_of_number hg hm hnum]
  exact hf'

/-- A field that was written holds what was written. -/
theorem stored?_set_self (m : Message) {f g : FieldDescriptor} (h : g.number = f.number)
    (s : Stored) : (m.set f s).stored? g = some s := by
  unfold stored? set
  rw [h, fields_mk, lookupNumber_insertNumber_self]

theorem stored?_set_of_ne (m : Message) {f g : FieldDescriptor} (h : g.number ≠ f.number)
    (s : Stored) : (m.set f s).stored? g = (m.select f).stored? g := by
  unfold stored? set
  rw [fields_mk, lookupNumber_insertNumber_of_ne h]

/-- The other members of the oneof are unset. -/
theorem stored?_set_of_rivals (m : Message) {f g : FieldDescriptor} (h : f.Rivals g) (s : Stored) :
    (m.set f s).stored? g = none := by
  rw [stored?_set_of_ne m (FieldDescriptor.rivals_iff.1 h).2.2.2 s, stored?_select_of_rivals m h]

/-- All other fields hold what they held. -/
theorem stored?_set_of_not_rivals (m : Message) {f g : FieldDescriptor}
    (hg : g ∈ f.message.fields) (hne : g.number ≠ f.number) (h : ¬ f.Rivals g) (s : Stored) :
    (m.set f s).stored? g = m.stored? g := by
  rw [stored?_set_of_ne m hne s, stored?_select_of_not_rivals m hg h]

/-! ## Whether fields are set, and what they read as -/

section

variable {m n : Message} {f g : FieldDescriptor} {s : Stored}

theorem stored?_congr (hnumber : g.number = f.number) (m : Message) : m.stored? g = m.stored? f := by
  unfold stored?
  rw [hnumber]

theorem has_of_none (hs : m.stored? f = none) : m.has f = false := by
  unfold has
  rw [hs]

theorem has_of_some (hs : m.stored? f = some s) : m.has f = (f.hasPresence || !s.isDefaultOf f) := by
  unfold has
  rw [hs]

theorem has_congr (h : n.stored? f = m.stored? f) : n.has f = m.has f := by
  unfold has
  rw [h]

theorem isSome_of_has (h : m.has f = true) : (m.stored? f).isSome := by
  rcases hs : m.stored? f with _ | s
  · cases (has_of_none hs).symm.trans h
  · rfl

/-- What is held by a field that is not set is its default. -/
theorem isDefaultOf_of_not_has (hs : m.stored? f = some s) (hunset : m.has f = false) :
    s.isDefaultOf f = true := by
  rw [has_of_some hs, Bool.or_eq_false_iff, Bool.not_eq_false'] at hunset
  exact hunset.2

/-- A field with presence is set if something is stored for it. -/
theorem has_of_hasPresence (hf : f.hasPresence = true) : m.has f = (m.stored? f).isSome := by
  rcases hs : m.stored? f with _ | s
  · exact has_of_none hs
  · rw [has_of_some hs, hf]
    rfl

/-- A message that is stored counts as set. -/
theorem has_of_stored_message (hs : m.stored? f = some (.message n)) : m.has f = true := by
  rw [has_of_some hs]
  exact Bool.or_true _

theorem get_of_none (hs : m.stored? f = none) : m.get f = .defaultOf f := by
  rw [get, hs, Option.getD_none]

/-- What a field is read as, if a field of the same number is set. -/
theorem get_of_stored? (hnumber : g.number = f.number) (hs : m.stored? g = some s) : m.get f = s := by
  rw [get, ← stored?_congr hnumber m, hs, Option.getD_some]

theorem get_congr (h : n.stored? f = m.stored? f) : n.get f = m.get f := by
  unfold get
  rw [h]

end

end Message

end Protoscript
