import Protoscript.Proofs.Merging
import Protoscript.Proofs.Reading

/-!
# Merging a message of another pool

Two pools may have message types of one name with different fields. Messages of such types can be
merged; only the numbers of fields are compared then, so the result may hold what its type does not
declare. Here is said when it does not.

* `Message.AsDeclared` — every field of a message, at every depth, holds what its type declares;
* `Message.Suits` — what a message holds may be laid over another one;
* `Message.asDeclared_merge` — a merged message is as declared if, and only if, what was laid over it
  suits it;
* `Operation.merge_asDeclared_iff` — so it is for the library's function.
-/

namespace Protoscript

/-! ## Fields as they are declared -/

mutual

/-- Whether a stored value is a single value of a type, as far as fields are declared. -/
inductive Kind.Admits : Kind → Stored → Prop
  | scalar {kind : Kind} {s : Scalar} (hs : kind.HoldsScalar s) : Kind.Admits kind (.scalar s)
  | message {d : MessageDescriptor} {m : Message} (hd : m.descriptor = d) (hm : m.AsDeclared) :
    Kind.Admits (.message d) (.message m)

/-- Whether a stored value is of the cardinality and type of a field. -/
inductive FieldDescriptor.Admits : FieldDescriptor → Stored → Prop
  | single {f : FieldDescriptor} {s : Stored} (hmap : f.isMap = false) (hlist : f.isList = false)
    (hs : f.kind.Admits s) : FieldDescriptor.Admits f s
  | list {f : FieldDescriptor} {items : List Stored} (hlist : f.isList = true)
    (hitems : ∀ s ∈ items, f.kind.Admits s) : FieldDescriptor.Admits f (.list items)
  | map {f : FieldDescriptor} {entries : List (MapKey × Stored)} (hmap : f.isMap = true)
    (hkeys : ∀ e ∈ entries, f.keyKind.HoldsKey e.1)
    (hvalues : ∀ e ∈ entries, f.valueKind.Admits e.2) : FieldDescriptor.Admits f (.map entries)

/-- Whether every declared field of a message, at every depth, holds a value of its type. Nothing is
said about oneofs and about numbers that are not declared. -/
inductive Message.AsDeclared : Message → Prop
  | mk {m : Message} (held : ∀ f ∈ m.descriptor.fields, ∀ s, m.stored? f = some s → f.Admits s) :
    m.AsDeclared

end

mutual

theorem Kind.Holds.admits : ∀ {kind : Kind} {s : Stored}, kind.Holds s → kind.Admits s
  | _, _, .scalar hs => .scalar hs
  | _, _, .message hd hm => .message hd (Message.Conforms.asDeclared hm)

theorem FieldDescriptor.Holds.admits : ∀ {f : FieldDescriptor} {s : Stored}, f.Holds s → f.Admits s
  | _, _, .single hmap hlist hs => .single hmap hlist (Kind.Holds.admits hs)
  | _, _, .list hlist hitems => .list hlist fun s hs => Kind.Holds.admits (hitems s hs)
  | _, _, .map hmap hkeys hvalues _ => .map hmap hkeys fun e he => Kind.Holds.admits (hvalues e he)

/-- A message that conforms to its type is as declared. -/
theorem Message.Conforms.asDeclared : ∀ {m : Message}, m.Conforms → m.AsDeclared
  | _, .mk _ _ held _ _ => .mk fun f hf s hs => FieldDescriptor.Holds.admits (held f hf s hs)

end

theorem Kind.Admits.not_list {kind : Kind} {items : List Stored} : ¬ kind.Admits (.list items) :=
  nofun

theorem Kind.Admits.not_map {kind : Kind} {entries : List (MapKey × Stored)} :
    ¬ kind.Admits (.map entries) :=
  nofun

namespace FieldDescriptor.Admits

variable {f : FieldDescriptor}

theorem items {items : List Stored} (h : f.Admits (.list items)) :
    f.isList = true ∧ ∀ s ∈ items, f.kind.Admits s := by
  cases h with
  | single _ _ hs => exact absurd hs Kind.Admits.not_list
  | list hlist hitems => exact ⟨hlist, hitems⟩

theorem entries {entries : List (MapKey × Stored)} (h : f.Admits (.map entries)) :
    f.isMap = true ∧ (∀ e ∈ entries, f.keyKind.HoldsKey e.1) ∧
      ∀ e ∈ entries, f.valueKind.Admits e.2 := by
  cases h with
  | single _ _ hs => exact absurd hs Kind.Admits.not_map
  | map hmap hkeys hvalues => exact ⟨hmap, hkeys, hvalues⟩

theorem message {m : Message} (h : f.Admits (.message m)) :
    f.isMap = false ∧ f.isList = false ∧ f.kind = .message m.descriptor ∧ m.AsDeclared := by
  cases h with
  | single hmap hlist hs =>
    generalize hk : f.kind = kind at hs
    cases hs with
    | message hd hm => exact ⟨hmap, hlist, hd ▸ rfl, hm⟩

end FieldDescriptor.Admits

/-! ## What one field is laid over -/

/-- Whether two stored values are both scalars, both messages, both lists, or both maps. -/
def Stored.sameShape : Stored → Stored → Bool
  | .scalar _, .scalar _ | .message _, .message _ | .list _, .list _ | .map _, .map _ => true
  | _, _ => false

mutual

/-- Whether what a message holds may be laid over another one: wherever both types declare a number,
the one accepts what the other holds. -/
inductive Message.Suits : Message → Message → Prop
  | mk {dst src : Message}
    (accepts : ∀ f ∈ src.descriptor.fields, src.has f = true → ∀ s, src.stored? f = some s →
      ∀ g ∈ dst.descriptor.fields, g.number = f.number → g.Accepts (dst.stored? g) s) :
    Message.Suits dst src

/-- Whether a field that holds something, or nothing, may have a value laid over it. -/
inductive FieldDescriptor.Accepts : FieldDescriptor → Option Stored → Stored → Prop
  /-- a scalar replaces what was there -/
  | scalar {g : FieldDescriptor} {old : Option Stored} {s : Scalar} (hs : g.Admits (.scalar s)) :
    FieldDescriptor.Accepts g old (.scalar s)
  /-- what was not set is taken over as it is -/
  | unset {g : FieldDescriptor} {s : Stored} (hs : g.Admits s) : FieldDescriptor.Accepts g none s
  | list {g : FieldDescriptor} {old items : List Stored} (hs : g.Admits (.list items)) :
    FieldDescriptor.Accepts g (some (.list old)) (.list items)
  | map {g : FieldDescriptor} {old entries : List (MapKey × Stored)} (hs : g.Admits (.map entries)) :
    FieldDescriptor.Accepts g (some (.map old)) (.map entries)
  /-- a message that is set is merged field by field -/
  | message {g : FieldDescriptor} {old m : Message} (hm : old.Suits m) :
    FieldDescriptor.Accepts g (some (.message old)) (.message m)
  /-- what is of another shape stays -/
  | kept {g : FieldDescriptor} {old s : Stored} (hshape : old.sameShape s = false)
    (hscalar : ∀ x, s ≠ .scalar x) : FieldDescriptor.Accepts g (some old) s

end

/-! ## One field -/

theorem mem_insertKey_self (key : MapKey) (value : Stored) (entries : List (MapKey × Stored)) :
    (key, value) ∈ insertKey key value entries := by
  induction entries with
  | nil => exact .head _
  | cons e rest ih =>
    unfold insertKey
    split
    · exact .head _
    · split
      · exact .tail _ ih
      · exact .head _

theorem mem_insertKey_of_ne {key : MapKey} {value : Stored} {entries : List (MapKey × Stored)}
    {e : MapKey × Stored} (he : e ∈ entries) (hne : e.1 ≠ key) : e ∈ insertKey key value entries := by
  induction entries with
  | nil => cases he
  | cons x rest ih =>
    unfold insertKey
    split
    · rename_i hx
      rcases List.mem_cons.1 he with rfl | he
      · exact absurd hx hne
      · exact .tail _ he
    · split
      · rcases List.mem_cons.1 he with rfl | he
        · exact .head _
        · exact .tail _ (ih he)
      · exact .tail _ he

/-- Putting entries into a map one by one: what is there then was there or was put there. -/
theorem mem_overlay {entries old : List (MapKey × Stored)} {e : MapKey × Stored}
    (he : e ∈ entries.foldl (fun es e => insertKey e.1 e.2 es) old) : e ∈ old ∨ e ∈ entries := by
  induction entries generalizing old with
  | nil => exact .inl he
  | cons x rest ih =>
    rcases ih he with he | he
    · rcases mem_insertKey he with rfl | he
      · exact .inr (.head _)
      · exact .inl he
    · exact .inr (.tail _ he)

/-- Entries with keys of their own that are put into a map are all there then. -/
theorem mem_overlay_of_mem {entries old : List (MapKey × Stored)} {e : MapKey × Stored}
    (hnodup : (entries.map (·.1)).Nodup) (he : e ∈ entries) :
    e ∈ entries.foldl (fun es e => insertKey e.1 e.2 es) old := by
  -- what was put first stays, as no later key is the same
  have stays {entries old : List (MapKey × Stored)} (he : e ∈ old)
      (hne : ∀ x ∈ entries, e.1 ≠ x.1) :
      e ∈ entries.foldl (fun es e => insertKey e.1 e.2 es) old := by
    induction entries generalizing old with
    | nil => exact he
    | cons x rest ih =>
      exact ih (mem_insertKey_of_ne he (hne x (.head _))) fun y hy => hne y (.tail _ hy)
  induction entries generalizing old with
  | nil => cases he
  | cons x rest ih =>
    obtain ⟨hx, hrest⟩ := List.nodup_cons.1 hnodup
    rcases List.mem_cons.1 he with rfl | he
    · have hput : e ∈ insertKey e.1 e.2 old := mem_insertKey_self e.1 e.2 old
      rw [List.foldl_cons]
      exact stays hput fun y hy heq => hx (List.mem_map.2 ⟨y, hy, heq.symm⟩)
    · exact ih hrest he

namespace FieldDescriptor

variable {f g : FieldDescriptor}

theorem admits_extend_iff {old items : List Stored} (hold : ∀ s ∈ old, g.kind.Admits s) :
    g.Admits (.list (old ++ items)) ↔ g.Admits (.list items) := by
  constructor
  · intro h
    exact .list h.items.1 fun s hs => h.items.2 s (List.mem_append_right _ hs)
  · intro h
    refine .list h.items.1 fun s hs => ?_
    rcases List.mem_append.1 hs with hs | hs
    · exact hold s hs
    · exact h.items.2 s hs

theorem admits_overlay_iff {old entries : List (MapKey × Stored)}
    (hkeys : ∀ e ∈ old, g.keyKind.HoldsKey e.1) (hvalues : ∀ e ∈ old, g.valueKind.Admits e.2)
    (hnodup : (entries.map (·.1)).Nodup) :
    g.Admits (.map (entries.foldl (fun es e => insertKey e.1 e.2 es) old)) ↔
      g.Admits (.map entries) := by
  constructor
  · intro h
    obtain ⟨hmap, hk, hv⟩ := h.entries
    exact .map hmap (fun e he => hk e (mem_overlay_of_mem hnodup he))
      fun e he => hv e (mem_overlay_of_mem hnodup he)
  · intro h
    obtain ⟨hmap, hk, hv⟩ := h.entries
    refine .map hmap (fun e he => ?_) fun e he => ?_
    · exact (mem_overlay he).elim (hkeys e) (hk e)
    · exact (mem_overlay he).elim (hvalues e) (hv e)

end FieldDescriptor

namespace FieldDescriptor

variable {g : FieldDescriptor}

theorem accepts_none_iff {s : Stored} : g.Accepts none s ↔ g.Admits s := by
  refine ⟨fun h => ?_, .unset⟩
  cases h with
  | scalar hs | unset hs => exact hs

theorem accepts_scalar_iff {old : Option Stored} {x : Scalar} :
    g.Accepts old (.scalar x) ↔ g.Admits (.scalar x) := by
  refine ⟨fun h => ?_, .scalar⟩
  cases h with
  | scalar hs | unset hs => exact hs
  | kept _ hscalar => exact absurd rfl (hscalar x)

theorem accepts_list_iff {old items : List Stored} :
    g.Accepts (some (.list old)) (.list items) ↔ g.Admits (.list items) := by
  refine ⟨fun h => ?_, .list⟩
  cases h with
  | list hs => exact hs
  | kept hshape => cases hshape

theorem accepts_map_iff {old entries : List (MapKey × Stored)} :
    g.Accepts (some (.map old)) (.map entries) ↔ g.Admits (.map entries) := by
  refine ⟨fun h => ?_, .map⟩
  cases h with
  | map hs => exact hs
  | kept hshape => cases hshape

theorem accepts_message_iff {old m : Message} :
    g.Accepts (some (.message old)) (.message m) ↔ old.Suits m := by
  refine ⟨fun h => ?_, .message⟩
  cases h with
  | message hm => exact hm
  | kept hshape => cases hshape

end FieldDescriptor

namespace Message

variable {m dst src : Message} {f g : FieldDescriptor} {s : Stored}

/-- A message with one field of another one laid over it. -/
def lay (m : Message) (f : FieldDescriptor) : Stored → Message
  | .message child =>
    if f.isMap || f.isList then m.select f
    else if !m.has f then m.set f (.message child)
    else
      match m.get f with
      | .message old => m.set f (.message (old.merge child))
      | _ => m.select f
  | s => if f.isMap then m.overlay f s else if f.isList then m.extend f s else m.set f s

/-- Merging lays one field after the other over a message. -/
theorem merge_eq (dst src : Message) : dst.merge src =
    src.descriptor.fields.foldl
      (fun m f => if src.has f then (src.stored? f).elim m (m.lay f) else m) dst := by
  rw [merge]
  congr 1
  funext m f
  by_cases hset : src.has f = true
  · rw [if_pos hset, if_neg (by simp [hset])]
    split
    · rename_i hnone
      rw [hnone]
      rfl
    · rename_i child hchild
      rw [hchild]
      rfl
    · rename_i value hno hvalue
      rw [hvalue]
      cases value with
      | message child => exact absurd rfl (hno child)
      | scalar | list | map => rfl
  · rw [if_neg hset, if_pos (by simpa using hset)]

/-- Laying a field over a message selects it, and writes it at most. -/
theorem lay_cases (m : Message) (f : FieldDescriptor) (s : Stored) :
    m.lay f s = m.select f ∨ ∃ t, m.lay f s = m.set f t := by
  have hoverlay (s : Stored) : m.overlay f s = m.select f ∨ ∃ t, m.overlay f s = m.set f t := by
    unfold overlay
    split
    · exact .inr ⟨_, rfl⟩
    · exact .inl rfl
  have hextend (s : Stored) : m.extend f s = m.select f ∨ ∃ t, m.extend f s = m.set f t := by
    unfold extend
    split
    · exact .inr ⟨_, rfl⟩
    · exact .inl rfl
  unfold lay
  split
  · split
    · exact .inl rfl
    · split
      · exact .inr ⟨_, rfl⟩
      · split
        · exact .inr ⟨_, rfl⟩
        · exact .inl rfl
  · split
    · exact hoverlay _
    · split
      · exact hextend _
      · exact .inr ⟨_, rfl⟩

theorem descriptor_lay (m : Message) (f : FieldDescriptor) (s : Stored) :
    (m.lay f s).descriptor = m.descriptor := by
  rcases m.lay_cases f s with he | ⟨t, he⟩ <;> rw [he]
  · exact descriptor_select m f
  · exact descriptor_set m f t

/-- A field of another number is left alone, or unset. -/
theorem stored?_lay_of_ne (hne : g.number ≠ f.number) :
    (m.lay f s).stored? g = (m.select f).stored? g := by
  rcases m.lay_cases f s with he | ⟨t, he⟩ <;> rw [he]
  exact stored?_set_of_ne m hne t

theorem stored?_select_eq (m : Message) (f g : FieldDescriptor) :
    (m.select f).stored? g = none ∨ (m.select f).stored? g = m.stored? g := by
  refine List.foldl_keeps (P := fun n : Message => n.stored? g = none ∨ n.stored? g = m.stored? g)
    (fun n k _ hn => ?_) (.inr rfl)
  by_cases hnumber : g.number = k.number
  · exact .inl (stored?_clear_self n hnumber)
  · rwa [stored?_clear_of_ne n hnumber]

/-- A field of a message type that holds anything is set. -/
theorem has_of_message {d : MessageDescriptor} {t : Stored} (hmap : f.isMap = false)
    (hlist : f.isList = false) (hkind : f.kind = .message d) (ht : m.stored? f = some t) :
    m.has f = true := by
  have hdefault : t.isDefaultOf f = false := by
    cases t with
    | message => rfl
    | list => simp [Stored.isDefaultOf, hlist]
    | map => simp [Stored.isDefaultOf, hmap]
    | scalar x =>
      rcases hx : f.defaultScalar? with _ | y
      · simp [Stored.isDefaultOf, hx]
      · have hy := FieldDescriptor.holds_default hx
        rw [hkind] at hy
        exact absurd hy id
  rw [has_of_some ht, hdefault]
  exact Bool.or_true _

/-- What is written to a field is what the field holds. -/
theorem admits_set_iff (hnumber : g.number = f.number) (t : Stored) :
    (∀ x, (m.set f t).stored? g = some x → g.Admits x) ↔ g.Admits t := by
  rw [stored?_set_self m hnumber]
  exact ⟨fun h => h t rfl, fun h x hx => Option.some.inj hx ▸ h⟩

/-- Unsetting the other members of a oneof leaves the field itself. -/
theorem stored?_select_self (hnumber : g.number = f.number) :
    (m.select f).stored? g = m.stored? g :=
  stored?_foldl_clear_of_ne m fun k hk he =>
    (FieldDescriptor.rivals_iff.1 (show f.Rivals k from hk)).2.2.2 (he.symm.trans hnumber)

section

variable (hnumber : g.number = f.number) (hold : ∀ t, m.stored? g = some t → g.Admits t)

include hnumber hold

/-- What is of another shape stays. -/
theorem admits_select_iff {old : Stored} (hshape : old.sameShape s = false)
    (hscalar : ∀ x, s ≠ .scalar x) :
    (∀ x, (m.select f).stored? g = some x → g.Admits x) ↔ g.Accepts (some old) s :=
  ⟨fun _ => .kept hshape hscalar, fun _ x hx => hold x (stored?_select_self hnumber ▸ hx)⟩

/-- A list is appended to one that is held. -/
theorem admits_lay_list_iff {items : List Stored} (hlist : f.isList = true) :
    (∀ t, (m.lay f (.list items)).stored? g = some t → g.Admits t) ↔
      g.Accepts (m.stored? g) (.list items) := by
  have hmap := FieldDescriptor.isMap_of_isList hlist
  have hlay : m.lay f (.list items) = m.extend f (.list items) := by
    simp only [lay, hmap, hlist, Bool.false_eq_true, if_false, if_true]
  rw [hlay]
  unfold extend
  rcases hstored : m.stored? g with _ | old
  · rw [get_of_none ((stored?_congr hnumber m).symm.trans hstored), Stored.defaultOf_list hlist,
      FieldDescriptor.accepts_none_iff]
    exact admits_set_iff hnumber _
  · rw [get_of_stored? hnumber hstored]
    cases old with
    | list old =>
      rw [FieldDescriptor.accepts_list_iff,
        ← FieldDescriptor.admits_extend_iff (hold _ hstored).items.2]
      exact admits_set_iff hnumber _
    | scalar | message | map =>
      exact admits_select_iff hnumber hold rfl fun _ hs => Stored.noConfusion hs

/-- A map is laid over one that is held. -/
theorem admits_lay_map_iff {entries : List (MapKey × Stored)} (hmap : f.isMap = true)
    (hnodup : (entries.map (·.1)).Nodup) :
    (∀ t, (m.lay f (.map entries)).stored? g = some t → g.Admits t) ↔
      g.Accepts (m.stored? g) (.map entries) := by
  have hlay : m.lay f (.map entries) = m.overlay f (.map entries) := by
    simp only [lay, hmap, if_true]
  rw [hlay]
  unfold overlay
  rcases hstored : m.stored? g with _ | old
  · rw [get_of_none ((stored?_congr hnumber m).symm.trans hstored), Stored.defaultOf_map hmap,
      FieldDescriptor.accepts_none_iff, ← FieldDescriptor.admits_overlay_iff
        (List.forall_mem_nil _) (List.forall_mem_nil _) hnodup]
    exact admits_set_iff hnumber _
  · rw [get_of_stored? hnumber hstored]
    cases old with
    | map old =>
      obtain ⟨-, hk, hv⟩ := (hold _ hstored).entries
      rw [FieldDescriptor.accepts_map_iff, ← FieldDescriptor.admits_overlay_iff hk hv hnodup]
      exact admits_set_iff hnumber _
    | scalar | message | list =>
      exact admits_select_iff hnumber hold rfl fun _ hs => Stored.noConfusion hs

/-- A message is merged into one that is held. -/
theorem admits_lay_message_iff {child : Message} {d : MessageDescriptor} (hmap : f.isMap = false)
    (hlist : f.isList = false) (hkind : f.kind = .message d)
    (ih : ∀ old : Message, old.AsDeclared → (old.merge child).descriptor = old.descriptor ∧
      ((old.merge child).AsDeclared ↔ old.Suits child)) :
    (∀ t, (m.lay f (.message child)).stored? g = some t → g.Admits t) ↔
      g.Accepts (m.stored? g) (.message child) := by
  have hf : m.stored? f = m.stored? g := (stored?_congr hnumber m).symm
  have hlay : m.lay f (.message child) =
      if !m.has f then m.set f (.message child)
      else
        match m.get f with
        | .message old => m.set f (.message (old.merge child))
        | _ => m.select f := by
    simp only [lay, hmap, hlist, Bool.or_self, Bool.false_eq_true, if_false]
  rw [hlay]
  rcases hstored : m.stored? g with _ | old
  · have hunset : m.has f = false := by simp only [has, hf, hstored]
    rw [hunset, FieldDescriptor.accepts_none_iff]
    exact admits_set_iff hnumber _
  · rw [has_of_message hmap hlist hkind (hf.trans hstored), get_of_stored? hnumber hstored]
    cases old with
    | message old =>
      obtain ⟨hgmap, hglist, hgkind, hdeclared⟩ := (hold _ hstored).message
      obtain ⟨hdescriptor, hiff⟩ := ih old hdeclared
      rw [FieldDescriptor.accepts_message_iff, ← hiff]
      refine (admits_set_iff hnumber _).trans ⟨fun h => h.message.2.2.2, fun h => ?_⟩
      exact .single hgmap hglist (hgkind ▸ .message hdescriptor h)
    | scalar | list | map =>
      exact admits_select_iff hnumber hold rfl fun _ hs => Stored.noConfusion hs

/-- **One field.** What a field holds after another one was laid over it is as declared if, and only
if, it accepted that. What is said of messages inside is known by induction. -/
theorem admits_lay_iff (hs : f.Holds s)
    (ih : ∀ old child : Message, s = .message child → old.AsDeclared →
      (old.merge child).descriptor = old.descriptor ∧
        ((old.merge child).AsDeclared ↔ old.Suits child)) :
    (∀ t, (m.lay f s).stored? g = some t → g.Admits t) ↔ g.Accepts (m.stored? g) s := by
  -- by the shape of the field: lists and maps are joined, messages merged
  cases hs with
  | list hlist => exact admits_lay_list_iff hnumber hold hlist
  | map hmap _ _ hsorted =>
    exact admits_lay_map_iff hnumber hold hmap (hsorted.imp fun hbefore => hbefore.2)
  | single hmap hlist hs =>
    rcases s with x | child | items | entries
    · have hlay : m.lay f (.scalar x) = m.set f (.scalar x) := by
        simp only [lay, hmap, hlist, Bool.false_eq_true, if_false]
      rw [hlay, FieldDescriptor.accepts_scalar_iff]
      exact admits_set_iff hnumber _
    · obtain ⟨d, hkind⟩ : ∃ d, f.kind = .message d := by
        generalize f.kind = kind at hs
        cases hs with
        | message => exact ⟨_, rfl⟩
      exact admits_lay_message_iff hnumber hold hmap hlist hkind fun old => ih old child rfl
    · exact absurd hs Kind.Holds.not_list
    · exact absurd hs Kind.Holds.not_map

end

/-! ## All fields -/

/-- Laying one of the set fields of a message over another one, as merging does. -/
def mergeField (src m : Message) (f : FieldDescriptor) : Message :=
  if src.has f then (src.stored? f).elim m (m.lay f) else m

theorem mergeField_of_set (hset : src.has f = true) (hs : src.stored? f = some s) :
    src.mergeField m f = m.lay f s := by
  rw [mergeField, if_pos hset, hs]
  rfl

theorem mergeField_cases (src m : Message) (f : FieldDescriptor) :
    src.mergeField m f = m ∨ src.has f = true ∧ ∃ s, src.mergeField m f = m.lay f s := by
  by_cases hset : src.has f = true
  · rcases hs : src.stored? f with _ | s
    · left
      rw [mergeField, if_pos hset, hs]
      rfl
    · exact .inr ⟨hset, s, mergeField_of_set hset hs⟩
  · exact .inl (if_neg hset)

@[simp] theorem descriptor_merge (dst src : Message) : (dst.merge src).descriptor = dst.descriptor := by
  rw [merge_eq]
  refine List.foldl_keeps (P := fun m : Message => m.descriptor = dst.descriptor) (fun m f _ hm => ?_) rfl
  rcases src.mergeField_cases m f with he | ⟨-, s, he⟩
  · exact (congrArg descriptor he).trans hm
  · exact (congrArg descriptor he).trans ((descriptor_lay m f s).trans hm)

/-- What is not set in the message that is merged in is left alone, or unset. -/
theorem stored?_merge_of_not_set (dst : Message)
    (hunset : ∀ f ∈ src.descriptor.fields, src.has f = true → f.number ≠ g.number) :
    (dst.merge src).stored? g = none ∨ (dst.merge src).stored? g = dst.stored? g := by
  rw [merge_eq]
  refine List.foldl_keeps (P := fun m : Message => m.stored? g = none ∨ m.stored? g = dst.stored? g)
    (fun m f hf hm => ?_) (.inr rfl)
  change (src.mergeField m f).stored? g = none ∨ (src.mergeField m f).stored? g = dst.stored? g
  rcases src.mergeField_cases m f with he | ⟨hset, s, he⟩
  · rwa [he]
  · rw [he, stored?_lay_of_ne (hunset f hf hset).symm]
    rcases m.stored?_select_eq f g with hnone | hsame
    · exact .inl hnone
    · rwa [hsame]

/-- A set field of a message that conforms is in no oneof with another set field, so merging any other
field leaves it alone. -/
theorem stored?_mergeField_of_ne (hsrc : src.Conforms) (hset : src.has f = true)
    (hg : g ∈ src.descriptor.fields) (hne : g.number ≠ f.number) :
    (src.mergeField m g).stored? f = m.stored? f := by
  rcases src.mergeField_cases m g with he | ⟨hset', s, he⟩
  · rw [he]
  · rw [he, stored?_lay_of_ne hne.symm]
    refine stored?_foldl_clear_of_ne m fun k hk hnumber => ?_
    cases hsrc with
    | mk _ _ _ single _ =>
      have hnone := single g hg (isSome_of_has hset') k hk
      have hsome := isSome_of_has hset
      rw [stored?_congr hnumber, hnone] at hsome
      cases hsome

/-- What is set in the message that is merged in is laid over what was there. -/
theorem stored?_merge_of_set (dst : Message) (hsrc : src.Conforms) (hf : f ∈ src.descriptor.fields)
    (hset : src.has f = true) (hs : src.stored? f = some s) :
    ∃ m : Message, m.stored? f = dst.stored? f ∧ (dst.merge src).stored? f = (m.lay f s).stored? f := by
  obtain ⟨before, after, hfields⟩ := List.append_of_mem hf
  have hnodup : (src.descriptor.fields.map (·.number)).Nodup := by
    have h := src.descriptor.info.nodup_numbers
    unfold MessageDescriptor.fields
    rwa [List.map_map]
  rw [hfields, List.map_append, List.map_cons, List.nodup_append] at hnodup
  obtain ⟨-, hafter, hbefore⟩ := hnodup
  have keeps {rest : List FieldDescriptor} (hrest : ∀ g ∈ rest, g ∈ src.descriptor.fields)
      (hne : ∀ g ∈ rest, g.number ≠ f.number) (m : Message) :
      (rest.foldl src.mergeField m).stored? f = m.stored? f :=
    List.foldl_keeps (P := fun n : Message => n.stored? f = m.stored? f)
      (fun n g hg hn => (stored?_mergeField_of_ne hsrc hset (hrest g hg) (hne g hg)).trans hn) rfl
  refine ⟨before.foldl src.mergeField dst, ?_, ?_⟩
  · refine keeps (fun g hg => ?_) (fun g hg => ?_) dst
    · rw [hfields]
      exact List.mem_append_left _ hg
    · exact hbefore _ (List.mem_map_of_mem hg) _ (.head _)
  · have hmerge : dst.merge src = (before ++ f :: after).foldl src.mergeField dst := by
      rw [merge_eq, hfields]
      rfl
    rw [hmerge, List.foldl_append, List.foldl_cons, mergeField_of_set hset hs]
    refine keeps (fun g hg => ?_) (fun g hg he => ?_) _
    · rw [hfields]
      exact List.mem_append_right _ (.tail _ hg)
    · exact (List.nodup_cons.1 hafter).1 (he ▸ List.mem_map_of_mem hg)

/-- **A merged message is as declared** if, and only if, what was laid over it suits it. The induction
is on the message that is merged in: a message inside of it is merged into a message that is set. -/
theorem asDeclared_merge {dst src : Message} (hdst : dst.AsDeclared) (hsrc : src.Conforms) :
    (dst.merge src).AsDeclared ↔ dst.Suits src := by
  have hold : ∀ g ∈ dst.descriptor.fields, ∀ t, dst.stored? g = some t → g.Admits t := by
    cases hdst with
    | mk held => exact held
  have hheld : ∀ f ∈ src.descriptor.fields, ∀ s, src.stored? f = some s → f.Holds s := by
    cases hsrc with
    | mk _ _ held _ _ => exact held
  -- what was said of one field, with the induction hypothesis in
  have field {f g : FieldDescriptor} {s : Stored} (hf : f ∈ src.descriptor.fields)
      (hset : src.has f = true) (hs : src.stored? f = some s) (hg : g ∈ dst.descriptor.fields)
      (hnumber : g.number = f.number) :
      (∀ t, (dst.merge src).stored? g = some t → g.Admits t) ↔ g.Accepts (dst.stored? g) s := by
    obtain ⟨m, hm, hmerged⟩ := stored?_merge_of_set dst hsrc hf hset hs
    rw [← stored?_congr hnumber, ← stored?_congr hnumber] at hm hmerged
    rw [hmerged, ← hm]
    refine admits_lay_iff hnumber (hm ▸ hold g hg) (hheld f hf s hs) fun old child hchild hdeclared => ?_
    subst hchild
    have hlt : sizeOf child < sizeOf src := by
      have := sizeOf_stored?_lt hs
      simp only [Stored.message.sizeOf_spec] at this
      omega
    have hconforms : child.Conforms := by
      have hholds := hheld f hf _ hs
      cases hholds with
      | single _ _ hk =>
        generalize f.kind = kind at hk
        cases hk with
        | message _ hm => exact hm
    exact ⟨descriptor_merge old child, asDeclared_merge hdeclared hconforms⟩
  constructor
  · intro hmerged
    refine .mk fun f hf hset s hs g hg hnumber => (field hf hset hs hg hnumber).1 fun t ht => ?_
    cases hmerged with
    | mk held => exact held g ((descriptor_merge dst src).symm ▸ hg) t ht
  · intro hsuits
    refine .mk fun g hg t ht => ?_
    rw [descriptor_merge] at hg
    by_cases hset : ∃ f ∈ src.descriptor.fields, src.has f = true ∧ f.number = g.number
    · obtain ⟨f, hf, hset, hnumber⟩ := hset
      obtain ⟨s, hs⟩ := Option.isSome_iff_exists.1 (isSome_of_has hset)
      cases hsuits with
      | mk accepts =>
        exact (field hf hset hs hg hnumber.symm).2 (accepts f hf hset s hs g hg hnumber.symm) t ht
    · rcases stored?_merge_of_not_set (g := g) dst
        fun f hf hset' he => hset ⟨f, hf, hset', he⟩ with hnone | hsame
      · rw [hnone] at ht
        cases ht
      · exact hold g hg t (hsame ▸ ht)
termination_by sizeOf src
decreasing_by
  exact hlt

end Message

/-- The message type of a field is of the field's pool. -/
theorem FieldDescriptor.kind_message_pool {f : FieldDescriptor} {d : MessageDescriptor}
    (hkind : f.kind = .message d) : d.pool = f.message.pool := by
  unfold FieldDescriptor.kind at hkind
  split at hkind
  · cases hkind
  · cases hkind
    rfl
  · cases hkind

/-- A message of the same type always suits. -/
theorem MessageDescriptor.Takes.suits {d : MessageDescriptor} {dst src : Message} (hdst : d.Takes dst)
    (hsrc : d.Takes src) : dst.Suits src :=
  (Message.asDeclared_merge hdst.conforms.asDeclared hsrc.conforms).1
    (Message.takes_merge hdst hsrc).conforms.asDeclared

/-- A message of another pool that would be taken over as a whole never suits. -/
theorem Message.not_suits_of_foreign {dst src child : Message} {f g : FieldDescriptor}
    (hf : f ∈ src.descriptor.fields) (hset : src.has f = true)
    (hchild : src.stored? f = some (.message child)) (hg : g ∈ dst.descriptor.fields)
    (hnumber : g.number = f.number) (hunset : dst.stored? g = none)
    (hpool : child.descriptor.pool ≠ dst.descriptor.pool) : ¬ dst.Suits src := by
  intro hsuits
  cases hsuits with
  | mk accepts =>
    have haccepts := accepts f hf hset _ hchild g hg hnumber
    rw [hunset, FieldDescriptor.accepts_none_iff] at haccepts
    obtain ⟨-, -, hkind, -⟩ := haccepts.message
    obtain ⟨hmessage, -⟩ := MessageDescriptor.mem_fields.1 hg
    have hfield := (FieldDescriptor.kind_message_pool hkind).trans (congrArg _ hmessage)
    exact hpool hfield

/-! ## The function of the library -/

variable {h : Heap}

/-- Merging messages of one name overwrites the destination, unless it is frozen. -/
theorem Script.run_mergeMessage {dst src : Ref .message} {m n : Message}
    (hm : h.contents dst = .ok m) (hn : h.contents src = .ok n)
    (hfrozen : (h.cell dst).frozen = false) (hname : h.fullName dst = h.fullName src) :
    (mergeMessage dst src).run h =
      (.ok (), h.put dst { h.cell dst with content := m.merge n, views := [] }) := by
  have hsame : (h.fullName dst != h.fullName src) = false := by simp [hname]
  simp only [mergeMessage, run_bind, run_cell, hfrozen, checkMutable, run_pure, run_get, hsame,
    Bool.false_eq_true, if_false, contents, run_reading, hm, hn, replace]
  rfl

/-- Merging fails and does nothing, or overwrites the destination. -/
theorem Script.run_mergeMessage_cases (h : Heap) (dst src : Ref .message) :
    (∃ e, (mergeMessage dst src).run h = (.error e, h)) ∨
      ∃ m n, h.contents dst = .ok m ∧ h.contents src = .ok n ∧
        (mergeMessage dst src).run h =
          (.ok (), h.put dst { h.cell dst with content := m.merge n, views := [] }) := by
  rcases hfrozen : (h.cell dst).frozen with _ | _
  · by_cases hname : h.fullName dst = h.fullName src
    · have hsame : (h.fullName dst != h.fullName src) = false := by simp [hname]
      rcases hn : h.contents src with e | n
      · refine .inl ⟨e, ?_⟩
        simp only [mergeMessage, run_bind, run_cell, hfrozen, checkMutable, run_pure, run_get, hsame,
          Bool.false_eq_true, if_false, contents, run_reading, hn]
      · rcases hm : h.contents dst with e | m
        · refine .inl ⟨e, ?_⟩
          simp only [mergeMessage, run_bind, run_cell, hfrozen, checkMutable, run_pure, run_get, hsame,
            Bool.false_eq_true, if_false, contents, run_reading, hn, hm]
        · exact .inr ⟨m, n, rfl, rfl, run_mergeMessage hm hn hfrozen hname⟩
    · refine .inl ⟨.mergeMismatch (h.fullName dst) (h.fullName src), ?_⟩
      have hdiffer : (h.fullName dst != h.fullName src) = true := by simp [hname]
      simp only [mergeMessage, run_bind, run_cell, hfrozen, checkMutable, run_pure, run_get, hdiffer,
        if_true, Bool.false_eq_true, if_false]
      rfl
  · refine .inl ⟨.frozen "merge into" "message", ?_⟩
    simp only [mergeMessage, run_bind, run_cell, hfrozen, checkMutable, if_true]
    rfl

theorem Operation.run_merge (l : Library) (dst src : Ref .message) (h : Heap) :
    (Operation.call (.callable (.function l .merge)) [.message dst, .message src] []).run h =
      (Script.mergeMessage dst src >>= fun _ => pure (Value.message dst)).run h :=
  rfl

/-- **Merging across pools.** The function either fails and leaves the heap as it was, or leaves the
destination with what the source holds laid over what it held; then its fields are as declared, at
every depth, if and only if that suited it. -/
theorem Operation.merge_asDeclared_iff {l : Library} {dst src : Ref .message}
    (hdst : h.Has ⟨.message, dst⟩) (hdeclared : ∀ m, h.contents dst = .ok m → m.AsDeclared)
    (hconforms : ∀ n, h.contents src = .ok n → n.Conforms) :
    let merge := Operation.call (.callable (.function l .merge)) [.message dst, .message src] []
    (∃ e, merge.run h = (.error e, h)) ∨
      ∃ h' m n, h.contents dst = .ok m ∧ h.contents src = .ok n ∧
        merge.run h = (.ok (.message dst), h') ∧ h'.contents dst = .ok (m.merge n) ∧
        ((m.merge n).AsDeclared ↔ m.Suits n) := by
  intro merge
  have hrun : merge.run h = _ := run_merge l dst src h
  rw [hrun, Script.run_bind]
  -- the merge fails before it changes anything, or writes the merged contents
  rcases Script.run_mergeMessage_cases h dst src with ⟨e, he⟩ | ⟨m, n, hm, hn, hok⟩
  · rw [he]
    exact .inl ⟨e, rfl⟩
  · rw [hok]
    refine .inr ⟨_, m, n, hm, hn, rfl, ?_, Message.asDeclared_merge (hdeclared m hm) (hconforms n hn)⟩
    have hcell := Heap.cell_put_self h dst { h.cell dst with content := m.merge n, views := [] } hdst
    rw [Heap.contents_of_views_eq_nil (by rw [hcell]), hcell]

/-! ## Two types of one name -/

namespace Sample

/-- A pool in which a record has a list of texts. -/
def texts : Pool where
  id := 2
  messages := [{
    name := "Record"
    fullName := "Record"
    package := ""
    edition := .proto3
    parent := none
    isMapEntry := false
    fields := [field "items" 1 (.scalar .string) true none]
    nodup_numbers := by decide
    nodup_names := by decide }]
  enums := []
  nodup_names := by decide
  kinds_within := by decide

/-- A pool in which a record has a list of numbers, and one number more. -/
def numbers : Pool where
  id := 3
  messages := [{
    name := "Record"
    fullName := "Record"
    package := ""
    edition := .proto3
    parent := none
    isMapEntry := false
    fields := [field "items" 1 (.scalar .int32) true none, field "depth" 2 (.scalar .int32) false none]
    nodup_numbers := by decide
    nodup_names := by decide }]
  enums := []
  nodup_names := by decide
  kinds_within := by decide

def textRecord : MessageDescriptor := ⟨texts, 0⟩

def numberRecord : MessageDescriptor := ⟨numbers, 0⟩

/-- A record of texts without items, and a record of numbers. -/
def records (src : Message) : Heap where
  messages := #[{ content := .empty textRecord, config := {} }, { content := src, config := {} }]

/-- Laying the second record over the first one. -/
def mergeRecords : Operation Value :=
  .call (.callable (.function ⟨0, ⟨texts, {}⟩⟩ .merge)) [.message root, .message right] []

def numberItems : FieldDescriptor := ⟨numberRecord, field "items" 1 (.scalar .int32) true none⟩

def numberDepth : FieldDescriptor := ⟨numberRecord, field "depth" 2 (.scalar .int32) false none⟩

/-- A record with one number in its list. -/
def oneItem : Message := .mk numberRecord [(1, .list [.scalar (.i32 150)])] []

/-- A record without items, and with the other number. -/
def onlyDepth : Message := .mk numberRecord [(2, .scalar (.i32 5))] []

theorem conforms_oneItem : oneItem.Conforms := by
  refine (Message.Conforms.empty numberRecord).set (f := numberItems) (.head _)
    (.list rfl fun s hs => ?_)
  rw [List.mem_singleton.1 hs]
  exact .scalar rfl

theorem conforms_onlyDepth : onlyDepth.Conforms :=
  (Message.Conforms.empty numberRecord).set (f := numberDepth) (.tail _ (.head _))
    (.single rfl rfl (.scalar rfl))

theorem asDeclared_empty : (Message.empty textRecord).AsDeclared :=
  (Message.Conforms.empty textRecord).asDeclared

/-- Both records are given to the bridge from outside. -/
theorem reachable_records {src : Message} (hsrc : src.Conforms)
    (hdescriptor : src.descriptor = numberRecord) :
    Heap.Reachable {texts, numbers} (records src) := by
  have hfirst : (Operation.wrap ⟨texts, {}⟩ (.empty textRecord)).Within {texts, numbers} {} :=
    ⟨nofun, nofun, ⟨.inl rfl, by decide⟩, .empty textRecord⟩
  let h : Heap := ((Operation.wrap ⟨texts, {}⟩ (.empty textRecord)).run {}).2
  have hsecond : (Operation.wrap ⟨numbers, {}⟩ src).Within {texts, numbers} h := by
    refine ⟨nofun, nofun, ?_, hsrc⟩
    rw [hdescriptor]
    exact ⟨.inr rfl, by decide⟩
  have hrun : ((Operation.wrap ⟨numbers, {}⟩ src).run h).2 = records src := rfl
  rw [← hrun]
  exact (Relation.ReflTransGen.single (.operation _ hfirst)).tail (.operation _ hsecond)

theorem contents_textRecord (src : Message) : (records src).contents root = .ok (.empty textRecord) :=
  Heap.contents_of_views_eq_nil rfl

theorem contents_numberRecord (src : Message) : (records src).contents right = .ok src :=
  Heap.contents_of_views_eq_nil rfl

theorem run_mergeRecords (src : Message) (hdescriptor : src.descriptor = numberRecord) :
    mergeRecords.run (records src) = (.ok (.message root), (records src).put root
      { (records src).cell root with content := (Message.empty textRecord).merge src, views := [] }) := by
  have hname : (records src).fullName root = (records src).fullName right := by
    change textRecord.fullName = src.descriptor.fullName
    rw [hdescriptor]
    rfl
  have hmerge := Script.run_mergeMessage (contents_textRecord src) (contents_numberRecord src) rfl hname
  rw [mergeRecords, Operation.run_merge, Script.run_bind, hmerge]
  rfl

/-- A number that the record of texts does not declare is carried along. -/
theorem merge_onlyDepth_asDeclared :
    (records onlyDepth).Has ⟨.message, root⟩ ∧
      (∀ m, (records onlyDepth).contents root = .ok m → m.AsDeclared) ∧
      (∀ n, (records onlyDepth).contents right = .ok n → n.Conforms) ∧
      ∃ h' m, mergeRecords.run (records onlyDepth) = (.ok (.message root), h') ∧
        h'.contents root = .ok m ∧ m.AsDeclared := by
  have hroot : (records onlyDepth).Has ⟨.message, root⟩ := (by decide : 0 < 2)
  have hdeclared : ∀ m, (records onlyDepth).contents root = .ok m → m.AsDeclared := by
    intro m hm
    cases hm.symm.trans (contents_textRecord onlyDepth)
    exact asDeclared_empty
  have hconforms : ∀ n, (records onlyDepth).contents right = .ok n → n.Conforms := by
    intro n hn
    cases hn.symm.trans (contents_numberRecord onlyDepth)
    exact conforms_onlyDepth
  have hmerge := Operation.merge_asDeclared_iff (l := ⟨0, ⟨texts, {}⟩⟩) hroot hdeclared hconforms
  refine ⟨hroot, hdeclared, hconforms, ?_⟩
  -- the only number that both types declare is not set
  have hsuits : (Message.empty textRecord).Suits onlyDepth := by
    refine .mk fun f hf hset s hs g hg hnumber => ?_
    have hg : g.number = 1 := by
      rw [List.mem_singleton.1 hg]
      rfl
    have hnone : onlyDepth.stored? f = none := by
      rw [← Message.stored?_congr hnumber, Message.stored?, hg]
      rfl
    rw [hnone] at hs
    cases hs
  rcases hmerge with ⟨e, he⟩ | ⟨h', m, n, hm, hn, hrun, hcontents, hiff⟩
  · cases he.symm.trans (run_mergeRecords onlyDepth rfl)
  · cases hm.symm.trans (contents_textRecord onlyDepth)
    cases hn.symm.trans (contents_numberRecord onlyDepth)
    exact ⟨h', _, hrun, hcontents, hiff.2 hsuits⟩

/-- **A number ends up in a list of texts**, when a record of numbers is merged into a record of texts
of the same name. -/
theorem merge_oneItem_undeclared :
    Heap.Reachable {texts, numbers} (records oneItem) ∧
      (records oneItem).contents root = .ok (.empty textRecord) ∧
      (Message.empty textRecord).AsDeclared ∧
      ∃ h' m, mergeRecords.run (records oneItem) = (.ok (.message root), h') ∧
        h'.contents root = .ok m ∧ ¬ m.AsDeclared := by
  refine ⟨reachable_records conforms_oneItem rfl, contents_textRecord _, asDeclared_empty, ?_⟩
  refine ⟨_, _, run_mergeRecords oneItem rfl, Heap.contents_of_views_eq_nil rfl, fun hdeclared => ?_⟩
  have hsuits := (Message.asDeclared_merge asDeclared_empty conforms_oneItem).1 hdeclared
  cases hsuits with
  | mk accepts =>
    have haccepts := accepts numberItems (.head _) rfl _ rfl
      ⟨textRecord, field "items" 1 (.scalar .string) true none⟩ (.head _) rfl
    have hitem := (FieldDescriptor.accepts_none_iff.1 haccepts).items.2 _ (.head _)
    cases hitem with
    | scalar hs => cases hs

end Sample

end Protoscript
