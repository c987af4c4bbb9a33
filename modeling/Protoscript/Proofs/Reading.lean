import Protoscript.Proofs.Canonical
import Protoscript.Proofs.Preservation

/-!
# Reading a field changes no contents

What a field was read as is kept and written back when the contents of the message are computed. It
is written back as it was read, up to the canonical form, if no list or map belongs to a oneof: an
empty list that is written to a member of a oneof unsets the other members.

* `Pool.Lawful` — no list or map belongs to a oneof;
* `Heap.Reads.viewContents` — what a field was read as is written back as it was;
* `Heap.KeepsView.alike` — the contents of a message after a field was read.
-/

namespace Protoscript

/-! ## Oneofs -/

/-- Whether no list or map of a pool belongs to a oneof, as the language of schemas has it. -/
def Pool.Lawful (p : Pool) : Prop :=
  ∀ m ∈ p.messages, ∀ f ∈ m.fields, f.isRepeated = true → f.oneof = none

instance (p : Pool) : Decidable p.Lawful :=
  inferInstanceAs (Decidable (∀ m ∈ p.messages, ∀ f ∈ m.fields, f.isRepeated = true → f.oneof = none))

variable {p : Pool}

theorem MessageDescriptor.Among.info_mem {d : MessageDescriptor} (hd : d.Among {p}) :
    d.info ∈ p.messages := by
  obtain ⟨rfl, hdeclared⟩ := hd
  unfold info
  rw [List.getD_eq_getElem _ _ hdeclared]
  exact List.getElem_mem _

namespace FieldDescriptor

variable {f g : FieldDescriptor}

theorem isRepeated_of (h : f.isMap = true ∨ f.isList = true) : f.info.isRepeated = true := by
  rcases h with h | h
  · unfold isMap at h
    exact (Bool.and_eq_true_iff.1 h).1
  · unfold isList at h
    exact (Bool.and_eq_true_iff.1 h).1

theorem Of.info_mem (hf : f.Of p) : f.message.info ∈ p.messages :=
  hf.message.info_mem

/-- A list or map has no other members of a oneof beside it. -/
theorem Of.oneof_eq_none (hf : f.Of p) (hlaw : p.Lawful) (h : f.isMap = true ∨ f.isList = true) :
    f.info.oneof = none :=
  hlaw _ hf.info_mem f.info (MessageDescriptor.mem_fields.1 hf.declared).2 (isRepeated_of h)

end FieldDescriptor

/-! ## Writing back what was read -/

/-- Keys in order stay in order when they are put into a map one by one. -/
theorem insertKey_append {key : MapKey} {value : Stored} {entries : List (MapKey × Stored)}
    (h : ∀ e ∈ entries, e.1.Before key) : insertKey key value entries = entries ++ [(key, value)] := by
  induction entries with
  | nil => rfl
  | cons e rest ih =>
    obtain ⟨hle, hne⟩ := h e List.mem_cons_self
    rw [insertKey, if_neg hne, if_pos hle, ih fun x hx => h x (.tail _ hx), List.cons_append]

theorem mapOfEntries_of_sorted {entries : List (MapKey × Stored)}
    (h : (entries.map (·.1)).Pairwise MapKey.Before) : mapOfEntries entries = entries := by
  -- the entries that were put in before come before those that are to be put in
  have step {done : List (MapKey × Stored)} (hdone : ∀ e ∈ done, ∀ x ∈ entries, e.1.Before x.1) :
      entries.foldl (fun m e => insertKey e.1 e.2 m) done = done ++ entries := by
    induction entries generalizing done with
    | nil => rw [List.foldl_nil, List.append_nil]
    | cons x rest ih =>
      obtain ⟨hx, hrest⟩ := List.pairwise_cons.1 h
      rw [List.foldl_cons, insertKey_append fun e he => hdone e he x List.mem_cons_self,
        ih hrest, List.append_assoc]
      · rfl
      · intro e he y hy
        rcases List.mem_append.1 he with he | he
        · exact hdone e he y (.tail _ hy)
        · rw [List.mem_singleton.1 he]
          exact hx y.1 (List.mem_map.2 ⟨y, hy, rfl⟩)
  exact step fun e he => absurd he List.not_mem_nil

namespace MessageDescriptor.Takes

variable {d : MessageDescriptor} {m : Message} {f : FieldDescriptor}

/-- Writing what a field reads as changes nothing, if no other member of the oneof is set. -/
theorem canonical_set (hm : d.Takes m) (hf : f ∈ d.fields) {s : Stored} (hs : f.Holds s)
    (hget : s.canonical = (m.get f).canonical)
    (hset : (f.isMap = true ∨ f.isList = true) ∨ (m.stored? f).isSome)
    (hsiblings : ∀ g ∈ f.siblings, m.stored? g = none) : (m.set f s).canonical = m.canonical := by
  refine hm.canonical_eq (hm.set hf hs) (hm.unknown_set hf s) fun g hg => ?_
  by_cases hnumber : g.number = f.number
  · obtain rfl := eq_of_number hg hf hnumber
    rw [Message.stored?_set_self m rfl, Option.bind_some, Stored.canonical?_eq hget]
    rcases hstored : m.stored? g with _ | t
    · -- an unset list or map reads as an empty one
      rw [Message.get_of_none hstored]
      rcases hset with (hmap | hlist) | hsome
      · rw [Stored.defaultOf_map hmap]
        rfl
      · rw [Stored.defaultOf_list hlist]
        rfl
      · rw [hstored] at hsome
        cases hsome
    · rw [Message.get_of_stored? rfl hstored]
      rfl
  · by_cases hrivals : f.Rivals g
    · rw [Message.stored?_set_of_rivals m hrivals, hsiblings g hrivals]
    · have hgf : g ∈ f.message.fields := (mem_fields.1 hf).1 ▸ hg
      rw [Message.stored?_set_of_not_rivals m hgf hnumber hrivals]

/-- If a field is set, no other member of its oneof is. -/
theorem siblings_eq_none (hm : d.Takes m) (hf : f ∈ d.fields) (hset : (m.stored? f).isSome) :
    ∀ g ∈ f.siblings, m.stored? g = none := by
  obtain ⟨rfl, hm⟩ := hm
  cases hm with
  | mk _ _ _ single _ => exact single f hf hset

end MessageDescriptor.Takes

namespace Heap

variable {h : Heap}

/-- A message that nothing was read from holds what it stores. -/
theorem contents_of_views_eq_nil {q : Ref .message} (hviews : (h.cell q).views = []) :
    h.contents q = .ok (h.cell q).content := by
  rw [contents_eq, hviews]
  rfl

section

variable {h' : Heap} {flush : Ref .message → Except Error Message}

/-- What a stored value was read as is stored again as it was. -/
theorem Shows.toStored {kind : Kind} {config config' : Config} {s : Stored} {v : Value}
    (hs : kind.Holds s) (hv : h.Shows kind config s v)
    (hflush : ∀ q, v = .message q → h'.cell q = h.cell q ∧ flush q = h'.contents q) :
    ∃ t, kind.toStored h' flush v config' = .ok t ∧ t.canonical = s.canonical := by
  cases hs with
  | @scalar kind s hs =>
    obtain rfl : v = s.toValue kind := hv
    obtain ⟨t, ht, hcanonical⟩ := Kind.scalarToStored_toValue hs
    exact ⟨.scalar t, Kind.toStored_of_scalarToStored ht, congrArg Stored.scalar hcanonical⟩
  | @message d m hd hm =>
    obtain ⟨q, rfl, hq, hcontent, hviews, -⟩ := hv
    obtain ⟨hcell, hflush⟩ := hflush q rfl
    rw [← hcell] at hcontent hviews
    have hm : flush q = .ok m := by rw [hflush, contents_of_views_eq_nil hviews, hcontent]
    exact ⟨.message m, toStored_message (hcontent ▸ hd) hm hd, rfl⟩

end

end Heap

theorem MapKey.eq_of_canonical {key : MapKey} {s : Scalar}
    (h : s.canonical = key.toScalar.canonical) : s = key.toScalar := by
  cases s <;> cases key <;> first | exact h | cases h

/-- A key that was read is the same key again. -/
theorem Kind.toMapKey_toValue {h : Heap} {flush : Ref .message → Except Error Message} {kind : Kind}
    {config : Config} {key : MapKey} (hk : kind.HoldsKey key) :
    kind.toMapKey h flush key.toValue config = .ok key := by
  obtain ⟨t, ht, hcanonical⟩ := scalarToStored_toValue hk
  obtain rfl := MapKey.eq_of_canonical hcanonical
  rw [← MapKey.toValue_eq kind] at ht
  have hstored : kind.toStored h flush key.toValue config = .ok (.scalar key.toScalar) :=
    toStored_of_scalarToStored ht
  unfold toMapKey
  simp only [hstored, MapKey.ofScalar?_toScalar]

/-- Results for the elements of a list that is related to another, compared through functions. -/
theorem Except.exists_mapM {ε α β ι γ : Type} {R : α → ι → Prop} {f : ι → Except ε β} {k : α → γ}
    {g : β → γ} {as : List α} {xs : List ι} (h : List.Forall₂ R as xs)
    (hf : ∀ a ∈ as, ∀ x ∈ xs, R a x → ∃ b, f x = .ok b ∧ g b = k a) :
    ∃ bs, xs.mapM f = .ok bs ∧ bs.map g = as.map k := by
  induction h with
  | nil => exact ⟨[], rfl, rfl⟩
  | @cons a x as xs hax _ ih =>
    obtain ⟨b, hb, hgb⟩ := hf a List.mem_cons_self x List.mem_cons_self hax
    obtain ⟨bs, hbs, hgbs⟩ := ih fun a' ha' x' hx' => hf a' (.tail _ ha') x' (.tail _ hx')
    refine ⟨b :: bs, ?_, by rw [List.map_cons, List.map_cons, hgb, hgbs]⟩
    rw [List.mapM_cons, hb]
    change (xs.mapM f >>= fun bs => pure (b :: bs)) = _
    rw [hbs]
    rfl

section

variable {h h' : Heap} {flush : Ref .message → Except Error Message} {d : MessageDescriptor}
  {m : Message} {f : FieldDescriptor} {config : Config} (hm : d.Takes m) (hf : f ∈ d.fields)

include hm hf

/-- What a list was read as is stored again as it was. -/
theorem RepeatedCell.ReadFrom.toStored {c : RepeatedCell} (hc : c.ReadFrom h m f config)
    (hflush : ∀ q, .message q ∈ c.items → h'.cell q = h.cell q ∧ flush q = h'.contents q) :
    ∃ t, c.toStored h' flush = .ok t ∧ t.canonical = (m.get f).canonical := by
  obtain ⟨items, hget, -⟩ := (hm.get hf).items hc.isList
  have hitems : m.itemsOf f = items := by
    unfold Message.itemsOf
    rw [hget]
  have hholds := hm.itemsOf hf hc.isList
  have hread := hc.items
  rw [hitems] at hholds hread
  obtain ⟨ts, hts, hcanonical⟩ := Except.exists_mapM (f := fun v => c.kind.toStored h' flush v c.config)
    (g := Stored.canonical) (k := Stored.canonical) hread fun s hs v hv hshows => by
      unfold RepeatedCell.kind
      rw [hc.sameField]
      exact hshows.toStored (hholds s hs) fun q hq => hflush q (hq ▸ hv)
  refine ⟨.list ts, congrArg (Except.map Stored.list) hts, ?_⟩
  rw [hget, Stored.canonical, Stored.canonical, Stored.canonicalItems_eq, Stored.canonicalItems_eq,
    hcanonical]

/-- So is what a map was read as. -/
theorem MapCell.ReadFrom.toStored {c : MapCell} (hc : c.ReadFrom h m f config)
    (hflush : ∀ e ∈ c.entries, ∀ q, e.2 = .message q →
      h'.cell q = h.cell q ∧ flush q = h'.contents q) :
    ∃ t, c.toStored h' flush = .ok t ∧ t.canonical = (m.get f).canonical := by
  obtain ⟨entries, hget, -, -, hsorted⟩ := (hm.get hf).entries hc.isMap
  have hentries : m.entriesOf f = entries := by
    unfold Message.entriesOf
    rw [hget]
  have hholds := hm.entriesOf hf hc.isMap
  have hread := hc.entries
  rw [hentries] at hholds hread
  obtain ⟨ts, hts, hcanonical⟩ := Except.exists_mapM (f := fun e : Value × Value => do
      let key ← c.field.keyKind.toMapKey h' flush e.1 c.config
      let value ← c.field.valueKind.toStored h' flush e.2 c.config
      return (key, value))
    (g := fun e => (e.1, e.2.canonical)) (k := fun e : MapKey × Stored => (e.1, e.2.canonical)) hread
    fun s hs e he hshows => by
      obtain ⟨hkey, hshows⟩ := hshows
      obtain ⟨t, ht, hcanonical⟩ : ∃ t, f.valueKind.toStored h' flush e.2 c.config = .ok t ∧
          t.canonical = s.2.canonical :=
        hshows.toStored (hholds.values s hs) fun q hq => hflush e he q hq
      refine ⟨(s.1, t), ?_, Prod.ext rfl hcanonical⟩
      rw [hc.sameField, hkey, Kind.toMapKey_toValue (hholds.keys s hs), ht]
      rfl
  have hkeys : ts.map (·.1) = entries.map (·.1) := by
    have := congrArg (List.map Prod.fst) hcanonical
    simpa [List.map_map, Function.comp_def] using this
  refine ⟨.map ts, ?_, ?_⟩
  · refine Except.bind_ok.2 ⟨ts, hts, ?_⟩
    rw [mapOfEntries_of_sorted (hkeys ▸ hsorted)]
    rfl
  · rw [hget, Stored.canonical, Stored.canonical, Stored.canonicalEntries_eq,
      Stored.canonicalEntries_eq, hcanonical]

/-- What a field was read as is written back as it was, if at all. -/
theorem Heap.Reads.viewContents {v : Value} (hv : h.Reads m f config v)
    (hcells : ∀ q : Place, q.1 ≠ .message → h'.cell q.2 = h.cell q.2)
    (hflush : ∀ w ∈ v :: h.elements v, ∀ q : Ref .message, w = .message q →
      h'.cell q = h.cell q ∧ flush q = h'.contents q) :
    h'.viewContents flush v = .ok none ∨
      ∃ s, h'.viewContents flush v = .ok (some s) ∧ s.canonical = (m.get f).canonical ∧
        ((f.isMap = true ∨ f.isList = true) ∨ (m.stored? f).isSome) := by
  cases hv with
  | @map q hq hread =>
    obtain ⟨t, ht, hcanonical⟩ := hread.toStored hm hf fun e he q' hq' =>
      hflush _ (.tail _ (List.mem_map.2 ⟨e, he, rfl⟩)) q' hq'
    refine .inr ⟨t, ?_, hcanonical, .inl (.inl hread.isMap)⟩
    have hcell : h'.cell q = h.cell q := hcells ⟨.map, q⟩ nofun
    exact Except.map_ok.2 ⟨t, hcell.symm ▸ ht, rfl⟩
  | @list q hq hread =>
    obtain ⟨t, ht, hcanonical⟩ := hread.toStored hm hf fun q' hq' =>
      hflush _ (.tail _ hq') q' rfl
    refine .inr ⟨t, ?_, hcanonical, .inl (.inr hread.isList)⟩
    have hcell : h'.cell q = h.cell q := hcells ⟨.repeated, q⟩ nofun
    exact Except.map_ok.2 ⟨t, hcell.symm ▸ ht, rfl⟩
  | absent => exact .inl rfl
  | single hmap hlist hset hv =>
    have hget := (hm.get hf).kind hmap hlist
    rcases hstored : m.get f with s | n | items | entries <;> rw [hstored] at hv hget
    · rw [show v = s.toValue f.kind from hv]
      exact .inl (Heap.viewContents_of_ref?_eq_none (s.ref?_toValue f.kind))
    · obtain ⟨q, rfl, hq, hcontent, hviews, -⟩ := hv
      obtain ⟨hcell, hflush⟩ := hflush _ List.mem_cons_self q rfl
      rw [← hcell] at hviews hcontent
      refine .inr ⟨.message n, ?_, rfl, .inr ?_⟩
      · refine Except.map_ok.2 ⟨n, ?_, rfl⟩
        rw [hflush, Heap.contents_of_views_eq_nil hviews, hcontent]
      · -- an unset message would have been read as absent
        cases hs : m.stored? f with
        | some s => rfl
        | none =>
          have hkind : f.kind.isMessage = true := by
            cases hk : f.kind with
            | message d => rfl
            | scalar t =>
              rw [hk] at hget
              cases hget
            | enum d =>
              rw [hk] at hget
              cases hget
          simp [Message.has, hs, hkind] at hset
    · exact absurd hget Kind.Holds.not_list
    · exact absurd hget Kind.Holds.not_map

end

namespace Heap

variable {h h' : Heap}

theorem Typed.follows (ht : h.Typed p) (hc : h.Closed) (r : Ref .message) :
    h.FlushesTyped (h.follow r) := by
  intro q hq m hm
  exact ht.contents hc hq (follow_ok.1 hm).2

/-- A view that is written back is one of a list or map, or of a field that is set. -/
theorem Typed.set_of_write (ht : h.Typed p) {r : Ref .message} (hr : h.Has ⟨.message, r⟩)
    {view : String × Value} (hview : view ∈ (h.cell r).views) {f : FieldDescriptor} {s : Stored}
    (hw : h.write r view = .ok (some (f, s))) :
    (f.isMap = true ∨ f.isList = true) ∨ ((h.cell r).content.stored? f).isSome := by
  obtain ⟨name, v⟩ := view
  obtain ⟨g, hg, hviews⟩ := (ht.message hr).views _ hview
  obtain rfl : g = f := Option.some.inj (hg.symm.trans (field_of_write hw))
  cases hviews with
  | map hmap => exact .inl (.inl hmap)
  | list hlist => exact .inl (.inr hlist)
  | message _ _ _ _ _ hset => exact .inr hset
  | plain _ _ hv =>
    rw [write_of_field (field_of_write hw)] at hw
    obtain ⟨t, ht, heq⟩ := Except.map_ok.1 hw
    rw [viewContents_of_ref?_eq_none hv] at ht
    cases ht
    cases heq

/-- The views of other fields do not decide what a field holds that was read as something that is
written back. -/
theorem Typed.not_decides (ht : h.Typed p) (hlaw : p.Lawful) {r : Ref .message}
    (hr : h.Has ⟨.message, r⟩) {f : FieldDescriptor} (hf : f ∈ (h.cell r).content.descriptor.fields)
    (hset : (f.isMap = true ∨ f.isList = true) ∨ ((h.cell r).content.stored? f).isSome)
    {view : String × Value} (hview : view ∈ (h.cell r).views) (hne : view.1 ≠ f.name)
    {g : FieldDescriptor} {s : Stored} (hw : h.write r view = .ok (some (g, s))) :
    f ∈ g.message.fields ∧ ¬ g.Decides f := by
  have hcell := ht.message hr
  obtain ⟨hg, hname⟩ := MessageDescriptor.field?_eq_some.1 (field_of_write hw)
  have hgm : g.message = (h.cell r).content.descriptor := (MessageDescriptor.mem_fields.1 hg).1
  have hof := FieldDescriptor.of_mem hcell.among hf
  have hgof := FieldDescriptor.of_mem hcell.among hg
  refine ⟨hgm ▸ hf, ?_⟩
  rintro (hnumber | hrivals)
  · exact hne (hname ▸ (MessageDescriptor.eq_of_number hf hg hnumber).symm ▸ rfl)
  obtain ⟨hsome, -, honeof, -⟩ := FieldDescriptor.rivals_iff.1 hrivals
  -- both fields belong to one oneof, so neither is a list or map, and only one is set
  have stored {k : FieldDescriptor} (hk : k.Of p) (honeof : k.info.oneof = g.info.oneof)
      (hset : (k.isMap = true ∨ k.isList = true) ∨ ((h.cell r).content.stored? k).isSome) :
      ((h.cell r).content.stored? k).isSome := by
    refine hset.resolve_left fun hrepeated => ?_
    rw [← honeof, hk.oneof_eq_none hlaw hrepeated] at hsome
    cases hsome
  have hgset := stored hgof rfl (ht.set_of_write hr hview hw)
  have hrivals' : f.Rivals g := by
    have hgmem : g ∈ g.message.fields := hgm.symm ▸ hg
    exact FieldDescriptor.Rivals.symm hgmem hrivals
  rw [(ht.takes hr).siblings_eq_none hf (stored hof honeof hset) g hrivals'] at hgset
  cases hgset

namespace KeepsView

variable {r : Ref .message} {name : String} {f : FieldDescriptor} {v : Value}
  (hh : h.KeepsView r name f v h')

include hh

theorem cell_self : h'.cell r = { h.cell r with views := (h.cell r).views ++ [(name, v)] } := by
  rw [hh.eq, cell_put_self h r _ hh.has]

theorem cell_ne {q : Place} (hq : q ≠ ⟨.message, r⟩) : h'.cell q.2 = h.cell q.2 := by
  rw [hh.eq]
  exact cell_put_of_place_ne h hq _

theorem has_after : h'.Has ⟨.message, r⟩ := by
  rw [hh.eq, has_put]
  exact hh.has

/-- The field that was read. -/
theorem mem_fields : f ∈ (h.cell r).content.descriptor.fields :=
  (MessageDescriptor.field?_eq_some.1 hh.field).1

/-- The other views write what they wrote before. -/
theorem mapM_write (hc : h.Closed) :
    (h.cell r).views.mapM (h'.write r) = (h.cell r).views.mapM (h.write r) := by
  refine Except.mapM_congr fun view hview => ?_
  rw [hh.eq]
  exact Grows.put_write (c := { h.cell r with views := (h.cell r).views ++ [(name, v)] })
    (.refl ∅ h) hc hh.has rfl hview

/-- The new view writes the field as it is stored, if anything. -/
theorem write_new (ht : h.Typed p) :
    h'.write r (name, v) = .ok none ∨
      ∃ s, h'.write r (name, v) = .ok (some (f, s)) ∧
        s.canonical = ((h.cell r).content.get f).canonical ∧
        ((f.isMap = true ∨ f.isList = true) ∨ ((h.cell r).content.stored? f).isSome) := by
  have hfollow (w : Value) (hw : w ∈ v :: h.elements v) (q : Ref .message) (hq : w = .message q) :
      h'.cell q = h.cell q ∧ h'.follow r q = h'.contents q := by
    have hlt := hh.after w hw q hq
    refine ⟨hh.cell_ne (q := ⟨.message, q⟩) fun he => ?_, if_pos ⟨hlt, hh.has_after⟩⟩
    cases he
    exact Nat.lt_irrefl _ hlt
  have hback := hh.reads.viewContents (ht.takes hh.has) hh.mem_fields
    (fun q hq => hh.cell_ne fun he => hq (by rw [he])) hfollow
  have hwrite : h'.write r (name, v) = (h'.viewContents (h'.follow r) v).map (·.map (f, ·)) := by
    exact write_of_field (by rw [hh.cell_self]; exact hh.field)
  rw [hwrite]
  rcases hback with hnone | ⟨s, hs, hcanonical, hset⟩
  · rw [hnone]
    exact .inl rfl
  · rw [hs]
    exact .inr ⟨s, rfl, hcanonical, hset⟩

/-- The other views leave the field as it is stored. -/
theorem stored?_writeAll (ht : h.Typed p) (hlaw : p.Lawful)
    (hset : (f.isMap = true ∨ f.isList = true) ∨ ((h.cell r).content.stored? f).isSome)
    {ws : List (Option (FieldDescriptor × Stored))}
    (hws : (h.cell r).views.mapM (h.write r) = .ok ws) :
    ((h.cell r).content.writeAll ws).stored? f = (h.cell r).content.stored? f := by
  refine Message.stored?_writeAll_of_not_decides _ fun g t hmem => ?_
  obtain ⟨view, hview, hw⟩ := exists_of_forall₂ (Except.mapM_ok.1 hws) hmem
  refine ht.not_decides hlaw hh.has hh.mem_fields hset hview (fun he => ?_) hw
  have hname := (MessageDescriptor.field?_eq_some.1 hh.field).2
  have hfound := List.find?_eq_none.1 (Option.map_eq_none_iff.1 hh.new) view hview
  exact hfound (beq_iff_eq.2 (he.trans hname))

/-- **Reading a field changes no contents**, if no list or map belongs to a oneof. -/
theorem alike (ht : h.Typed p) (hc : h.Closed) (hlaw : p.Lawful) (ht' : h'.Typed p)
    (hc' : h'.Closed) :
    Except.Alike Likeness.canonical.message (h.contents r) (h'.contents r) := by
  have hcontents := contents_eq h r
  have hcontents' := contents_eq h' r
  rw [hh.cell_self, List.mapM_append, hh.mapM_write hc] at hcontents'
  rcases hws : (h.cell r).views.mapM (h.write r) with e | ws <;>
    rw [hws] at hcontents hcontents' <;> rw [hcontents']
  · rw [hcontents]
    exact .error e
  have htakes := ht.contents hc hh.has hcontents
  rw [hcontents]
  -- the new view writes nothing, or what is stored already
  rcases hh.write_new ht with hwrite | ⟨s, hwrite, hcanonical, hset⟩ <;>
    rw [Except.mapM_ok.2 (.cons hwrite .nil)] <;> refine .ok ?_
  · change ((h.cell r).content.writeAll (ws ++ [none])).canonical = _
    rw [Message.writeAll_concat]
    rfl
  change ((h.cell r).content.writeAll (ws ++ [some (f, s)])).canonical = _
  rw [Message.writeAll_concat]
  have hsame := hh.stored?_writeAll ht hlaw hset hws
  have hholds : f.Holds s := by
    have hview : (name, v) ∈ (h'.cell r).views := by
      rw [hh.cell_self]
      exact List.mem_append_right _ (.head _)
    exact (ht'.holds_write hc' hh.has_after (ht'.follows hc' r) hview hwrite).2
  refine htakes.canonical_set hh.mem_fields hholds ?_ (hset.imp_right fun h => hsame ▸ h)
    fun g hg => ?_
  · unfold Message.get at hcanonical ⊢
    rw [hsame]
    exact hcanonical
  · rcases hset with hrepeated | hset
    · have hof := FieldDescriptor.of_mem (ht.message hh.has).among hh.mem_fields
      have hsome := (FieldDescriptor.rivals_iff.1 (show f.Rivals g from hg)).1
      rw [hof.oneof_eq_none hlaw hrepeated] at hsome
      cases hsome
    · exact htakes.siblings_eq_none hh.mem_fields (hsame ▸ hset) g hg

end KeepsView

end Heap

end Protoscript
