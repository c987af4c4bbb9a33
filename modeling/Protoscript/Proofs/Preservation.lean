import Protoscript.Proofs.Deciding
import Protoscript.Proofs.Typing

/-!
# Every change keeps the types

* `Heap.KeepsTypes` — a later heap has messages of the same types and views of the same fields;
* `Heap.Change.typed` — a change keeps all cells as their types ask for;
* `Heap.Reachable.typed` — so do runs.
-/

namespace Protoscript

variable {p : Pool}

/-! ## Types of cells -/

/-- Whether two cells are messages of one type, or views of one field. -/
def Cell.SameType : {s : Shelf} → Cell s → Cell s → Prop
  | .list, _, _ => True
  | .dict, _, _ => True
  | .message, c, c' => (MessageCell.content c').descriptor = (MessageCell.content c).descriptor
  | .repeated, c, c' => RepeatedCell.field c' = RepeatedCell.field c
  | .map, c, c' => MapCell.field c' = MapCell.field c

theorem Cell.SameType.refl {s : Shelf} (c : Cell s) : c.SameType c := by
  cases s with
  | list | dict => trivial
  | message | «repeated» | map => exact Eq.refl _

namespace Heap

/-- Whether the cells of a heap are in another one, of the same types. -/
def KeepsTypes (h h' : Heap) : Prop :=
  ∀ q : Place, h.Has q → h'.Has q ∧ (h.cell q.2).SameType (h'.cell q.2)

variable {h h' : Heap}

theorem Lasts.keepsTypes (hh : h.Lasts h') : h.KeepsTypes h' := by
  rintro ⟨s, r⟩ hq
  obtain ⟨hhas, hcell⟩ := hh ⟨s, r⟩ hq
  refine ⟨hhas, ?_⟩
  cases s with
  | list | dict => trivial
  | message => exact (congrArg (fun c : MessageCell => c.content.descriptor) hcell :)
  | «repeated» => exact (congrArg RepeatedCell.field hcell :)
  | map => exact (congrArg MapCell.field hcell :)

theorem keepsTypes_alloc (h : Heap) {s : Shelf} (c : Cell s) : h.KeepsTypes (h.alloc s c) := by
  intro q hq
  refine ⟨Nat.lt_of_lt_of_le hq (size_shelf_le_alloc h s q.1 c), ?_⟩
  rw [cell_alloc_of_has h c hq]
  exact .refl _

theorem keepsTypes_put {s : Shelf} {r : Ref s} {c : Cell s} (hr : h.Has ⟨s, r⟩)
    (hc : (h.cell r).SameType c) : h.KeepsTypes (h.put r c) := by
  intro q hq
  refine ⟨has_put.2 hq, ?_⟩
  by_cases hqr : q = ⟨s, r⟩
  · subst hqr
    rw [cell_put_self h r c hr]
    exact hc
  · rw [cell_put_of_place_ne h hqr]
    exact .refl _

section

variable (hh : h.KeepsTypes h')

include hh

theorem KeepsTypes.message {q : Ref .message} (hq : h.Has ⟨.message, q⟩) :
    (h'.cell q).content.descriptor = (h.cell q).content.descriptor :=
  (hh ⟨.message, q⟩ hq).2

theorem KeepsTypes.repeated {q : Ref .repeated} (hq : h.Has ⟨.repeated, q⟩) :
    (h'.cell q).field = (h.cell q).field :=
  (hh ⟨.repeated, q⟩ hq).2

theorem KeepsTypes.map {q : Ref .map} (hq : h.Has ⟨.map, q⟩) :
    (h'.cell q).field = (h.cell q).field :=
  (hh ⟨.map, q⟩ hq).2

theorem Fits.keep {kind : Kind} {v : Value} (hv : h.Fits kind v) : h'.Fits kind v := by
  cases hv with
  | scalar hs => exact .scalar hs
  | message hk hq hd => exact .message hk (hh _ hq).1 ((hh.message hq).trans hd)

theorem Views.keep {m n : Message} {f : FieldDescriptor} {v : Value}
    (hmn : (m.stored? f).isSome → (n.stored? f).isSome) (hv : h.Views m f v) : h'.Views n f v := by
  cases hv with
  | map hmap hq hf => exact .map hmap (hh _ hq).1 ((hh.map hq).trans hf)
  | list hlist hq hf => exact .list hlist (hh _ hq).1 ((hh.repeated hq).trans hf)
  | message hmap hlist hk hq hd hset =>
    exact .message hmap hlist hk (hh _ hq).1 ((hh.message hq).trans hd) (hmn hset)
  | plain hmap hlist hv => exact .plain hmap hlist hv

end

end Heap

namespace Cell

theorem Typed.keep {h h' : Heap} (hh : h.KeepsTypes h') {s : Shelf} {c : Cell s}
    (hc : Cell.Typed p h c) : Cell.Typed p h' c := by
  cases s with
  | list | dict => trivial
  | message =>
    obtain ⟨hamong, hconforms, hviews, hdistinct⟩ := hc
    refine ⟨hamong, hconforms, fun view hview => ?_, hdistinct⟩
    obtain ⟨f, hf, hv⟩ := hviews view hview
    exact ⟨f, hf, hv.keep hh id⟩
  | «repeated» => exact ⟨hc.1, fun v hv => (hc.2 v hv).keep hh⟩
  | map => exact ⟨hc.1, fun e he => ⟨(hc.2 e he).1.keep hh, (hc.2 e he).2.keep hh⟩⟩

/-- Types do not depend on what is frozen. -/
theorem typed_freeze {h : Heap} {s : Shelf} {c : Cell s} :
    Cell.Typed p h c.freeze ↔ Cell.Typed p h c := by
  cases s with
  | list | dict => exact Iff.rfl
  | message =>
    exact ⟨fun hc => ⟨hc.among, hc.conforms, hc.views, hc.distinct⟩,
      fun hc => ⟨hc.among, hc.conforms, hc.views, hc.distinct⟩⟩
  | «repeated» => exact ⟨fun hc => ⟨hc.field, hc.items⟩, fun hc => ⟨hc.field, hc.items⟩⟩
  | map => exact ⟨fun hc => ⟨hc.field, hc.entries⟩, fun hc => ⟨hc.field, hc.entries⟩⟩

end Cell

/-- A message stays as its type asks for when a field is written and the views of the field and its oneof
are dropped. -/
theorem MessageCell.Typed.assign {h : Heap} {c : MessageCell} (hc : c.Typed p h) {f : FieldDescriptor}
    (hf : f ∈ c.content.descriptor.fields) {stored : Option Stored} (hs : ∀ s ∈ stored, f.Holds s) :
    MessageCell.Typed p h { c with
      content := stored.elim (c.content.clear f) (c.content.set f)
      views := Script.keptViews f c.views } := by
  have htakes : c.content.descriptor.Takes (stored.elim (c.content.clear f) (c.content.set f)) := by
    cases stored with
    | none => exact ⟨rfl, hc.conforms.clear⟩
    | some s => exact (⟨rfl, hc.conforms⟩ : c.content.descriptor.Takes c.content).set hf (hs s rfl)
  refine ⟨htakes.descriptor.symm ▸ hc.among, htakes.conforms, fun view hview => ?_,
    hc.distinct.sublist (List.filter_sublist.map _)⟩
  obtain ⟨hview, hkeep⟩ := List.mem_filter.1 hview
  obtain ⟨g, hg, hviews⟩ := hc.views view hview
  refine ⟨g, htakes.descriptor.symm ▸ hg, hviews.keep (fun q hq => ⟨hq, .refl _⟩) fun hset => ?_⟩
  -- a view that stays is of a field that still holds what it held
  obtain ⟨hgmem, hname⟩ := MessageDescriptor.field?_eq_some.1 hg
  rw [← hname] at hkeep
  have hnot := (FieldDescriptor.kept_iff hf hgmem).1 hkeep
  have hgf : g ∈ f.message.fields := (MessageDescriptor.mem_fields.1 hf).1 ▸ hgmem
  cases stored with
  | none => exact (Message.stored?_clear_of_ne _ fun e => hnot (.inl e)).symm ▸ hset
  | some s => exact (Message.stored?_set_of_not_decides hgf _ hnot s).symm ▸ hset

namespace Heap

variable {h h' : Heap}

/-! ## Cells that are added or overwritten -/

theorem Typed.alloc (ht : h.Typed p) {s : Shelf} {c : Cell s} (hc : Cell.Typed p h c) :
    (h.alloc s c).Typed p := by
  have hh := keepsTypes_alloc h c
  intro q hq
  rcases has_alloc hq with rfl | hold
  · rw [cell_alloc_self]
    exact hc.keep hh
  · rw [cell_alloc_of_has h c hold]
    exact (ht q hold).keep hh

theorem Typed.put (ht : h.Typed p) {s : Shelf} {r : Ref s} {c : Cell s} (hr : h.Has ⟨s, r⟩)
    (htype : (h.cell r).SameType c) (hc : Cell.Typed p h c) : (h.put r c).Typed p := by
  have hh := keepsTypes_put hr htype
  intro q hq
  by_cases hqr : q = ⟨s, r⟩
  · subst hqr
    rw [cell_put_self h r c hr]
    exact hc.keep hh
  · rw [cell_put_of_place_ne h hqr]
    exact (ht q (has_put.1 hq)).keep hh

theorem Typed.lasts (ht : h.Typed p) (hh : h.Lasts h') (hold : ∀ q, h'.Has q → h.Has q) :
    h'.Typed p := by
  intro q hq
  have hcell := (hh q (hold q hq)).2
  rw [← Cell.typed_freeze, hcell, Cell.typed_freeze]
  exact (ht q (hold q hq)).keep hh.keepsTypes

end Heap

/-! ## Messages inside stored data -/

/-- What a type holds, its messages are of types of the pool. -/
theorem Kind.Holds.contains {kind : Kind} {s : Stored} {m : Message} (hk : kind.Of p)
    (hs : kind.Holds s) (hm : s.Contains m) : m.descriptor.Among {p} ∧ m.Conforms := by
  cases hs with
  | scalar hs => cases hm
  | message hd hconforms =>
    cases hm with
    | message => exact ⟨hd ▸ hk _ rfl, hconforms⟩

theorem FieldDescriptor.Holds.contains {f : FieldDescriptor} {s : Stored} {m : Message} (hf : f.Of p)
    (hs : f.Holds s) (hm : s.Contains m) : m.descriptor.Among {p} ∧ m.Conforms := by
  cases hs with
  | single hmap hlist hs => exact hs.contains hf.kind hm
  | list hlist hitems =>
    cases hm with
    | list hmem hm => exact (hitems _ hmem).contains hf.kind hm
  | map hmap hkeys hvalues hsorted =>
    cases hm with
    | map hmem hm => exact (hvalues _ hmem).contains hf.valueKind hm

namespace MessageDescriptor.Takes

variable {d : MessageDescriptor} {m : Message} {f : FieldDescriptor}

/-- The items of a list field are of its type. -/
theorem itemsOf (hm : d.Takes m) (hf : f ∈ d.fields) (hlist : f.isList = true) :
    ∀ s ∈ m.itemsOf f, f.kind.Holds s := by
  obtain ⟨items, hitems, hall⟩ := (hm.get hf).items hlist
  unfold Message.itemsOf
  rw [hitems]
  exact hall

/-- The entries of a map field are of its types. -/
theorem entriesOf (hm : d.Takes m) (hf : f ∈ d.fields) (hmap : f.isMap = true) :
    f.HoldsEntries (m.entriesOf f) := by
  obtain ⟨entries, hentries, hkeys, hvalues, hsorted⟩ := (hm.get hf).entries hmap
  unfold Message.entriesOf
  rw [hentries]
  exact ⟨hkeys, hvalues, hsorted⟩

end MessageDescriptor.Takes

/-- A key reads as a value as the scalar that it is. -/
theorem MapKey.toValue_eq (kind : Kind) (key : MapKey) : key.toValue = key.toScalar.toValue kind := by
  cases key <;> rfl

namespace Heap

variable {h h' : Heap}

/-! ## Values that are read or taken in -/

theorem Shows.fits {kind : Kind} {config : Config} {s : Stored} {v : Value} (hs : kind.Holds s)
    (hv : h.Shows kind config s v) : h.Fits kind v := by
  cases hs with
  | scalar hs =>
    obtain rfl : v = _ := hv
    exact .scalar hs
  | message hd hm =>
    obtain ⟨q, rfl, hq, hcontent, -⟩ := hv
    exact .message rfl hq (hcontent ▸ hd)

theorem Reads.views {d : MessageDescriptor} {m : Message} {f : FieldDescriptor} {config : Config}
    {v : Value} (hm : d.Takes m) (hf : f ∈ d.fields) (hv : h.Reads m f config v) : h.Views m f v := by
  cases hv with
  | map hq hc => exact .map hc.isMap hq hc.sameField
  | list hq hc => exact .list hc.isList hq hc.sameField
  | absent hmap hlist => exact .plain hmap hlist rfl
  | single hmap hlist hset hv =>
    have hget := (hm.get hf).kind hmap hlist
    rcases hstored : m.get f with s | n | items | entries <;> rw [hstored] at hv hget
    · rw [show v = _ from hv]
      exact .plain hmap hlist (s.ref?_toValue _)
    · obtain ⟨q, rfl, hq, hcontent, -⟩ := hv
      have hkind : f.kind = .message n.descriptor := by
        cases hk : f.kind with
        | message e =>
          rw [hk] at hget
          rw [(MessageDescriptor.Takes.of_holds hget).descriptor]
        | scalar t =>
          rw [hk] at hget
          cases hget
        | enum e =>
          rw [hk] at hget
          cases hget
      refine .message hmap hlist hkind hq (by rw [hcontent]) ?_
      -- an unset message would have been read as absent
      rw [hkind] at hset
      cases hs : m.stored? f with
      | some s => rfl
      | none => simp [Message.has, hs, Kind.isMessage] at hset
    · exact absurd hget Kind.Holds.not_list
    · exact absurd hget Kind.Holds.not_map

section

variable (ht : h.Typed p)

include ht

theorem Knows.of {f : FieldDescriptor} (hf : Knows {p} h f) : f.Of p := by
  cases hf with
  | given hpool hf => exact ⟨hpool, hf⟩
  | message hr hf => exact FieldDescriptor.of_mem (ht.message hr).among hf
  | «repeated» hr => exact (ht.repeated hr).field
  | map hr => exact (ht.map hr).field

theorem Normal.fits {kind : Kind} {v : Value} (hk : kind.Of p) (hv : h.Normal kind v) :
    h.Fits kind v := by
  cases hv with
  | scalar hs => exact .scalar (Kind.holds_scalarToStored hs)
  | message hkind hq hd =>
    exact .message hkind hq (MessageDescriptor.eq_of_same (ht.message hq).among (hk _ hkind) hd)

theorem Typed.takes {r : Ref .message} (hr : h.Has ⟨.message, r⟩) :
    (h.cell r).content.descriptor.Takes (h.cell r).content :=
  ⟨rfl, (ht.message hr).conforms⟩

/-! ## Changed cells -/

theorem Typed.newRepeated {c : RepeatedCell} (hf : c.field.Of p)
    (hitems : ∀ v ∈ c.items, h.Normal c.kind v ∨
      ∃ q : Ref .repeated, h.Has ⟨.repeated, q⟩ ∧ (h.cell q).field = c.field ∧ v ∈ (h.cell q).items) :
    RepeatedCell.Typed p h c := by
  refine ⟨hf, fun v hv => ?_⟩
  rcases hitems v hv with hnormal | ⟨q, hq, hfield, hold⟩
  · exact hnormal.fits ht hf.kind
  · have hfits := (ht.repeated hq).items v hold
    unfold RepeatedCell.kind at hfits ⊢
    rwa [hfield] at hfits

theorem Typed.setItems {r : Ref .repeated} {items : List Value} (hr : h.Has ⟨.repeated, r⟩)
    (hitems : ∀ v ∈ items, v ∈ (h.cell r).items ∨ h.Normal (h.cell r).kind v) :
    RepeatedCell.Typed p h { h.cell r with items := items } := by
  have hold := ht.repeated hr
  refine ⟨hold.field, fun v hv => ?_⟩
  rcases hitems v hv with hmem | hnormal
  · exact hold.items v hmem
  · exact hnormal.fits ht hold.field.kind

theorem Typed.setEntries {r : Ref .map} {entries : List (Value × Value)} (hr : h.Has ⟨.map, r⟩)
    (hkeys : ∀ e ∈ entries, e.1 ∈ (h.cell r).entries.map (·.1) ∨
      h.Normal (h.cell r).field.keyKind e.1)
    (hvalues : ∀ e ∈ entries, e.2 ∈ (h.cell r).entries.map (·.2) ∨
      h.Normal (h.cell r).field.valueKind e.2) :
    MapCell.Typed p h { h.cell r with entries := entries } := by
  have hold := ht.map hr
  refine ⟨hold.field, fun e he => ⟨?_, ?_⟩⟩
  · rcases hkeys e he with hmem | hnormal
    · obtain ⟨e', he', heq⟩ := List.mem_map.1 hmem
      exact heq ▸ (hold.entries e' he').1
    · exact hnormal.fits ht hold.field.keyKind
  · rcases hvalues e he with hmem | hnormal
    · obtain ⟨e', he', heq⟩ := List.mem_map.1 hmem
      exact heq ▸ (hold.entries e' he').2
    · exact hnormal.fits ht hold.field.valueKind

section

variable {r : Ref .message} (hr : h.Has ⟨.message, r⟩) {f : FieldDescriptor}

include hr

theorem Typed.readRepeated (hf : f ∈ (h.cell r).content.descriptor.fields) {c : RepeatedCell}
    (hread : c.ReadFrom h (h.cell r).content f (h.cell r).config) : RepeatedCell.Typed p h c := by
  refine ⟨hread.sameField ▸ FieldDescriptor.of_mem (ht.message hr).among hf, fun v hv => ?_⟩
  obtain ⟨s, hs, hshows⟩ := exists_of_forall₂ hread.items hv
  unfold RepeatedCell.kind
  rw [hread.sameField]
  exact hshows.fits ((ht.takes hr).itemsOf hf hread.isList s hs)

theorem Typed.readMap (hf : f ∈ (h.cell r).content.descriptor.fields) {c : MapCell}
    (hread : c.ReadFrom h (h.cell r).content f (h.cell r).config) : MapCell.Typed p h c := by
  refine ⟨hread.sameField ▸ FieldDescriptor.of_mem (ht.message hr).among hf, fun e he => ?_⟩
  have hholds := (ht.takes hr).entriesOf hf hread.isMap
  obtain ⟨stored, hstored, hkey, hshows⟩ := exists_of_forall₂ hread.entries he
  rw [hread.sameField, hkey, stored.1.toValue_eq f.keyKind]
  exact ⟨.scalar (hholds.keys stored hstored), hshows.fits (hholds.values stored hstored)⟩

/-- A message that keeps one more view, of a field that it kept none of. -/
theorem Typed.keepView {name : String} {v : Value} (hnew : lookupName name (h.cell r).views = none)
    (hf : (h.cell r).content.descriptor.field? name = some f)
    (hv : h.Reads (h.cell r).content f (h.cell r).config v) :
    MessageCell.Typed p h { h.cell r with views := (h.cell r).views ++ [(name, v)] } := by
  have hold := ht.message hr
  have hmem := (MessageDescriptor.field?_eq_some.1 hf).1
  refine ⟨hold.among, hold.conforms, fun view hview => ?_, ?_⟩
  · rcases List.mem_append.1 hview with hview | hview
    · exact hold.views view hview
    · rw [List.mem_singleton.1 hview]
      exact ⟨f, hf, hv.views (ht.takes hr) hmem⟩
  · rw [List.map_append]
    refine hold.distinct.append (List.nodup_singleton _) ?_
    rintro n hn hname
    rw [List.mem_singleton.1 hname] at hn
    obtain ⟨view, hview, heq⟩ := List.mem_map.1 hn
    have hnone := List.find?_eq_none.1 (Option.map_eq_none_iff.1 hnew) view hview
    exact hnone (beq_iff_eq.2 heq)

end

variable (hc : h.Closed)

include hc

/-- A new message is of a type of the pool. -/
theorem Source.takes {m : Message} (hm : Source {p} h m) : m.descriptor.Among {p} ∧ m.Conforms := by
  have of_takes {d : MessageDescriptor} {m : Message} (hd : d.Among {p}) (hm : d.Takes m) :
      m.descriptor.Among {p} ∧ m.Conforms := ⟨hm.descriptor ▸ hd, hm.conforms⟩
  cases hm with
  | empty hd => exact of_takes hd (.empty _)
  | contents hr hm => exact of_takes (ht.message hr).among (ht.contents hc hr hm)
  | @stored f kind v config m hf hk hv hm =>
    have hf := hf.of ht
    have hkind : kind.Of p := by
      rcases hk with rfl | rfl | rfl
      · exact hf.kind
      · exact hf.keyKind
      · exact hf.valueKind
    exact (Kind.holds_toStored hkind (ht.gives (ht.flushes hc) hv) hm).contains hkind .message
  | part hr hf hs hm =>
    exact ((ht.takes hr).stored hf hs).contains (FieldDescriptor.of_mem (ht.message hr).among hf) hm
  | wire hd hm => exact of_takes hd (Message.takes_ofWire? hm)
  | json hd hm => exact of_takes hd (Message.takes_ofJson? hm)
  | text hd hm => exact of_takes hd (Message.takes_ofText? hm)
  | packed hr hm hn =>
    have hpool := (ht.contents hc hr hm).descriptor ▸ (ht.message hr).among.pool
    unfold Message.pack at hn
    split at hn
    · rename_i d hd
      cases hn
      exact of_takes (Pool.among_of_message? hpool hd) ((MessageDescriptor.Takes.empty d).packing _ _)
    · cases hn
  | given hd hm => exact ⟨hd, hm⟩

/-- What a message is replaced by is of its type. -/
theorem Replaces.takes {r : Ref .message} {m : Message} (hr : h.Has ⟨.message, r⟩)
    (hm : Replaces h r m) : (h.cell r).content.descriptor.Takes m := by
  cases hm with
  | cleared => exact .empty _
  | filled hm => exact Message.takes_fillDefaults (ht.contents hc hr hm)
  | @merged src m n hsrc hname hm hn =>
    have hd : (h.cell r).content.descriptor = (h.cell src).content.descriptor :=
      MessageDescriptor.eq_of_fullName (ht.message hr).among (ht.message hsrc).among hname
    exact Message.takes_merge (ht.contents hc hr hm) (hd ▸ ht.contents hc hsrc hn)

/-- What a field is set to, it may hold. -/
theorem Assigns.holds {f : FieldDescriptor} {config : Config} {s : Stored} (hf : f.Of p)
    (hs : Assigns h f config (some s)) : f.Holds s := by
  cases hs with
  | single hmap hlist hv hs =>
    exact .single hmap hlist (Kind.holds_toStored hf.kind (ht.gives (ht.flushes hc) hv) hs)
  | list hmap hlist hq hfield hs =>
    subst hfield
    exact RepeatedCell.holds_toStored hf (fun v hv => ht.gives (ht.flushes hc) (hc.repeatedItems hq v hv)) hs hlist
  | map hmap hq hfield hs =>
    subst hfield
    exact MapCell.holds_toStored hf (fun e he => ⟨ht.gives (ht.flushes hc) (hc.mapEntries hq e he).1,
      ht.gives (ht.flushes hc) (hc.mapEntries hq e he).2⟩) hs hmap

/-! ## Changes -/

/-- A message with a field written and the views of the field and its oneof dropped. -/
theorem Assigns.typed {r : Ref .message} {f : FieldDescriptor} {stored : Option Stored}
    (hr : h.Has ⟨.message, r⟩) (hf : f ∈ (h.cell r).content.descriptor.fields)
    (hs : Assigns h f (h.cell r).config stored) :
    MessageCell.Typed p h { h.cell r with
      content := stored.elim ((h.cell r).content.clear f) ((h.cell r).content.set f)
      views := Script.keptViews f (h.cell r).views } :=
  (ht.message hr).assign hf fun _ hmem =>
    Assigns.holds ht hc (FieldDescriptor.of_mem (ht.message hr).among hf) (Option.mem_def.1 hmem ▸ hs)

/-- **A change keeps the types.** -/
theorem Change.typed (hh : Change {p} h h') : h.KeepsTypes h' ∧ h'.Typed p := by
  have alloc {s : Shelf} {c : Cell s} (hcell : Cell.Typed p h c) :
      h.KeepsTypes (h.alloc s c) ∧ (h.alloc s c).Typed p :=
    ⟨keepsTypes_alloc h c, ht.alloc hcell⟩
  have put {s : Shelf} {r : Ref s} {c : Cell s} (hr : h.Has ⟨s, r⟩) (htype : (h.cell r).SameType c)
      (hcell : Cell.Typed p h c) : h.KeepsTypes (h.put r c) ∧ (h.put r c).Typed p :=
    ⟨keepsTypes_put hr htype, ht.put hr htype hcell⟩
  -- every change makes or writes one cell, which is typed again
  cases hh with
  | count n =>
    have hg := h.grows_count n
    exact ⟨hg.lasts.keepsTypes, ht.lasts hg.lasts fun q hq => hq⟩
  | list hitems => exact alloc (s := .list) trivial
  | dict hentries => exact alloc (s := .dict) trivial
  | message hm =>
    obtain ⟨hamong, hconforms⟩ := hm.takes ht hc
    exact alloc (s := .message) ⟨hamong, hconforms, fun _ hview => absurd hview List.not_mem_nil, .nil⟩
  | «repeated» hfrozen hf hitems => exact alloc (s := .repeated) (ht.newRepeated (hf.of ht) hitems)
  | readRepeated hfrozen hr hf hread => exact alloc (s := .repeated) (ht.readRepeated hr hf hread)
  | map hfrozen hf hentries hdistinct =>
    have hf := hf.of ht
    exact alloc (s := .map) ⟨hf, fun e he =>
      ⟨(hentries e he).1.fits ht hf.keyKind, (hentries e he).2.fits ht hf.valueKind⟩⟩
  | readMap hfrozen hr hf hread => exact alloc (s := .map) (ht.readMap hr hf hread)
  | setList hr hfrozen hitems => exact put (s := .list) hr trivial trivial
  | setDict hr hfrozen hentries => exact put (s := .dict) hr trivial trivial
  | setRepeated hr hfrozen hitems hnodup =>
    exact put (s := .repeated) hr rfl
      (ht.setItems hr fun v hv => (hitems v hv).imp_right fun hnew => hnew.1)
  | setMap hr hfrozen hkeys hvalues hnodup hdistinct =>
    exact put (s := .map) hr rfl
      (ht.setEntries hr hkeys fun e he => (hvalues e he).imp_right fun hnew => hnew.1)
  | @assign r name f stored hr hfrozen hf hs =>
    refine put (s := .message) hr ?_ (hs.typed ht hc hr (MessageDescriptor.field?_eq_some.1 hf).1)
    cases stored with
    | none => rfl
    | some s => exact Message.descriptor_set _ _ s
  | replace hr hfrozen hm =>
    have htakes := hm.takes ht hc hr
    exact put (s := .message) hr htakes.descriptor
      ⟨htakes.descriptor.symm ▸ (ht.message hr).among, htakes.conforms,
        fun _ hview => absurd hview List.not_mem_nil, .nil⟩
  | keep hr hnew hf hv hfrozen hfresh helements hnodup hafter =>
    exact put (s := .message) hr rfl (ht.keepView hr hnew hf hv)
  | freeze hv => exact ⟨(lasts_freezeAll h _).keepsTypes,
      ht.lasts (lasts_freezeAll h _) fun q hq => has_freezeAll.1 hq⟩

end

theorem KeepsTypes.trans {mid : Heap} (hh : h.KeepsTypes mid) (hh' : mid.KeepsTypes h') :
    h.KeepsTypes h' := by
  rintro ⟨s, r⟩ hq
  obtain ⟨hm, htype⟩ := hh _ hq
  obtain ⟨hm', htype'⟩ := hh' _ hm
  refine ⟨hm', ?_⟩
  cases s with
  | list | dict => trivial
  | message | «repeated» | map => exact Eq.trans htype' htype

theorem Changes.typed (hh : Changes {p} h h') (ht : h.Typed p) (hc : h.Closed) :
    h.KeepsTypes h' ∧ h'.Typed p := by
  induction hh with
  | refl => exact ⟨fun q hq => ⟨hq, .refl _⟩, ht⟩
  | tail hfirst hlast ih =>
    obtain ⟨hkeeps, htyped⟩ := hlast.typed ih.2 (Changes.closed hfirst hc)
    exact ⟨ih.1.trans hkeeps, htyped⟩

/-- **In the heaps of a run, everything is as its type asks for.** -/
theorem Reachable.typed (hh : Reachable {p} h) : h.Typed p := by
  refine (hh.changes.typed ?_ closed_empty).2
  rintro ⟨s, r⟩ hq
  cases s <;> exact absurd hq (Nat.not_lt_zero _)

end Heap

end Protoscript
