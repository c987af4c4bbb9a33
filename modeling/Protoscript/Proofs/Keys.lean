import Protoscript.Proofs.Flushing

/-!
# Keys of views of map fields

A view of a map field has every key once, if its keys are integers, booleans or texts: such keys equal
themselves, so that a key that is set again is found. What the keys are stored as is distinct then, too.

* `Heap.selfEqual_of_isKey` — keys equal themselves;
* `Heap.DistinctKeys` — whether views have every key once; `Heap.Change.distinctKeys`,
  `Heap.Reachable.distinctKeys` — this is so on all heaps of a run;
* `MapCell.nodup_storedEntries` — what they are stored as is distinct.
-/

namespace Protoscript

variable {p : Pool}

/-- A key equals itself. -/
theorem MapKey.keysEqual_toValue (h : Heap) (key : MapKey) :
    h.keysEqual key.toValue key.toValue = true := by
  cases key <;>
    simp [MapKey.toValue, Heap.keysEqual, Heap.equals, Heap.equalsWithin, Heap.sequenceItems?,
      Heap.mappingEntries?, Heap.flatEquals, Except.toOption]

/-- Different keys are read as different values. -/
theorem Kind.HoldsKey.toValue_inj {kind : Kind} {a b : MapKey} (ha : kind.HoldsKey a)
    (hb : kind.HoldsKey b) (hab : a.toValue = b.toValue) : a = b := by
  have hread : kind.toMapKey {} (fun _ => .error .cyclic) a.toValue {} = .ok a :=
    Kind.toMapKey_toValue ha
  rw [hab, Kind.toMapKey_toValue hb] at hread
  exact (Except.ok.inj hread).symm

namespace Heap

variable {h h' : Heap} {kind : Kind}

/-- What a view may hold as a key is what a key is read as. -/
theorem Fits.exists_key {v : Value} (hv : h.Fits kind v) (hkey : kind.isKey = true) :
    ∃ key : MapKey, kind.HoldsKey key ∧ v = key.toValue := by
  cases hv with
  | scalar hs =>
    obtain ⟨key, rfl⟩ := hs.exists_key hkey
    exact ⟨key, hs, (MapKey.toValue_eq kind key).symm⟩
  | message hk =>
    rw [hk] at hkey
    cases hkey

/-- Different keys are stored as different ones. -/
theorem Fits.toMapKey_inj {flush : Ref .message → Except Error Message} {config : Config} {v w : Value}
    {key : MapKey} (hv : h.Fits kind v) (hw : h.Fits kind w) (hkey : kind.isKey = true)
    (hvk : kind.toMapKey h flush v config = .ok key) (hwk : kind.toMapKey h flush w config = .ok key) :
    v = w := by
  obtain ⟨a, ha, rfl⟩ := hv.exists_key hkey
  obtain ⟨b, hb, rfl⟩ := hw.exists_key hkey
  rw [Kind.toMapKey_toValue ha] at hvk
  rw [Kind.toMapKey_toValue hb] at hwk
  rw [Except.ok.inj hvk, Except.ok.inj hwk]

/-- The checked keys of a type whose values can be keys equal themselves. -/
theorem selfEqual_of_isKey (hkey : kind.isKey = true) : h.SelfEqual kind := by
  intro v hv
  cases hv with
  | scalar hs =>
    obtain ⟨key, rfl⟩ := (Kind.holds_scalarToStored hs).exists_key hkey
    rw [← MapKey.toValue_eq]
    exact key.keysEqual_toValue h
  | message hk =>
    rw [hk] at hkey
    cases hkey

/-! ## Views -/

/-- Whether views of map fields have every key once, if the keys are of a type that can be a key. -/
def DistinctKeys (h : Heap) : Prop :=
  ∀ r : Ref .map, (h.cell r).field.keyKind.isKey = true → ((h.cell r).entries.map (·.1)).Nodup

/-- What a map field is read as has every key once. -/
theorem nodup_keys_of_readFrom {d : MessageDescriptor} {m : Message} {f : FieldDescriptor}
    {config : Config} {c : MapCell} (hm : d.Takes m) (hf : f ∈ d.fields)
    (hc : c.ReadFrom h m f config) : (c.entries.map (·.1)).Nodup := by
  have hentries := hm.entriesOf hf hc.isMap
  have hkeys : c.entries.map (·.1) = ((m.entriesOf f).map (·.1)).map MapKey.toValue := by
    have hread := hc.entries
    generalize m.entriesOf f = stored at hread
    generalize c.entries = entries at hread
    induction hread with
    | nil => rfl
    | cons he _ ih => exact List.cons_eq_cons.2 ⟨he.1, ih⟩
  have hnodup : ((m.entriesOf f).map (·.1)).Nodup :=
    hentries.sorted.imp fun hbefore => hbefore.2
  rw [hkeys]
  refine List.Nodup.map_on (fun a ha b hb hab => ?_) hnodup
  obtain ⟨e, he, rfl⟩ := List.mem_map.1 ha
  obtain ⟨e', he', rfl⟩ := List.mem_map.1 hb
  exact (hentries.keys e he).toValue_inj (hentries.keys e' he') hab

/-- **A change keeps the keys of views distinct.** -/
theorem Change.distinctKeys {pools : Set Pool} (hh : Change pools h h') (ht : h.Typed p)
    (hd : h.DistinctKeys) : h'.DistinctKeys := by
  have other {h' : Heap} (hcell : ∀ r : Ref .map, h'.cell r = h.cell r) : h'.DistinctKeys := by
    intro r
    rw [hcell]
    exact hd r
  have added {c : MapCell} (hc : c.field.keyKind.isKey = true → (c.entries.map (·.1)).Nodup) :
      (h.alloc .map c).DistinctKeys := by
    intro r
    by_cases hr : (h.alloc .map c).Has ⟨.map, r⟩
    · rcases has_alloc hr with he | hold
      · cases he
        rw [cell_alloc_self]
        exact hc
      · rw [cell_alloc_of_has h (s := .map) c hold]
        exact hd r
    · rw [cell_of_not_has (p := ⟨.map, r⟩) hr]
      exact fun _ => .nil
  cases hh with
  | count | list | dict | message | «repeated» | readRepeated =>
    exact other fun _ => rfl
  | setList | setDict | setRepeated | assign | replace | keep =>
    exact other fun r => cell_put_of_shelf_ne h (by decide) _ r _
  | @freeze v =>
    intro r
    have hcell := freeze_cell_freezeAll h [v] ⟨.map, r⟩
    have hfield : ((h.freeze v).cell r).field = (h.cell r).field := (congrArg MapCell.field hcell :)
    have hentries : ((h.freeze v).cell r).entries = (h.cell r).entries :=
      (congrArg MapCell.entries hcell :)
    rw [hfield, hentries]
    exact hd r
  | map _ _ _ hdistinct => exact added fun hkey => hdistinct (selfEqual_of_isKey hkey)
  | readMap _ hr hf hc => exact added fun _ => nodup_keys_of_readFrom (ht.takes hr) hf hc
  | @setMap r entries hr _ _ _ _ hdistinct =>
    intro q
    by_cases hq : q = r
    · subst hq
      rw [cell_put_self h q _ hr]
      exact fun hkey => hdistinct (selfEqual_of_isKey hkey) (hd q hkey)
    · rw [cell_put_of_ne h hq]
      exact hd q

/-- **In the heaps of a run, views have every key once.** -/
theorem Reachable.distinctKeys (hh : Reachable {p} h) : h.DistinctKeys := by
  have hempty : ({} : Heap).DistinctKeys := fun _ _ => .nil
  have htyped : ({} : Heap).Typed p := by
    rintro ⟨s, r⟩ hq
    cases s <;> exact absurd hq (Nat.not_lt_zero _)
  have run {h : Heap} (hh : Changes {p} {} h) : h.DistinctKeys := by
    induction hh with
    | refl => exact hempty
    | tail hfirst hlast ih =>
      exact hlast.distinctKeys (Changes.typed hfirst htyped closed_empty).2 ih
  exact run hh.changes

end Heap

/-! ## What is stored -/

/-- An entry of a view of a map field as it is stored. -/
def MapCell.storedEntry (h : Heap) (flush : Ref .message → Except Error Message) (c : MapCell)
    (e : Value × Value) : Except Error (MapKey × Stored) := do
  let key ← c.field.keyKind.toMapKey h flush e.1 c.config
  let value ← c.field.valueKind.toStored h flush e.2 c.config
  return (key, value)

namespace MapCell

variable {h : Heap} {flush : Ref .message → Except Error Message} {c : MapCell} {e : Value × Value}

theorem storedEntry_ok {key : MapKey} {s : Stored} :
    c.storedEntry h flush e = .ok (key, s) ↔
      c.field.keyKind.toMapKey h flush e.1 c.config = .ok key ∧
        c.field.valueKind.toStored h flush e.2 c.config = .ok s := by
  unfold storedEntry
  constructor
  · intro hentry
    obtain ⟨k, hk, hentry⟩ := Except.bind_ok.1 hentry
    obtain ⟨t, ht, hentry⟩ := Except.bind_ok.1 hentry
    cases hentry
    exact ⟨hk, ht⟩
  · rintro ⟨hk, hs⟩
    rw [hk, hs]
    rfl

theorem toStored_eq (c : MapCell) : c.toStored h flush =
    (c.entries.mapM (c.storedEntry h flush)).map fun entries => Stored.map (mapOfEntries entries) := by
  have hbind : c.toStored h flush = c.entries.mapM (c.storedEntry h flush) >>=
      fun entries => pure (Stored.map (mapOfEntries entries)) := rfl
  rw [hbind]
  cases c.entries.mapM (c.storedEntry h flush) <;> rfl

/-- **Distinct keys are stored as distinct keys.** -/
theorem nodup_storedEntries {entries : List (MapKey × Stored)}
    (hnodup : (c.entries.map (·.1)).Nodup) (hkey : c.field.keyKind.isKey = true)
    (hfits : ∀ e ∈ c.entries, h.Fits c.field.keyKind e.1)
    (hentries : c.entries.mapM (c.storedEntry h flush) = .ok entries) :
    (entries.map (·.1)).Nodup := by
  let R (v : Value) (key : MapKey) : Prop :=
    h.Fits c.field.keyKind v ∧ c.field.keyKind.toMapKey h flush v c.config = .ok key
  have hunique : Relator.BiUnique R := by
    refine ⟨fun v key w hv hw => hv.1.toMapKey_inj hw.1 hkey hv.2 hw.2, fun v key key' hv hv' => ?_⟩
    exact Except.ok.inj (hv.2.symm.trans hv'.2)
  refine (List.rel_nodup hunique ?_).1 hnodup
  rw [List.forall₂_map_left_iff, List.forall₂_map_right_iff]
  have hall := Except.mapM_ok.1 hentries
  refine List.forall₂_iff_zip.2 ⟨hall.length_eq, fun {e d} hed => ?_⟩
  exact ⟨hfits e (List.of_mem_zip hed).1, (storedEntry_ok.1 ((List.forall₂_iff_zip.1 hall).2 hed)).1⟩

end MapCell

end Protoscript
