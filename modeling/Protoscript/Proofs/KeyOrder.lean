import Protoscript.Proofs.Laying
import Protoscript.Proofs.Ordering
import Protoscript.Proofs.Purity

/-!
# Maps that are read in any order

A map that is stored may be found in any order, and is read into a view or a dict of which the entries
are in the order of their keys. The order of keys is strict on the keys of one map, so that there is
one such order, and no script can tell how the map was found.

* `inKeyOrder` — entries in the order of their keys; `inKeyOrder_eq`;
* `Heap.ListsInOrder` — entries that show stored ones in the order of the keys;
* `Script.attrInOrder` — attributes, where maps may be found in any order; on the heaps of a run it is
  `Script.messageAttr`;
* `Heap.Reachable.order_free` — contents, attributes and equality of messages on a heap of which views
  and maps are found in any order.
-/

namespace Protoscript

/-! ## The order of keys -/

/-- Whether the key of an entry may stand before another one: integers by value, texts by code point,
false before true. Other values are no keys of maps. -/
def Value.keyLe : Value → Value → Bool
  | .int x, .int y => x ≤ y
  | .text x, .text y => x ≤ y
  | .bool x, .bool y => !x || y
  | _, _ => true

/-- Entries in the order of their keys. -/
def inKeyOrder (entries : List (Value × Value)) : List (Value × Value) :=
  entries.mergeSort fun a b => a.1.keyLe b.1

/-- Whether the keys of entries ascend strictly. -/
def KeysAscend (entries : List (Value × Value)) : Prop :=
  entries.Pairwise fun a b => a.1.keyLe b.1 = true ∧ b.1.keyLe a.1 = false

/-- A list of which a permutation ascends strictly is sorted to it. -/
theorem mergeSort_eq_of_ascending {α : Type} {le : α → α → Bool} {xs ys : List α} (hperm : xs.Perm ys)
    (hrefl : ∀ x ∈ ys, le x x = true)
    (hys : ys.Pairwise fun a b => le a b = true ∧ le b a = false) : xs.mergeSort le = ys := by
  -- on the list, the order is that of the places
  have places {i j : Nat} (hi : i < ys.length) (hj : j < ys.length) :
      le ys[i] ys[j] = true ↔ i ≤ j := by
    rcases Nat.lt_trichotomy i j with hlt | rfl | hgt
    · simp [(List.pairwise_iff_getElem.1 hys i j hi hj hlt).1, hlt.le]
    · simp [hrefl _ (List.getElem_mem hi)]
    · simp [(List.pairwise_iff_getElem.1 hys j i hj hi hgt).2, hgt]
  let r : {x // x ∈ xs} → {x // x ∈ xs} → Bool := fun a b => le a.1 b.1
  have place (a : {x // x ∈ xs}) : ∃ i, ∃ hi : i < ys.length, ys[i] = a.1 :=
    List.mem_iff_getElem.1 (hperm.mem_iff.1 a.2)
  have hsorted : (xs.attach.mergeSort r).Pairwise fun a b => r a b = true := by
    refine List.pairwise_mergeSort (fun a b c hab hbc => ?_) (fun a b => ?_) _
    · obtain ⟨i, hi, ha⟩ := place a
      obtain ⟨j, hj, hb⟩ := place b
      obtain ⟨k, hk, hc⟩ := place c
      simp only [r, ← ha, ← hb, ← hc, places] at hab hbc ⊢
      exact hab.trans hbc
    · obtain ⟨i, hi, ha⟩ := place a
      obtain ⟨j, hj, hb⟩ := place b
      rw [Bool.or_eq_true]
      simp only [r, ← ha, ← hb, places]
      exact Nat.le_total i j
  have hmap : (xs.attach.mergeSort r).map Subtype.val = xs.mergeSort le := by
    rw [List.map_mergeSort (f := Subtype.val) (s := le) fun _ _ _ _ => rfl, List.attach_map_subtype_val]
  have hsame : (xs.mergeSort le).Perm ys := (List.mergeSort_perm xs le).trans hperm
  refine hsame.eq_of_pairwise (fun a b ha hb hab hba => ?_) (hmap ▸ List.pairwise_map.2 hsorted)
    (hys.imp And.left)
  obtain ⟨i, hi, rfl⟩ := List.mem_iff_getElem.1 (hsame.mem_iff.1 ha)
  obtain ⟨j, hj, rfl⟩ := List.mem_iff_getElem.1 hb
  obtain rfl : i = j := Nat.le_antisymm ((places hi hj).1 hab) ((places hj hi).1 hba)
  rfl

section

variable {kind : Kind} {a b : MapKey}

theorem MapKey.keyLe_self (a : MapKey) : a.toValue.keyLe a.toValue = true := by
  cases a <;> simp [toValue, Value.keyLe]

/-- Keys of one type are ordered as they are stored. -/
theorem Kind.HoldsKey.keyLe_toValue (ha : kind.HoldsKey a) (hb : kind.HoldsKey b) :
    a.toValue.keyLe b.toValue = a.le b := by
  have hsame := ha.storage hb
  cases a <;> cases b <;>
    simp only [MapKey.toScalar, Scalar.storage?, Option.some.injEq, reduceCtorEq] at hsame
  case i32 x y => simp [MapKey.toValue, Value.keyLe, MapKey.le, Int32.le_iff_toInt_le]
  case i64 x y => simp [MapKey.toValue, Value.keyLe, MapKey.le, Int64.le_iff_toInt_le]
  case u32 x y => simp [MapKey.toValue, Value.keyLe, MapKey.le, UInt32.le_iff_toNat_le]
  case u64 x y => simp [MapKey.toValue, Value.keyLe, MapKey.le, UInt64.le_iff_toNat_le]
  all_goals rfl

/-- The order of the keys of one type is strict. -/
theorem Kind.HoldsKey.ascend_of_before (ha : kind.HoldsKey a) (hb : kind.HoldsKey b)
    (hab : a.Before b) :
    a.toValue.keyLe b.toValue = true ∧ b.toValue.keyLe a.toValue = false := by
  rw [ha.keyLe_toValue hb, hb.keyLe_toValue ha, Bool.eq_false_iff]
  exact ⟨hab.1, fun hba => hab.2 (MapKey.le_antisymm (ha.storage hb) hab.1 hba)⟩

/-- **There is one order.** Entries with the keys of a map are put into the order in which the map has
them. -/
theorem inKeyOrder_of_perm {keys : List MapKey} {xs ys : List (Value × Value)} (hperm : xs.Perm ys)
    (hkeys : ∀ key ∈ keys, kind.HoldsKey key) (hsorted : keys.Pairwise MapKey.Before)
    (h : ys.map (·.1) = keys.map MapKey.toValue) : KeysAscend ys ∧ inKeyOrder xs = ys := by
  have hascend : KeysAscend ys := by
    rw [KeysAscend, ← List.pairwise_map (f := Prod.fst)
      (R := fun a b : Value => a.keyLe b = true ∧ b.keyLe a = false), h, List.pairwise_map]
    exact hsorted.imp_of_mem fun ha hb hab => (hkeys _ ha).ascend_of_before (hkeys _ hb) hab
  refine ⟨hascend, mergeSort_eq_of_ascending hperm (fun e he => ?_) hascend⟩
  obtain ⟨key, -, hkey⟩ := List.mem_map.1 (h ▸ List.mem_map_of_mem (f := Prod.fst) he)
  rw [← hkey]
  exact key.keyLe_self

end

/-! ## Entries in order -/

namespace Heap

variable {h h' : Heap} {kind : Kind} {f : FieldDescriptor} {config : Config}
  {es fs : List (MapKey × Stored)}

/-- Whether entries show those of a stored map, each of them and no others, in the order of their
keys. Of a message among the values, the entries of maps may be listed in any order. -/
structure ListsInOrder (h : Heap) (kind : Kind) (config : Config) (es : List (MapKey × Stored))
    (entries : List (Value × Value)) : Prop where
  shows : ∃ aligned : List (MapKey × Stored),
    List.Forall₂ (fun e f => e.1 = f.1 ∧ e.2.Relists f.2) es aligned ∧
    List.Forall₂ (fun stored e => e.1 = stored.1.toValue ∧ h.Shows kind config stored.2 e.2)
      aligned entries
  ascend : KeysAscend entries

/-- Entries that show those of a map of which they are a permutation are put into its order. -/
theorem inKeyOrder_of_shows (hes : f.HoldsEntries es) {aligned : List (MapKey × Stored)}
    (haligned : es.map (·.1) = aligned.map (·.1)) {xs ys : List (Value × Value)} (hperm : xs.Perm ys)
    (hys : List.Forall₂
      (fun stored e => e.1 = stored.1.toValue ∧ h.Shows kind config stored.2 e.2) aligned ys) :
    KeysAscend ys ∧ inKeyOrder xs = ys := by
  have hkeys : ∀ key ∈ es.map (·.1), f.keyKind.HoldsKey key := by
    intro key hkey
    obtain ⟨e, he, rfl⟩ := List.mem_map.1 hkey
    exact hes.keys e he
  refine inKeyOrder_of_perm hperm hkeys hes.sorted ?_
  rw [haligned, List.map_map, ← List.forall₂_eq_eq_eq, List.forall₂_map_left_iff,
    List.forall₂_map_right_iff]
  exact hys.flip.imp fun _ _ hshow => hshow.1

/-- **Entries that were read in any order** show those of the map when they are put in order. -/
theorem listsInOrder_inKeyOrder (hes : f.HoldsEntries es) (hfs : Listing es fs)
    {entries : List (Value × Value)}
    (hread : List.Forall₂
      (fun stored e => e.1 = stored.1.toValue ∧ h.Shows kind config stored.2 e.2) fs entries) :
    h.ListsInOrder kind config es (inKeyOrder entries) := by
  obtain ⟨aligned, haligned, hperm⟩ := hfs
  obtain ⟨ordered, hordered, hperm'⟩ := List.perm_comp_forall₂ hperm.symm hread
  obtain ⟨hascend, hsame⟩ :=
    inKeyOrder_of_shows hes (forall₂_keyed.1 haligned).1 hperm'.symm hordered
  rw [hsame]
  exact ⟨⟨aligned, haligned, hordered⟩, hascend⟩

/-- A stored value of a type is read as one that shows it, however its maps are listed. -/
theorem shows_adopt_of_relists (h : Heap) (config : Config) {s t : Stored} (hs : kind.Holds s)
    (hst : s.Relists t) : h.Grows (h.adopt kind config t).2 ∧
      (h.adopt kind config t).2.Shows kind config t (h.adopt kind config t).1 := by
  cases hs with
  | scalar hs =>
    obtain rfl := Stored.Relists.scalar_iff.1 hst
    exact shows_adopt h config (.scalar hs)
  | message =>
    obtain ⟨n, rfl, -⟩ := Stored.Relists.message_iff.1 hst
    rw [adopt]
    exact h.shows_newMessage _ n config

/-- The entries of a stored map are read as entries that show them, in whatever order they come. -/
theorem shows_adoptEntries (h : Heap) (config : Config)
    (hfs : ∀ e ∈ fs, ∃ s, kind.Holds s ∧ s.Relists e.2) :
    h.Grows (h.adoptEntries kind config fs).2 ∧ List.Forall₂ (fun stored e =>
      e.1 = stored.1.toValue ∧ (h.adoptEntries kind config fs).2.Shows kind config stored.2 e.2) fs
        (h.adoptEntries kind config fs).1 := by
  induction fs generalizing h with
  | nil =>
    rw [adoptEntries]
    exact ⟨.refl ∅ h, .nil⟩
  | cons e rest ih =>
    obtain ⟨key, t⟩ := e
    obtain ⟨s, hs, hst⟩ := hfs _ (.head _)
    obtain ⟨hg, hshows⟩ := h.shows_adopt_of_relists config hs hst
    obtain ⟨hg', hrest⟩ := ih (h.adopt kind config t).2 fun e he => hfs e (.tail _ he)
    rw [adoptEntries]
    exact ⟨hg.trans hg', .cons ⟨rfl, hshows.lasts hg'.lasts⟩ hrest⟩

/-- What a field of a type holds as a value, where the entries of a dict are put into the order of
their keys. -/
def adoptInOrder (h : Heap) (kind : Kind) (config : Config) : Stored → Value × Heap
  | .map entries =>
    let r := h.adoptEntries kind config entries
    r.2.newDict (inKeyOrder r.1)
  | s => h.adopt kind config s

/-- A map that is found in the order of its keys is read as `Heap.adopt` reads it. -/
theorem adoptInOrder_eq (h : Heap) (config : Config) (hes : f.HoldsEntries es) :
    h.adoptInOrder f.valueKind config (.map es) = h.adopt f.valueKind config (.map es) := by
  have hlisted : ∀ e ∈ es, ∃ s, f.valueKind.Holds s ∧ s.Relists e.2 :=
    fun e he => ⟨e.2, hes.values e he, .refl e.2⟩
  have hshows := (h.shows_adoptEntries config hlisted).2
  rw [adoptInOrder, adopt, (inKeyOrder_of_shows hes rfl (.refl _) hshows).2]

/-- **A dict that a map is read into** lists the stored entries in the order of their keys, in
whatever order the map is found. -/
theorem adoptInOrder_map (h : Heap) (config : Config) (hes : f.HoldsEntries es) (hfs : Listing es fs) :
    ∃ q k, h.adoptInOrder f.valueKind config (.map fs) = (.dict q, k) ∧ h.Grows k ∧
      k.ListsInOrder f.valueKind config es (k.cell q).entries := by
  have hlisted : ∀ e ∈ fs, ∃ s, f.valueKind.Holds s ∧ s.Relists e.2 := fun e he => by
    obtain ⟨e', he', -, hrelists⟩ := hfs.exists_of_mem he
    exact ⟨e'.2, hes.values e' he', hrelists⟩
  obtain ⟨hg, hshows⟩ := h.shows_adoptEntries config hlisted
  let mid := (h.adoptEntries f.valueKind config fs).2
  let c : DictCell := { entries := inKeyOrder (h.adoptEntries f.valueKind config fs).1 }
  have hgrows : mid.Grows (mid.alloc .dict c) := mid.grows_alloc (s := .dict) (by decide) c
  have hcell : (mid.alloc .dict c).cell (mid.fresh .dict) = c := mid.cell_alloc_self (s := .dict) c
  refine ⟨mid.fresh .dict, mid.alloc .dict c, rfl, hg.trans hgrows, ?_⟩
  rw [hcell]
  exact listsInOrder_inKeyOrder hes hfs
    (hshows.imp fun _ _ hshow => ⟨hshow.1, hshow.2.lasts hgrows.lasts⟩)

/-- Whether a value is what a field of a stored message was read as, in whatever order its maps were
found. -/
inductive ReadsInOrder (h : Heap) (m : Message) (f : FieldDescriptor) (config : Config) : Value → Prop
  | map {q : Ref .map} (hmap : f.isMap = true) (hq : h.Has ⟨.map, q⟩) (hfield : (h.cell q).field = f)
    (hconfig : (h.cell q).config = config)
    (hentries : h.ListsInOrder f.valueKind config (m.entriesOf f) (h.cell q).entries) :
    ReadsInOrder h m f config (.map q)
  | other {n : Message} {v : Value} (hmap : f.isMap = false) (hn : m.Relists n)
    (hv : h.Reads n f config v) : ReadsInOrder h m f config v

/-- A view of a map is read from a map field only. -/
theorem Reads.of_map {m : Message} {q : Ref .map} (hv : h.Reads m f config (.map q)) :
    h.Has ⟨.map, q⟩ ∧ (h.cell q).ReadFrom h m f config := by
  cases hv with
  | map hq hc => exact ⟨hq, hc⟩
  | single _ _ _ hv => exact absurd rfl (hv.shelf rfl).2

theorem ListsInOrder.lasts {entries : List (Value × Value)} (hh : h.Lasts h')
    (he : h.ListsInOrder kind config es entries) : h'.ListsInOrder kind config es entries := by
  obtain ⟨⟨aligned, haligned, hshows⟩, hascend⟩ := he
  exact ⟨⟨aligned, haligned, hshows.imp fun _ _ hshow => ⟨hshow.1, hshow.2.lasts hh⟩⟩, hascend⟩

theorem ReadsInOrder.lasts {m : Message} {v : Value} (hh : h.Lasts h')
    (hv : h.ReadsInOrder m f config v) : h'.ReadsInOrder m f config v := by
  cases hv with
  | @map q hmap hq hfield hconfig hentries =>
    have hcell : Cell.freeze (s := .map) (h'.cell q) = Cell.freeze (h.cell q) := (hh _ hq).2
    have hentries' : (h'.cell q).entries = (h.cell q).entries := (congrArg MapCell.entries hcell :)
    refine .map hmap (hh _ hq).1 ((congrArg MapCell.field hcell :).trans hfield)
      ((congrArg MapCell.config hcell :).trans hconfig) ?_
    rw [hentries']
    exact hentries.lasts hh
  | other hmap hn hv => exact .other hmap hn (hv.lasts hh)

/-- A value shows what it shows, whatever a view of a map holds. -/
theorem Shows.put_map {s : Stored} {v : Value} (hv : h.Shows kind config s v) (q : Ref .map)
    (c : MapCell) : (h.put q c).Shows kind config s v := by
  cases s with
  | scalar => exact hv
  | message m =>
    obtain ⟨r, rfl, hr, hcontent, hviews, hconfig⟩ := hv
    have hcell : (h.put q c).cell r = h.cell r := cell_put_of_shelf_ne h (s := .map) (by decide) q r c
    exact ⟨r, rfl, has_put.2 hr, hcell ▸ hcontent, hcell ▸ hviews, hcell ▸ hconfig⟩
  | list =>
    obtain ⟨r, rfl, hr⟩ := hv
    exact ⟨r, rfl, has_put.2 hr⟩
  | map =>
    obtain ⟨r, rfl, hr⟩ := hv
    exact ⟨r, rfl, has_put.2 hr⟩

end Heap

theorem Message.Relists.entriesOf {m n : Message} (h : m.Relists n) (f : FieldDescriptor) :
    Listing (m.entriesOf f) (n.entriesOf f) := by
  have hget := h.get f
  unfold Message.entriesOf
  cases hm : m.get f with
  | map es =>
    rw [hm] at hget
    obtain ⟨fs, hfs, hlisting⟩ := Stored.Relists.map_iff.1 hget
    rw [hfs]
    exact hlisting
  | scalar | message | list =>
    rw [hm] at hget
    cases hn : n.get f <;> first
      | exact ⟨[], .nil, .refl _⟩
      | (rw [hn] at hget; cases hget)

/-! ## Attributes -/

namespace Script

variable {h mid : Heap} {m n : Message} {f : FieldDescriptor} {config : Config} {r : Ref .message}

/-- What a field reads as, where maps may be found in any order: the entries of a view of a map are put
into the order of their keys. -/
def readFieldInOrder (m : Message) (f : FieldDescriptor) (config : Config) : Script Value := do
  let v ← readField m f config
  match v with
  | .map q =>
    let c ← cell q
    put q { c with entries := inKeyOrder c.entries }
    return v
  | _ => return v

/-- The value of a field of a message, where maps may be found in any order. -/
def attrInOrder (r : Ref .message) (name : String) : Script (Option Value) :=
  attrBy readFieldInOrder r name

theorem readFieldInOrder_map {q : Ref .map} (hrun : (readField m f config).run h = (.ok (.map q), mid)) :
    (readFieldInOrder m f config).run h = (.ok (.map q),
      mid.put q { mid.cell q with entries := inKeyOrder (mid.cell q).entries }) := by
  unfold readFieldInOrder
  rw [run_bind, hrun]
  rfl

theorem readFieldInOrder_other {v : Value} (hrun : (readField m f config).run h = (.ok v, mid))
    (hv : ∀ q, v ≠ .map q) : (readFieldInOrder m f config).run h = (.ok v, mid) := by
  unfold readFieldInOrder
  rw [run_bind, hrun]
  cases v with
  | map q => exact absurd rfl (hv q)
  | _ => rfl

/-- **A field is read** into new cells, as what shows the stored data in the order of the keys. -/
theorem readFieldInOrder_first {d : MessageDescriptor} (hm : d.Takes m) (hf : f ∈ d.fields)
    (hr : h.Has ⟨.message, r⟩) (hlisted : m.Relists (h.cell r).content) :
    ∃ v mid, (readFieldInOrder (h.cell r).content f (h.cell r).config).run h = (.ok v, mid) ∧
      h.Grows mid ∧ v.NewTo h ∧
      (∀ p, mid.Has p → ¬ h.Has p → ∀ w ∈ (mid.cell p.2).values, w.NewTo h) ∧
      mid.ReadsInOrder m f (h.cell r).config v := by
  obtain ⟨v, mid, hrun⟩ := readField_ok h (h.cell r).content f (h.cell r).config
  have hfield : f ∈ (h.cell r).content.descriptor.fields := by
    rw [hlisted.descriptor, hm.descriptor]
    exact hf
  have hreads : Runs ∅ ∅ h (readField (h.cell r).content f (h.cell r).config) _ :=
    readField_runs hr hfield
  have hnew : ReadNew ∅ h mid (h.cell r).content f (h.cell r).config v := (hreads.ok hrun).2
  have hown : ∀ p, mid.Has p → ¬ h.Has p → ∀ w ∈ (mid.cell p.2).values, w.NewTo h :=
    fun _ hhas hp => hnew.own hhas hp
  -- only a map is listed in another order than it was read in
  by_cases hmap : f.isMap = true
  · cases hnew.reads with
    | @map q hq hc =>
      refine ⟨_, _, readFieldInOrder_map hrun, ?_, hnew.new, fun p hp hno w hw => ?_, ?_⟩
      · refine Heap.Grows.of_alters hnew.grows (mid.alters_put (s := .map) q _) ?_ nofun
        rintro p rfl
        exact hnew.new.not_has rfl
      · by_cases hpq : p = ⟨.map, q⟩
        · subst hpq
          rw [mid.cell_put_self (s := .map) q _ hq] at hw
          obtain ⟨e, he, hw⟩ := List.mem_flatMap.1 hw
          exact hown _ hq hno w (List.mem_flatMap.2 ⟨e, List.mem_mergeSort.1 he, hw⟩)
        · rw [mid.cell_put_of_place_ne (s := .map) hpq] at hw
          exact hown p (Heap.has_put.1 hp) hno w hw
      · have hentries := Heap.listsInOrder_inKeyOrder (hm.entriesOf hf hmap) (hlisted.entriesOf f) hc.entries
        refine .map hmap (Heap.has_put.2 hq) ?_ ?_ ?_ <;> rw [mid.cell_put_self (s := .map) q _ hq]
        · exact hc.sameField
        · exact hc.sameConfig
        · obtain ⟨⟨aligned, haligned, hshows⟩, hascend⟩ := hentries
          exact ⟨⟨aligned, haligned, hshows.imp fun _ _ hshow => ⟨hshow.1, hshow.2.put_map q _⟩⟩, hascend⟩
    | list _ hc => exact absurd hmap (by simp [hc.notMap])
    | absent hno | single hno => exact absurd hmap (by simp [hno])
  · have hmap : f.isMap = false := by simpa using hmap
    refine ⟨v, mid, readFieldInOrder_other hrun ?_, hnew.grows, hnew.new, hown,
      .other hmap hlisted hnew.reads⟩
    rintro q rfl
    exact absurd hnew.reads.of_map.2.isMap (by simp [hmap])

end Script

namespace Heap

variable {p : Pool} {h g g' k k' : Heap} {r : Ref .message} {name : String}

/-- What an attribute of a message gives on a heap `g` on which views and maps are found in any order:
what the message keeps, nothing if it has no such field, or what the field is read as, which it then
keeps. -/
inductive AttrGives (h g : Heap) (r : Ref .message) (name : String) : Option Value → Heap → Prop
  | kept {v : Value} (hv : lookupName name (h.cell r).views = some v) : AttrGives h g r name (some v) g
  | absent (hnone : lookupName name (h.cell r).views = none)
    (hf : (h.cell r).content.descriptor.field? name = none) : AttrGives h g r name none g
  | first {f : FieldDescriptor} {v : Value} {mid : Heap}
    (hnone : lookupName name (h.cell r).views = none)
    (hf : (h.cell r).content.descriptor.field? name = some f) (hgrows : g.Grows mid)
    (hv : mid.ReadsInOrder (h.cell r).content f (h.cell r).config v) :
    AttrGives h g r name (some v)
      (mid.put r { g.cell r with views := (g.cell r).views ++ [(name, v)] })

/-- An entry with a name of its own is found. -/
theorem lookupName_of_mem {α : Type} {entries : List (String × α)} {a : α}
    (hnodup : (entries.map (·.1)).Nodup) (ha : (name, a) ∈ entries) :
    lookupName name entries = some a := by
  obtain ⟨b, hb⟩ : ∃ b, lookupName name entries = some b := by
    refine Option.isSome_iff_exists.1 ?_
    rw [lookupName, Option.isSome_map, List.find?_isSome]
    exact ⟨_, ha, by simp⟩
  have hsame := List.inj_on_of_nodup_map hnodup ha (Script.mem_of_lookupName hb) rfl
  rw [hb, (Prod.mk.inj hsame).2]

/-- What is found does not depend on the order. -/
theorem lookupName_perm {α : Type} {xs ys : List (String × α)} (hperm : xs.Perm ys)
    (hnodup : (xs.map (·.1)).Nodup) : lookupName name ys = lookupName name xs := by
  have hnodup' := (hperm.map (·.1)).nodup_iff.1 hnodup
  refine Option.ext fun a => ⟨fun ha => ?_, fun ha => ?_⟩
  · exact lookupName_of_mem hnodup (hperm.mem_iff.2 (Script.mem_of_lookupName ha))
  · exact lookupName_of_mem hnodup' (hperm.mem_iff.1 (Script.mem_of_lookupName ha))

/-- **Attributes do not depend on the order** in which views and maps are found. -/
theorem Relists.attr (hg : h.Relists g) (ht : h.Typed p) (hr : h.Has ⟨.message, r⟩) (name : String) :
    ∃ found k, (Script.attrInOrder r name).run g = (.ok found, k) ∧ h.AttrGives g r name found k := by
  have hlookup : lookupName name (g.cell r).views = lookupName name (h.cell r).views :=
    lookupName_perm (hg.views r).symm (ht.message hr).distinct
  have hfield := congrArg (·.field? name) (hg.descriptor r)
  rcases hviews : lookupName name (h.cell r).views with _ | v
  · rcases hf : (h.cell r).content.descriptor.field? name with _ | f
    · exact ⟨none, g, Script.attrBy_absent (hlookup.trans hviews) (hfield.trans hf), .absent hviews hf⟩
    · have hrg : g.Has ⟨.message, r⟩ := (hg.has _).2 hr
      obtain ⟨v, mid, hrun, hgrows, hnew, hown, hreads⟩ := Script.readFieldInOrder_first (ht.takes hr)
        (MessageDescriptor.field?_eq_some.1 hf).1 hrg (hg.content r)
      have hrun' := Script.attrBy_first (hlookup.trans hviews) (hfield.trans hf) hrun
      have hcell : mid.cell r = g.cell r := hgrows.cell hrg
      rw [hg.config r] at hreads
      rcases Bool.eq_false_or_eq_true (g.cell r).frozen with hyes | hno
      · rw [if_pos hyes] at hrun'
        have hfrozen : g.Grows (mid.freeze v) := Script.grows_freeze hgrows hown hnew
        have hcell' : (mid.freeze v).cell r = g.cell r := hfrozen.cell hrg
        simp only [hcell'] at hrun'
        exact ⟨_, _, hrun', .first hviews hf hfrozen (hreads.lasts (lasts_freezeAll mid [v]))⟩
      · rw [if_neg (by rw [hno]; decide)] at hrun'
        simp only [hcell] at hrun'
        exact ⟨_, _, hrun', .first hviews hf hgrows hreads⟩
  · exact ⟨some v, g, Script.attrBy_kept (hlookup.trans hviews), .kept hviews⟩

/-- A field of a message is read as the same on heaps on which maps are found in any order, unless it
is read as an object. -/
theorem ReadsInOrder.eq_of_ref? {m : Message} {f : FieldDescriptor} {config : Config} {v w : Value}
    (hv : g.ReadsInOrder m f config v) (hw : g'.ReadsInOrder m f config w)
    (hnone : v.ref? = none ∨ w.ref? = none) : w = v := by
  cases hv with
  | map hmap =>
    cases hw with
    | map => rcases hnone with h | h <;> cases h
    | other hno => exact absurd hmap (by simp [hno])
  | other hmap hn hv =>
    cases hw with
    | map hyes => exact absurd hyes (by simp [hmap])
    | other _ hn' hw =>
      have scalar {n n' : Message} (hn : m.Relists n) (hn' : m.Relists n') (s : Scalar)
          (hs : n.get f = .scalar s) : n'.get f = .scalar s := by
        have hget := hn.get f
        rw [hs] at hget
        cases hm : m.get f <;> rw [hm] at hget <;> cases hget
        exact Stored.Relists.scalar_iff.1 (hm ▸ hn'.get f)
      have hhas := (hn.has f).trans (hn'.has f).symm
      rcases hnone with hnone | hnone
      · exact hv.eq_of_ref? hw hhas.symm (scalar hn hn') hnone
      · exact (hw.eq_of_ref? hv hhas (scalar hn' hn) hnone).symm

/-- An attribute is there on both of two such heaps or on neither, and is the same value unless it is
an object on both. -/
theorem AttrGives.agree {found found' : Option Value} (hv : h.AttrGives g r name found k)
    (hw : h.AttrGives g' r name found' k') : found'.isSome = found.isSome ∧
      ∀ v ∈ found, ∀ w ∈ found', v.ref? = none ∨ w.ref? = none → w = v := by
  -- a view that is kept is the same; new ones are alike, if they refer to nothing
  cases hv with
  | kept hv =>
    cases hw with
    | kept hw =>
      obtain rfl := Option.some.inj (hv.symm.trans hw)
      exact ⟨rfl, by rintro v ⟨⟩ w ⟨⟩ -; rfl⟩
    | absent hnone | first hnone =>
      rw [hv] at hnone
      cases hnone
  | absent hnone hf =>
    cases hw with
    | kept hw =>
      rw [hw] at hnone
      cases hnone
    | absent => exact ⟨rfl, nofun⟩
    | first _ hf' =>
      rw [hf] at hf'
      cases hf'
  | first hnone hf _ hv =>
    cases hw with
    | kept hw =>
      rw [hw] at hnone
      cases hnone
    | absent _ hf' =>
      rw [hf] at hf'
      cases hf'
    | first _ hf' _ hw =>
      obtain rfl := Option.some.inj (hf.symm.trans hf')
      refine ⟨rfl, ?_⟩
      rintro v ⟨⟩ w ⟨⟩ hno
      exact hv.eq_of_ref? hw hno

/-! ## Equality -/

theorem equals_message (h : Heap) (r q : Ref .message) :
    h.equals (.message r) (.message q) =
      if r = q then .ok true
      else if h.fullName r != h.fullName q then .ok false
      else
        match h.contents r, h.contents q with
        | .ok x, .ok y => .ok (x.equals y)
        | .error e, _ => .error e
        | .ok _, .error e => .error e := by
  unfold equals
  rw [equalsWithin]
  · rfl
  · simp

/-- **Whether messages are equal does not depend on the order** in which views and maps are found, if
no list or map belongs to a oneof. -/
theorem Relists.equals (hg : h.Relists g) (ht : h.Typed p) (hc : h.Closed) (hlaw : p.Lawful)
    {q : Ref .message} (hr : h.Has ⟨.message, r⟩) (hq : h.Has ⟨.message, q⟩) :
    Except.Agree Eq (h.equals (.message r) (.message q)) (g.equals (.message r) (.message q)) := by
  rw [equals_message, equals_message, hg.fullName, hg.fullName]
  split
  · exact .ok rfl
  split
  · exact .ok rfl
  rename_i hname
  have hd : (h.cell r).content.descriptor = (h.cell q).content.descriptor :=
    MessageDescriptor.eq_of_fullName (ht.message hr).among (ht.message hq).among
      (by simpa using hname : h.fullName r = h.fullName q)
  have hcr := hg.contents ht hc hlaw hr
  have hcq := hg.contents ht hc hlaw hq
  rcases hx : h.contents r with e | x <;> rcases hx' : g.contents r with e' | x' <;>
    rw [hx, hx'] at hcr <;> cases hcr
  · exact .error _ _
  rename_i hxx
  rcases hy : h.contents q with e | y <;> rcases hy' : g.contents q with e' | y' <;>
    rw [hy, hy'] at hcq <;> cases hcq
  · exact .error _ _
  rename_i hyy
  have hxd := ht.contents hc hr hx
  rw [hd] at hxd
  exact .ok (hxx.equals (ht.message hq).among hxd (ht.contents hc hq hy) hyy).symm

/-! ## Members of oneofs -/

/-- A message that is kept for a field is that of a set field, and no other member of the oneof is set
or has one. -/
theorem Typed.selected (ht : h.Typed p) (hr : h.Has ⟨.message, r⟩) {f : FieldDescriptor}
    (hf : f ∈ (h.cell r).content.descriptor.fields) {q : Ref .message}
    (hq : lookupName f.name (h.cell r).views = some (.message q)) :
    (h.cell r).content.has f = true ∧ ∀ g, f.Rivals g → (h.cell r).content.has g = false ∧
      ∀ q', lookupName g.name (h.cell r).views ≠ some (.message q') := by
  have kept {f : FieldDescriptor} (hf : f ∈ (h.cell r).content.descriptor.fields) {q : Ref .message}
      (hq : lookupName f.name (h.cell r).views = some (.message q)) :
      ∃ m, (h.cell r).content.stored? f = some (.message m) := by
    obtain ⟨f', hf', hviews⟩ := (ht.message hr).views _ (Script.mem_of_lookupName hq)
    obtain ⟨hmem, hname⟩ := MessageDescriptor.field?_eq_some.1 hf'
    obtain rfl : f' = f := MessageDescriptor.eq_of_name hmem hf hname
    cases hviews with
    | message hmap hlist hk _ _ hset =>
      obtain ⟨s, hs⟩ := Option.isSome_iff_exists.1 hset
      have hkind := ((ht.takes hr).stored hf hs).kind hmap hlist
      rw [hk] at hkind
      cases hkind with
      | scalar hno => cases hno
      | message => exact ⟨_, hs⟩
    | plain _ _ hv => cases hv
  obtain ⟨m, hm⟩ := kept hf hq
  refine ⟨by simp [Message.has, hm, Stored.isDefaultOf], fun g hg => ?_⟩
  have hnone := (ht.takes hr).siblings_eq_none hf (by rw [hm]; rfl) g hg
  refine ⟨by simp [Message.has, hnone], fun q' hq' => ?_⟩
  obtain ⟨n, hn⟩ := kept ((MessageDescriptor.mem_fields.1 hf).1 ▸ (FieldDescriptor.rivals_iff.1 hg).2.1) hq'
  rw [hnone] at hn
  cases hn

/-! ## Heaps of a run -/

theorem withShelf_shelf (h : Heap) (s : Shelf) : h.withShelf s (h.shelf s) = h := by
  cases s <;> rfl

/-- A cell that is overwritten with what it holds stays as it is. -/
theorem put_cell (h : Heap) {s : Shelf} (r : Ref s) : h.put r (h.cell r) = h := by
  have hsame : (h.shelf s).setIfInBounds r.index (h.cell r) = h.shelf s := by
    refine Array.ext (by simp) fun i hi hi' => ?_
    rw [Array.getElem_setIfInBounds]
    split
    · rename_i heq
      subst heq
      simp [cell, hi']
    · rfl
  rw [put, hsame, withShelf_shelf]

/-- On the heaps of a run, where stored maps are in order, attributes are read as `Script.messageAttr`
reads them. -/
theorem Typed.run_attrInOrder (ht : h.Typed p) (hr : h.Has ⟨.message, r⟩) (name : String) :
    (Script.attrInOrder r name).run h = (Script.messageAttr r name).run h := by
  rw [Script.messageAttr_eq]
  unfold Script.attrInOrder
  rcases hviews : lookupName name (h.cell r).views with _ | v
  · rcases hf : (h.cell r).content.descriptor.field? name with _ | f
    · rw [Script.attrBy_absent hviews hf, Script.attrBy_absent hviews hf]
    · obtain ⟨v, mid, hrun⟩ := Script.readField_ok h (h.cell r).content f (h.cell r).config
      have hmem := (MessageDescriptor.field?_eq_some.1 hf).1
      suffices hsame : (Script.readFieldInOrder (h.cell r).content f (h.cell r).config).run h =
          (.ok v, mid) by
        rw [Script.attrBy_first hviews hf hsame, Script.attrBy_first hviews hf hrun]
      by_cases hmap : ∃ q, v = .map q
      · obtain ⟨q, rfl⟩ := hmap
        have hreads : Script.Runs ∅ ∅ h (Script.readField (h.cell r).content f (h.cell r).config) _ :=
          Script.readField_runs hr hmem
        have hnew : Script.ReadNew ∅ h mid (h.cell r).content f (h.cell r).config (.map q) :=
          (hreads.ok hrun).2
        have hordered : inKeyOrder (mid.cell q).entries = (mid.cell q).entries := by
          have hc := (hnew.reads.of_map).2
          have hes := (ht.takes hr).entriesOf hmem hc.isMap
          exact (inKeyOrder_of_shows hes rfl (.refl _) hc.entries).2
        rw [Script.readFieldInOrder_map hrun, hordered]
        exact congrArg _ (mid.put_cell q)
      · exact Script.readFieldInOrder_other hrun fun q hq => hmap ⟨q, hq⟩
  · rw [Script.attrBy_kept hviews, Script.attrBy_kept hviews]

/-- What is said of a message on heaps `g` and `g'` on which the views and maps of a heap `h` are found
in any order. -/
structure OrderFree (p : Pool) (h g g' : Heap) (r : Ref .message) : Prop where
  /-- the contents are the same but for the order of entries, if no list or map belongs to a oneof -/
  contents (hlaw : p.Lawful) : Except.Agree (fun m m' => ∃ n : Message, n.Relists m ∧ n.Relists m')
    (g.contents r) (g'.contents r)
  /-- there are contents, if keys are integers, booleans or texts -/
  contents_ok (hlaw : p.Lawful) (hkeys : p.PlainKeys) : ∃ m, g.contents r = .ok m
  /-- the message equals the same messages -/
  equals (hlaw : p.Lawful) {q : Ref .message} (hq : h.Has ⟨.message, q⟩) :
    Except.Agree Eq (g.equals (.message r) (.message q)) (g'.equals (.message r) (.message q))
  /-- attributes are the same, and views of maps list the stored entries in the order of their keys -/
  attr (name : String) : ∃ found k found' k',
    (Script.attrInOrder r name).run g = (.ok found, k) ∧
      (Script.attrInOrder r name).run g' = (.ok found', k') ∧ h.AttrGives g r name found k ∧
      h.AttrGives g' r name found' k' ∧ found'.isSome = found.isSome ∧
      ∀ v ∈ found, ∀ w ∈ found', v.ref? = none ∨ w.ref? = none → w = v
  /-- they are what `Script.messageAttr` gives where maps are found in order -/
  attr_eq (name : String) : (Script.attrInOrder r name).run h = (Script.messageAttr r name).run h
  /-- dicts that stored maps are read into list the entries in the order of their keys -/
  dict {f : FieldDescriptor} (hf : f ∈ (h.cell r).content.descriptor.fields) (hmap : f.isMap = true)
    {fs : List (MapKey × Stored)} (hfs : Listing ((h.cell r).content.entriesOf f) fs) (k : Heap)
    (config : Config) : ∃ q k', k.adoptInOrder f.valueKind config (.map fs) = (.dict q, k') ∧
      k'.ListsInOrder f.valueKind config ((h.cell r).content.entriesOf f) (k'.cell q).entries
  /-- they are what `Heap.adopt` gives where maps are found in order -/
  dict_eq {f : FieldDescriptor} (hf : f ∈ (h.cell r).content.descriptor.fields) (hmap : f.isMap = true)
    (k : Heap) (config : Config) :
    k.adoptInOrder f.valueKind config (.map ((h.cell r).content.entriesOf f)) =
      k.adopt f.valueKind config (.map ((h.cell r).content.entriesOf f))
  /-- of a oneof only the selected member is kept as a message -/
  selected {f : FieldDescriptor} (hf : f ∈ (h.cell r).content.descriptor.fields) {q : Ref .message}
    (hq : lookupName f.name (h.cell r).views = some (.message q)) :
    (h.cell r).content.has f = true ∧ ∀ k, f.Rivals k → (h.cell r).content.has k = false ∧
      ∀ q', lookupName k.name (h.cell r).views ≠ some (.message q')

/-- **Nothing depends on the order** in which the views of messages and the entries of stored maps are
found, on any heap of a run; what messages hold and whether they are equal does not, if no list or map
belongs to a oneof. -/
theorem Reachable.order_free (hh : Reachable {p} h) (hg : h.Relists g) (hg' : h.Relists g')
    (hr : h.Has ⟨.message, r⟩) : OrderFree p h g g' r where
  contents hlaw := by
    have hm := hg.contents hh.typed hh.closed hlaw hr
    have hm' := hg'.contents hh.typed hh.closed hlaw hr
    exact hm.flip.trans hm'
  contents_ok hlaw hkeys := by
    obtain ⟨m, hm⟩ := hh.typed.contents_ok hh.closed hh.forest hkeys hr
    have hsame := hg.contents hh.typed hh.closed hlaw hr
    rw [hm] at hsame
    rcases hn : g.contents r with e | n <;> rw [hn] at hsame <;> cases hsame
    exact ⟨n, rfl⟩
  equals hlaw q hq := by
    have hv := hg.equals hh.typed hh.closed hlaw hr hq
    have hv' := hg'.equals hh.typed hh.closed hlaw hr hq
    exact (hv.flip.trans hv').mono fun _ _ _ ⟨_, hab, hbc⟩ => hab.symm.trans hbc
  attr name := by
    obtain ⟨found, k, hrun, hgives⟩ := hg.attr hh.typed hr name
    obtain ⟨found', k', hrun', hgives'⟩ := hg'.attr hh.typed hr name
    exact ⟨found, k, found', k', hrun, hrun', hgives, hgives', hgives.agree hgives'⟩
  attr_eq name := hh.typed.run_attrInOrder hr name
  dict_eq hf hmap k config := k.adoptInOrder_eq config ((hh.typed.takes hr).entriesOf hf hmap)
  dict hf hmap fs hfs k config := by
    have hes := (hh.typed.takes hr).entriesOf hf hmap
    obtain ⟨q, k', hrun, -, hlists⟩ := k.adoptInOrder_map config hes hfs
    exact ⟨q, k', hrun, hlists⟩
  selected hf q hq := hh.typed.selected hr hf hq

/-- A heap on which the views and maps of one message are found in another order. -/
theorem relists_put (hr : h.Has ⟨.message, r⟩) {n : Message} (hn : (h.cell r).content.Relists n)
    {views : List (String × Value)} (hviews : views.Perm (h.cell r).views) :
    h.Relists (h.put r { h.cell r with content := n, views := views }) := by
  let c : MessageCell := { h.cell r with content := n, views := views }
  -- a message has either the new cell or the one that it had
  have message (q : Ref .message) : (h.put r c).cell q = c ∧ q = r ∨ (h.put r c).cell q = h.cell q := by
    by_cases hqr : q = r
    · subst hqr
      exact .inl ⟨h.cell_put_self q c hr, rfl⟩
    · exact .inr (h.cell_put_of_ne hqr c)
  refine ⟨fun q => has_put, fun q hq => ?_, fun q => ?_, fun q => ?_, fun q => ?_, fun q => ?_⟩
  · exact h.cell_put_of_shelf_ne hq r q.2 c
  all_goals rcases message q with ⟨hcell, rfl⟩ | hcell <;> rw [hcell]
  · exact hn
  · exact .refl _
  · exact hviews

end Heap

/-! ## Rows in another order -/

namespace Sample

/-- A table with two empty ones in it. -/
def twoRows : Message :=
  .mk table [(1, .map [(.text "a", .message (.empty table)), (.text "b", .message (.empty table))])] []

/-- The same table, with the rows listed in another order. -/
def swappedRows : Message :=
  .mk table [(1, .map [(.text "b", .message (.empty table)), (.text "a", .message (.empty table))])] []

def stacked : Heap where
  messages := #[{ content := twoRows, config := {} }]

def restacked : Heap where
  messages := #[{ content := swappedRows, config := {} }]

theorem conforms_twoRows : twoRows.Conforms := by
  have row (e : MapKey × Stored) (he : e ∈ [(MapKey.text "a", Stored.message (.empty table)),
      (.text "b", .message (.empty table))]) :
      rowsField.keyKind.HoldsKey e.1 ∧ rowsField.valueKind.Holds e.2 := by
    rcases List.mem_pair.1 he with rfl | rfl <;> exact ⟨rfl, .message rfl (.empty table)⟩
  refine (Message.Conforms.empty table).set (f := rowsField) (.head _)
    (.map rfl (fun e he => (row e he).1) (fun e he => (row e he).2) ?_)
  exact List.pairwise_pair.2 ⟨by decide, by decide⟩

theorem reachable_stacked : Heap.Reachable {tables} stacked := by
  have hrun : ((Operation.wrap ⟨tables, {}⟩ twoRows).run {}).2 = stacked := rfl
  rw [← hrun]
  exact .single (.operation _ ⟨nofun, nofun, ⟨Set.mem_singleton _, by decide⟩, conforms_twoRows⟩)

theorem relists_twoRows : twoRows.Relists swappedRows := by
  refine Message.relists_iff.2 ⟨rfl, rfl, .cons ⟨rfl, ?_⟩ .nil⟩
  exact Stored.Relists.map_iff.2 ⟨_, rfl, _, List.forall₂_same.2 fun e _ => ⟨rfl, .refl _⟩, .swap _ _ _⟩

/-- The rows of the table are the same in whatever order they are found. -/
theorem restacked_order_free : tables.Lawful ∧ tables.PlainKeys ∧ Heap.Reachable {tables} stacked ∧
    stacked.Relists restacked ∧ stacked.Has ⟨.message, root⟩ ∧
    stacked.OrderFree tables stacked restacked root := by
  have hroot : stacked.Has ⟨.message, root⟩ := (by decide : 0 < 1)
  have hsame : stacked.Relists stacked := stacked.relists_put hroot (.refl _) (.refl _)
  have hswapped : stacked.Relists restacked := stacked.relists_put hroot relists_twoRows (.refl _)
  exact ⟨by decide, by decide, reachable_stacked, hswapped, hroot,
    Heap.Reachable.order_free reachable_stacked hsame hswapped hroot⟩

/-! ### Two lists in a oneof -/

/-- The lists were read, and the views of them are found in another order. -/
def swappedViews : Heap where
  messages := #[{
    content := .empty pair
    views := [("second", .repeated ⟨1⟩), ("first", .repeated ⟨0⟩)]
    config := {} }]
  repeateds := #[{ field := firstField, config := {} }, { field := secondField, config := {} }]

/-- **Where two lists belong to a oneof**, what the message holds depends on the order in which the
views of them are found: the list that is written back last is the selected one. -/
theorem last_view_is_selected :
    ¬ pairs.Lawful ∧ pairs.PlainKeys ∧ Heap.Reachable {pairs} bothRead ∧
      bothRead.Has ⟨.message, root⟩ ∧ bothRead.Relists swappedViews ∧
      ∃ m m', bothRead.contents root = .ok m ∧ swappedViews.contents root = .ok m' ∧
        m.has secondField = true ∧ m'.has secondField = false ∧ m.equals m' = false := by
  have hroot : bothRead.Has ⟨.message, root⟩ := (by decide : 0 < 1)
  have hcontents : bothRead.contents root = .ok (.mk pair [(2, .list [])] []) := by
    rw [Heap.contents_eq]
    rfl
  have hswapped : swappedViews.contents root = .ok (.mk pair [(1, .list [])] []) := by
    rw [Heap.contents_eq]
    rfl
  refine ⟨by decide, by decide, reachable_bothRead, hroot,
    bothRead.relists_put hroot (.refl _) (.swap _ _ _), _, _, hcontents, hswapped, rfl, rfl, ?_⟩
  refine Bool.eq_false_iff.2 fun hequal => ?_
  have hsecond := (Message.equals_iff.1 hequal).2 secondField (.tail _ (.head _))
  exact absurd hsecond (by decide)

end Sample

end Protoscript
