import Protoscript.Proofs.Equivalence
import Protoscript.Proofs.Packing
import Protoscript.Proofs.Shown
import Protoscript.Proofs.Symmetry
import Protoscript.Proofs.Widening

/-!
# Values are equal if what they stand for is

There are two equalities: that of stored data, which goes by the types, and that of values, which goes by
what the values are and looks for keys in the order of the entries. They agree on values that stand for
stored data of one type. Numbers of different types, which only the second one compares, do not meet
there.

* `Kind.HoldsScalar.equals_toValue` — scalars;
* `Stored.equals_mapOfEntries` — maps, by their entries in any order;
* `Heap.Means.equals` — single values, messages among them;
* `Heap.Presents.equals` — values that stand for what a field holds.
-/

namespace Protoscript

/-! ## Scalars -/

section

variable {h : Heap} {depth : Nat} {kind : Kind}

/-- What a scalar is read as holds no other values. -/
theorem Scalar.equalsWithin_toValue (s : Scalar) (v : Value) :
    h.equalsWithin depth (s.toValue kind) v = h.flatEquals (s.toValue kind) v := by
  have hleaf : (∀ xs, s.toValue kind ≠ .tuple xs) ∧ h.sequenceItems? (s.toValue kind) = none ∧
      h.mappingEntries? (s.toValue kind) = none := by
    cases s with
    | bytes b =>
      rcases hb : ofUtf8? b with _ | t <;>
        simp [toValue, hb, Heap.sequenceItems?, Heap.mappingEntries?]
    | enumNumber n => cases kind <;> simp [toValue, Heap.sequenceItems?, Heap.mappingEntries?]
    | _ => simp [toValue, Heap.sequenceItems?, Heap.mappingEntries?]
  exact Heap.equalsWithin_leaf hleaf.1 hleaf.2.1 hleaf.2.2

/-- Bytes that are texts are equal if the texts are. -/
theorem flatEquals_bytes (a b : List UInt8) : h.flatEquals ((Scalar.bytes a).toValue kind)
    ((Scalar.bytes b).toValue kind) = .ok (a == b) := by
  rcases ha : ofUtf8? a with _ | s <;> rcases hb : ofUtf8? b with _ | t <;>
    simp only [Scalar.toValue, ha, hb, Heap.flatEquals]
  · have hne : a ≠ b := fun he => by
      rw [he, hb] at ha
      cases ha
    simp [hne]
  · have hne : a ≠ b := fun he => by
      rw [he, hb] at ha
      cases ha
    simp [hne]
  · have hst : s = t ↔ a = b := by
      refine ⟨fun he => ?_, fun he => ?_⟩
      · rw [← utf8Bytes_of_ofUtf8? ha, ← utf8Bytes_of_ofUtf8? hb, he]
      · rw [he, hb] at ha
        exact (Option.some.inj ha).symm
    rw [Bool.eq_iff_iff.2 (beq_iff_eq.trans (hst.trans beq_iff_eq.symm))]

/-- **Scalars of a type are equal as values if they are equal as stored.** -/
theorem Kind.HoldsScalar.equals_toValue {s t : Scalar} (hs : kind.HoldsScalar s)
    (ht : kind.HoldsScalar t) :
    h.equalsWithin depth (s.toValue kind) (t.toValue kind) = .ok (s.equals t) := by
  rw [s.equalsWithin_toValue]
  cases kind with
  | message d => cases hs
  | enum d =>
    cases s with
    | enumNumber m =>
      cases t with
      | enumNumber n =>
        simp [Scalar.toValue, Heap.flatEquals, EnumValue.equals, EnumValue.enumName, Scalar.equals]
      | _ => cases ht
    | _ => cases hs
  | scalar type =>
    have hstorage : s.storage? = t.storage? := Eq.trans hs (Eq.symm ht)
    cases s <;> cases t <;> try simp [Scalar.storage?] at hstorage
    case scalar.bytes.bytes a b => exact (flatEquals_bytes a b).trans (by simp [Scalar.equals])
    case scalar.enumNumber.enumNumber => cases hs
    case scalar.f32.f32 x y =>
      exact congrArg Except.ok (Single.equals_toDouble x y)
    all_goals simp [Scalar.toValue, Heap.flatEquals, Scalar.equals, Int32.toInt_inj, Int64.toInt_inj,
      UInt32.toNat_inj, UInt64.toNat_inj]

end

/-! ## Maps -/

section

variable {key : MapKey} {value : Stored} {entries : List (MapKey × Stored)}

/-- A new key is put into a map besides the others. -/
theorem perm_insertKey (hkey : key ∉ entries.map (·.1)) :
    (insertKey key value entries).Perm ((key, value) :: entries) := by
  induction entries with
  | nil => exact .refl _
  | cons e rest ih =>
    rw [List.map_cons, List.mem_cons, not_or] at hkey
    rw [insertKey, if_neg (Ne.symm hkey.1)]
    split
    · exact ((ih hkey.2).cons e).trans (.swap _ _ _)
    · exact .refl _

/-- A map of entries with distinct keys has these entries. -/
theorem perm_mapOfEntries (hnodup : (entries.map (·.1)).Nodup) :
    (mapOfEntries entries).Perm entries := by
  have step (done : List (MapKey × Stored)) (hdone : ((done ++ entries).map (·.1)).Nodup) :
      (entries.foldl (fun m e => insertKey e.1 e.2 m) done).Perm (done ++ entries) := by
    induction entries generalizing done with
    | nil => rw [List.foldl_nil, List.append_nil]
    | cons e rest ih =>
      have hmiddle : (done ++ e :: rest).Perm (e :: (done ++ rest)) := List.perm_middle
      have hnew : e.1 ∉ (done ++ rest).map (·.1) :=
        (List.nodup_cons.1 ((hmiddle.map (·.1)).nodup_iff.1 hdone)).1
      have hinsert : (insertKey e.1 e.2 done).Perm (e :: done) :=
        perm_insertKey fun hmem => hnew (by rw [List.map_append]; exact List.mem_append_left _ hmem)
      have hall : (insertKey e.1 e.2 done ++ rest).Perm (done ++ e :: rest) :=
        (hinsert.append_right rest).trans hmiddle.symm
      rw [List.foldl_cons]
      exact (ih (List.nodup_cons.1 hnodup).2 _ ((hall.map (·.1)).nodup_iff.2 hdone)).trans hall
  exact step [] hnodup

/-- It has the value of each key. -/
theorem lookupKey_mapOfEntries_eq (hnodup : (entries.map (·.1)).Nodup) :
    lookupKey key (mapOfEntries entries) = lookupKey key entries := by
  have hperm := perm_mapOfEntries hnodup
  refine Option.ext fun s => ⟨fun hs => ?_, fun hs => ?_⟩
  · exact lookupKey_of_mem hnodup (hperm.mem_iff.1 (lookupKey_mem hs))
  · exact lookupKey_of_mem ((hperm.map (·.1)).nodup_iff.2 hnodup) (hperm.mem_iff.2 (lookupKey_mem hs))

end

/-- Maps of entries with distinct keys are equal if the keys of the entries have equal values. -/
theorem Stored.equals_mapOfEntries {es fs : List (MapKey × Stored)} (hes : (es.map (·.1)).Nodup)
    (hfs : (fs.map (·.1)).Nodup) :
    (Stored.map (mapOfEntries es)).equals (.map (mapOfEntries fs)) = true ↔
      es.length = fs.length ∧ ∀ e ∈ es, ∃ t, lookupKey e.1 fs = some t ∧ e.2.equals t = true := by
  rw [Stored.equals, Bool.and_eq_true, beq_iff_eq, Stored.mapWithin_iff,
    (perm_mapOfEntries hes).length_eq, (perm_mapOfEntries hfs).length_eq]
  refine and_congr_right fun _ => forall_congr' fun e => ?_
  rw [(perm_mapOfEntries hes).mem_iff, lookupKey_mapOfEntries_eq hfs]

/-! ## Values that stand for stored values -/

namespace Heap

variable {h : Heap} {depth : Nat} {kind : Kind} {v w : Value} {s t : Stored}

/-- Messages are compared by what they hold, at any depth. -/
theorem equalsWithin_message (q q' : Ref .message) :
    h.equalsWithin depth (.message q) (.message q') = h.flatEquals (.message q) (.message q') :=
  equalsWithin_leaf (fun _ ha => by cases ha) rfl rfl

/-- **Values that stand for stored values are equal if these are.** What is stored equals itself,
since a message equals itself whatever it holds. -/
theorem Means.equals (hv : h.Means kind v s) (hw : h.Means kind w t) (hself : s.equals s = true) :
    h.equalsWithin depth v w = .ok (s.equals t) := by
  cases hv with
  | @scalar x x' hx hx' =>
    cases hw with
    | @scalar y y' hy hy' =>
      rw [hx.equals_toValue hy, Stored.equals, ← Scalar.equals_canonical x', hx',
        Scalar.equals_canonical, Scalar.equals_comm x, ← Scalar.equals_canonical y, ← hy',
        Scalar.equals_canonical, Scalar.equals_comm x]
    | message hk =>
      rw [hk] at hx
      cases hx
  | @message q m hk hm =>
    cases hw with
    | scalar hy =>
      rw [hk] at hy
      cases hy
    | @message q' n hk' hn =>
      have hflat : h.equalsWithin depth (.message q) (.message q') =
          h.equals (.message q) (.message q') := by
        rw [Heap.equals, equalsWithin_message, equalsWithin_message]
      rw [hflat]
      by_cases hq : q = q'
      · subst hq
        obtain rfl := Except.ok.inj (hm.symm.trans hn)
        rw [hself, Heap.equals, equalsWithin_message]
        simp [flatEquals]
      · rw [equals_messages hq hm hn (Kind.message.inj (hk'.symm.trans hk)), Stored.equals]

/-- So are lists of them. -/
theorem listEquals_means {xs ys : List Value} {ss ts : List Stored}
    (hxs : List.Forall₂ (h.Means kind) xs ss) (hys : List.Forall₂ (h.Means kind) ys ts)
    (hself : ∀ s ∈ ss, s.equals s = true) :
    listEquals (h.equalsWithin depth) xs ys = .ok true ↔ Stored.listEquals ss ts = true := by
  rw [listEquals_ok_true, Stored.listEquals_iff]
  induction hxs generalizing ys ts with
  | nil => cases hys <;> simp
  | @cons x s xs ss hx _ ih =>
    cases hys with
    | nil => simp
    | cons hy hys =>
      rw [List.forall₂_cons, List.forall₂_cons, hx.equals hy (hself s List.mem_cons_self), Except.ok.injEq,
        ih hys fun s hs => hself s (.tail _ hs)]

/-- Whether an entry of a view of a map field stands for a stored entry. -/
structure MeansEntry (h : Heap) (f : FieldDescriptor) (e : Value × Value) (d : MapKey × Stored) :
    Prop where
  key : e.1 = d.1.toValue
  holds : f.keyKind.HoldsKey d.1
  value : h.Means f.valueKind e.2 d.2

section

variable {f : FieldDescriptor}

/-- Keys are equal as values if they are one key. -/
theorem equalsWithin_keys {a b : MapKey} (ha : kind.HoldsKey a) (hb : kind.HoldsKey b) :
    h.equalsWithin depth a.toValue b.toValue = .ok (decide (a = b)) := by
  rw [MapKey.toValue_eq kind, MapKey.toValue_eq kind, Kind.HoldsScalar.equals_toValue ha hb]
  cases a <;> cases b <;> simp [MapKey.toScalar, Scalar.equals, beq_eq_decide]

/-- The entry that is found for a key stands for the one that is stored for it. -/
theorem find_means {e : Value × Value} {d : MapKey × Stored} {ys : List (Value × Value)}
    {fs : List (MapKey × Stored)} (he : h.MeansEntry f e d) (hself : d.2.equals d.2 = true)
    (hys : List.Forall₂ (h.MeansEntry f) ys fs) :
    (∃ y, (ys.find? fun y => (h.equalsWithin depth y.1 e.1).toOption == some true) = some y ∧
        h.equalsWithin depth e.2 y.2 = .ok true) ↔
      ∃ t, lookupKey d.1 fs = some t ∧ d.2.equals t = true := by
  induction hys with
  | nil => simp [lookupKey]
  | @cons y k ys fs hy _ ih =>
    rw [List.find?_cons, lookupKey, hy.key, he.key, equalsWithin_keys hy.holds he.holds]
    by_cases hkey : k.1 = d.1
    · simp [hkey, Except.toOption, he.value.equals hy.value hself]
    · rw [he.key] at ih
      rw [decide_eq_false hkey, if_neg hkey]
      exact ih

/-- So are mappings of them. -/
theorem mappingWithin_means {xs ys : List (Value × Value)} {es fs : List (MapKey × Stored)}
    (hxs : List.Forall₂ (h.MeansEntry f) xs es) (hys : List.Forall₂ (h.MeansEntry f) ys fs)
    (hself : ∀ e ∈ es, e.2.equals e.2 = true) :
    mappingWithin (h.equalsWithin depth) xs ys = .ok true ↔
      ∀ e ∈ es, ∃ t, lookupKey e.1 fs = some t ∧ e.2.equals t = true := by
  rw [mappingWithin_ok_true]
  induction hxs with
  | nil => simp
  | @cons x e xs es hx _ ih =>
    rw [List.forall_mem_cons, List.forall_mem_cons, ih fun e he => hself e (.tail _ he),
      find_means hx (hself e List.mem_cons_self) hys]

end

/-! ## Views -/

section

variable {p : Pool} {f : FieldDescriptor} (hkeys : p.PlainKeys) (hh : Reachable {p} h)

include hkeys hh

/-- What may lie in a view stands for what it is stored as. -/
theorem Fits.means {config : Config} (hv : h.Fits kind v)
    (hs : kind.toStored h h.contents v config = .ok s) : h.Means kind v s := by
  cases hv with
  | @scalar x hx =>
    obtain ⟨t, ht, hcanonical⟩ := Kind.scalarToStored_toValue hx
    obtain rfl := Except.ok.inj (hs.symm.trans (Kind.toStored_of_scalarToStored ht))
    exact .scalar hx hcanonical
  | @message d q hk hq hd =>
    subst hk
    obtain ⟨m, hm, hmd⟩ := hh.exists_contents hkeys hq
    obtain rfl := Except.ok.inj (hs.symm.trans (toStored_message hd hm (hmd.trans hd)))
    exact .message (by rw [hmd, hd]) hm

/-- The items of a view stand for the items that it stores. -/
theorem Reachable.items_means {q : Ref .repeated} (hq : h.Has ⟨.repeated, q⟩)
    (hs : h.repeatedContents q = .ok s) : ∃ items, s = .list items ∧
      List.Forall₂ (h.Means (h.cell q).kind) (h.cell q).items items := by
  obtain ⟨items, hitems, rfl⟩ := Except.map_ok.1 hs
  refine ⟨items, rfl, forall₂_of_mem (Except.mapM_ok.1 hitems) fun v hv s _ hstored => ?_⟩
  exact ((hh.typed.repeated hq).items v hv).means hkeys hh hstored

/-- The entries of a view stand for the entries that it stores. -/
theorem Reachable.entries_means {q : Ref .map} (hq : h.Has ⟨.map, q⟩)
    (hmap : (h.cell q).field.isMap = true) (hs : h.mapContents q = .ok s) :
    ∃ entries, s = .map (mapOfEntries entries) ∧ (entries.map (·.1)).Nodup ∧
      List.Forall₂ (h.MeansEntry (h.cell q).field) (h.cell q).entries entries := by
  have hcell := hh.typed.map hq
  have hplain := hcell.field.isKey hkeys hmap
  have hstored : (h.cell q).toStored h h.contents = .ok s := hs
  rw [MapCell.toStored_eq] at hstored
  obtain ⟨entries, hentries, rfl⟩ := Except.map_ok.1 hstored
  refine ⟨entries, rfl, MapCell.nodup_storedEntries (hh.distinctKeys q hplain) hplain
    (fun e he => (hcell.entries e he).1) hentries, ?_⟩
  refine forall₂_of_mem (Except.mapM_ok.1 hentries) fun e he d _ hentry => ?_
  obtain ⟨hkey, hvalue⟩ := MapCell.storedEntry_ok.1 hentry
  obtain ⟨hfits, hfits'⟩ := hcell.entries e he
  obtain ⟨key, hholds, hread⟩ := hfits.exists_key hplain
  rw [hread, Kind.toMapKey_toValue hholds] at hkey
  obtain rfl := Except.ok.inj hkey
  exact ⟨hread, hholds, hfits'.means hkeys hh hvalue⟩

section

variable {q q' : Ref .repeated} (hq : h.Has ⟨.repeated, q⟩) (hq' : h.Has ⟨.repeated, q'⟩)
  (hf : (h.cell q).field = f) (hf' : (h.cell q').field = f)

include hq hq' hf hf'

/-- Views of a list field are equal if what they store is. -/
theorem Reachable.equals_repeated (hs : h.repeatedContents q = .ok s) (ht : h.repeatedContents q' = .ok t)
    (hself : s.equals s = true) :
    h.equals (.repeated q) (.repeated q') = .ok true ↔ s.equals t = true := by
  obtain ⟨ss, rfl, hxs⟩ := hh.items_means hkeys hq hs
  obtain ⟨ts, rfl, hys⟩ := hh.items_means hkeys hq' ht
  unfold RepeatedCell.kind at hxs hys
  rw [hf] at hxs
  rw [hf'] at hys
  rw [Stored.equals] at hself ⊢
  have hitems := List.forall₂_same.1 (Stored.listEquals_iff.1 hself)
  rw [Heap.equals, equalsWithin_sequence rfl rfl]
  dsimp only
  split
  · exact listEquals_means hxs hys hitems
  · rename_i hlen
    refine ⟨fun heq => (by cases heq), fun heq => absurd ?_ hlen⟩
    rw [hxs.length_eq, hys.length_eq]
    exact (Stored.listEquals_iff.1 heq).length_eq

end

section

variable {q q' : Ref .map} (hq : h.Has ⟨.map, q⟩) (hq' : h.Has ⟨.map, q'⟩)
  (hf : (h.cell q).field = f) (hf' : (h.cell q').field = f)

include hq hq' hf hf'

/-- Views of a map field are equal if what they store is. -/
theorem Reachable.equals_map (hmap : f.isMap = true) (hs : h.mapContents q = .ok s)
    (ht : h.mapContents q' = .ok t) (hself : s.equals s = true) :
    h.equals (.map q) (.map q') = .ok true ↔ s.equals t = true := by
  obtain ⟨es, rfl, hes, hxs⟩ := hh.entries_means hkeys hq (hf ▸ hmap) hs
  obtain ⟨fs, rfl, hfs, hys⟩ := hh.entries_means hkeys hq' (hf' ▸ hmap) ht
  rw [hf] at hxs
  rw [hf'] at hys
  have hvalues : ∀ e ∈ es, e.2.equals e.2 = true := by
    intro e he
    obtain ⟨u, hu, heu⟩ := ((Stored.equals_mapOfEntries hes hes).1 hself).2 e he
    obtain rfl := Option.some.inj (hu.symm.trans (lookupKey_of_mem hes he))
    exact heu
  rw [Stored.equals_mapOfEntries hes hfs, Heap.equals, equalsWithin_mapping rfl rfl,
    ← hxs.length_eq, ← hys.length_eq]
  dsimp only
  split
  · rename_i hlen
    rw [mappingWithin_means hxs hys hvalues, and_iff_right hlen]
  · rename_i hlen
    exact ⟨fun heq => (by cases heq), fun hboth => absurd hboth.1 hlen⟩

end

/-- **Values that stand for what a field holds are equal if what it holds is.** -/
theorem Presents.equals (hv : h.Presents f v s) (hw : h.Presents f w t)
    (hself : s.equals s = true) : h.equals v w = .ok true ↔ s.equals t = true := by
  cases hv with
  | map hmap hq hf hs =>
    cases hw with
    | map _ hq' hf' ht => exact hh.equals_map hkeys hq hq' hf hf' hmap hs ht hself
    | list hlist =>
      rw [FieldDescriptor.isMap_of_isList hlist] at hmap
      cases hmap
    | single hno =>
      rw [hmap] at hno
      cases hno
  | list hlist hq hf hs =>
    cases hw with
    | map hmap =>
      rw [FieldDescriptor.isMap_of_isList hlist] at hmap
      cases hmap
    | list _ hq' hf' ht => exact hh.equals_repeated hkeys hq hq' hf hf' hs ht hself
    | single _ hno =>
      rw [hlist] at hno
      cases hno
  | single hmap hlist hv =>
    cases hw with
    | map hyes =>
      rw [hmap] at hyes
      cases hyes
    | list hyes =>
      rw [hlist] at hyes
      cases hyes
    | single _ _ hw => rw [Heap.equals, hv.equals hw hself, Except.ok.injEq]

end

end Heap

end Protoscript
