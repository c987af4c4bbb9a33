import Protoscript.Proofs.Change
import Protoscript.Proofs.Freezing

/-!
# References lead to cells

No change makes a reference that leads nowhere.

* `Heap.Change.closed` — one change keeps the heap closed;
* `Heap.Changes.closed` — so does any number of them.
-/

namespace Protoscript

theorem exists_of_forall₂ {α β : Type} {R : α → β → Prop} {xs : List α} {ys : List β}
    (h : List.Forall₂ R xs ys) {y : β} (hy : y ∈ ys) : ∃ x ∈ xs, R x y := by
  induction h with
  | nil => cases hy
  | cons hxy _ ih =>
    rcases List.mem_cons.1 hy with rfl | hy
    · exact ⟨_, List.mem_cons_self, hxy⟩
    · obtain ⟨x, hx, hR⟩ := ih hy
      exact ⟨x, List.mem_cons_of_mem _ hx, hR⟩

/-- What pairs the items of two lists pairs the items at each position. -/
theorem getElem?_of_forall₂ {α β : Type} {R : α → β → Prop} {as : List α} {bs : List β}
    (hall : List.Forall₂ R as bs) {i : Nat} {b : β} (hb : bs[i]? = some b) :
    ∃ a, as[i]? = some a ∧ R a b := by
  induction hall generalizing i with
  | nil => cases hb
  | cons hab _ ih =>
    cases i with
    | zero =>
      cases hb
      exact ⟨_, rfl, hab⟩
    | succ i => exact ih hb

/-! ## Values that carry no reference -/

theorem Scalar.within_toValue (h : Heap) (kind : Kind) (s : Scalar) : (s.toValue kind).Within h := by
  cases s with
  | bytes b =>
    simp only [toValue]
    cases ofUtf8? b <;> exact Value.within_of_place?_none (by simp) rfl
  | enumNumber n =>
    cases kind <;> exact Value.within_of_place?_none (by simp [toValue]) rfl
  | _ => exact Value.within_of_place?_none (by simp [toValue]) rfl

theorem MapKey.within_toValue (h : Heap) (k : MapKey) : k.toValue.Within h := by
  cases k <;> exact Value.within_of_place?_none (by simp [toValue]) rfl

namespace Heap

variable {pools : Set Pool} {h h' : Heap}

theorem within_of_ref? {v : Value} {p : Place} (hv : v.ref? = some p) (hp : h.Has p) :
    v.Within h := by
  cases v <;> simp_all [Value.Within, Value.All, Value.place?, Value.ref?]

theorem Normal.within {kind : Kind} {v : Value} (hv : h.Normal kind v) : v.Within h := by
  cases hv with
  | scalar hs => exact Scalar.within_toValue h kind _
  | message hk hq hd => exact within_of_ref? rfl hq

theorem Shows.within {kind : Kind} {config : Config} {s : Stored} {v : Value}
    (hv : h.Shows kind config s v) : v.Within h := by
  cases s with
  | scalar s =>
    rw [show v = s.toValue kind from hv]
    exact Scalar.within_toValue h kind s
  | message m =>
    obtain ⟨q, rfl, hq, -⟩ := hv
    exact within_of_ref? rfl hq
  | list items =>
    obtain ⟨q, rfl, hq⟩ := hv
    exact within_of_ref? rfl hq
  | map entries =>
    obtain ⟨q, rfl, hq⟩ := hv
    exact within_of_ref? rfl hq

theorem Reads.within {m : Message} {f : FieldDescriptor} {config : Config} {v : Value}
    (hv : h.Reads m f config v) : v.Within h := by
  cases hv with
  | map hq hc => exact within_of_ref? rfl hq
  | list hq hc => exact within_of_ref? rfl hq
  | absent => exact Value.within_of_place?_none (by simp) rfl
  | single _ _ _ hv => exact hv.within

end Heap

theorem RepeatedCell.ReadFrom.within {h : Heap} {m : Message} {f : FieldDescriptor}
    {config : Config} {c : RepeatedCell} (hc : c.ReadFrom h m f config) :
    ∀ v ∈ c.items, v.Within h := by
  intro v hv
  obtain ⟨s, -, hs⟩ := exists_of_forall₂ hc.items hv
  exact hs.within

theorem MapCell.ReadFrom.within {h : Heap} {m : Message} {f : FieldDescriptor}
    {config : Config} {c : MapCell} (hc : c.ReadFrom h m f config) :
    ∀ e ∈ c.entries, e.1.Within h ∧ e.2.Within h := by
  intro e he
  obtain ⟨stored, -, hkey, hvalue⟩ := exists_of_forall₂ hc.entries he
  rw [hkey]
  exact ⟨MapKey.within_toValue h stored.1, hvalue.within⟩

namespace Heap

variable {pools : Set Pool} {h h' : Heap}

/-! ## Cells -/

/-- A new cell with values of the heap keeps the heap closed. -/
theorem Closed.alloc (hc : h.Closed) {s : Shelf} {c : Cell s}
    (hv : ∀ v ∈ Cell.values c, v.Within h) : (h.alloc s c).Closed := by
  have grow (p : Place) (hp : h.Has p) : (h.alloc s c).Has p :=
    Nat.lt_of_lt_of_le hp (size_shelf_le_alloc h s p.1 c)
  intro p hp v hmem
  rcases has_alloc hp with rfl | hold
  · rw [cell_alloc_self] at hmem
    exact (hv v hmem).mono grow
  · rw [cell_alloc_of_has h c hold] at hmem
    exact (hc p hold v hmem).mono grow

/-- Overwriting a cell with values of the heap keeps the heap closed. -/
theorem Closed.put (hc : h.Closed) {s : Shelf} {r : Ref s} (hr : h.Has ⟨s, r⟩) {c : Cell s}
    (hv : ∀ v ∈ Cell.values c, v.Within h) : (h.put r c).Closed := by
  have grow (p : Place) (hp : h.Has p) : (h.put r c).Has p := has_put.2 hp
  intro p hp v hmem
  by_cases hpr : p = ⟨s, r⟩
  · subst hpr
    rw [cell_put_self h r c hr] at hmem
    exact (hv v hmem).mono grow
  · rw [cell_put_of_place_ne h hpr] at hmem
    exact (hc p (has_put.1 hp) v hmem).mono grow

/-- The values of entries are within the heap if the parts of each entry are. -/
theorem within_of_entries {entries : List (Value × Value)}
    (he : ∀ e ∈ entries, e.1.Within h ∧ e.2.Within h) :
    ∀ v ∈ entries.flatMap fun e => [e.1, e.2], v.Within h := by
  intro v hv
  obtain ⟨e, hmem, hv⟩ := List.mem_flatMap.1 hv
  rcases List.mem_pair.1 hv with rfl | rfl
  · exact (he e hmem).1
  · exact (he e hmem).2

theorem Closed.freezeAll (hc : h.Closed) (work : List Value) : (h.freezeAll work).Closed := by
  intro p hp v hmem
  rw [values_cell_freezeAll] at hmem
  exact (hc p (has_freezeAll.1 hp) v hmem).mono fun _ => has_freezeAll.2

/-- The items of a list are within a closed heap. -/
theorem Closed.items (hc : h.Closed) {r : Ref .list} (hr : h.Has ⟨.list, r⟩) :
    ∀ v ∈ (h.cell r).items, v.Within h :=
  hc ⟨.list, r⟩ hr

theorem Closed.repeatedItems (hc : h.Closed) {r : Ref .repeated} (hr : h.Has ⟨.repeated, r⟩) :
    ∀ v ∈ (h.cell r).items, v.Within h :=
  hc ⟨.repeated, r⟩ hr

theorem Closed.dictEntries (hc : h.Closed) {r : Ref .dict} (hr : h.Has ⟨.dict, r⟩) :
    ∀ e ∈ (h.cell r).entries, e.1.Within h ∧ e.2.Within h := by
  intro e he
  have hv := hc ⟨.dict, r⟩ hr
  exact ⟨hv e.1 (List.mem_flatMap.2 ⟨e, he, by simp⟩), hv e.2 (List.mem_flatMap.2 ⟨e, he, by simp⟩)⟩

theorem Closed.mapEntries (hc : h.Closed) {r : Ref .map} (hr : h.Has ⟨.map, r⟩) :
    ∀ e ∈ (h.cell r).entries, e.1.Within h ∧ e.2.Within h := by
  intro e he
  have hv := hc ⟨.map, r⟩ hr
  exact ⟨hv e.1 (List.mem_flatMap.2 ⟨e, he, by simp⟩), hv e.2 (List.mem_flatMap.2 ⟨e, he, by simp⟩)⟩

theorem Closed.views (hc : h.Closed) {r : Ref .message} (hr : h.Has ⟨.message, r⟩) :
    ∀ view ∈ (h.cell r).views, view.2.Within h := by
  intro view hview
  exact hc ⟨.message, r⟩ hr view.2 (List.mem_map.2 ⟨view, hview, rfl⟩)

/-- What a container gives is within a closed heap. -/
theorem Closed.iterate (hc : h.Closed) {v : Value} (hv : v.Within h) {items : List Value}
    (hi : h.iterate v = .ok items) : ∀ w ∈ items, w.Within h := by
  unfold Heap.iterate at hi
  split at hi <;> cases hi
  · exact Value.within_tuple.1 hv
  · exact hc.items (hv.has rfl)
  · exact hc.repeatedItems (hv.has rfl)
  · intro w hw
    obtain ⟨e, he, rfl⟩ := List.mem_map.1 hw
    exact (hc.dictEntries (hv.has rfl) e he).1
  · intro w hw
    obtain ⟨e, he, rfl⟩ := List.mem_map.1 hw
    exact (hc.mapEntries (hv.has rfl) e he).1

theorem Closed.mappingEntries (hc : h.Closed) {v : Value} (hv : v.Within h)
    {entries : List (Value × Value)} (he : h.mappingEntries? v = some entries) :
    ∀ e ∈ entries, e.1.Within h ∧ e.2.Within h := by
  unfold Heap.mappingEntries? at he
  split at he <;> cases he
  · exact hc.dictEntries (hv.has rfl)
  · exact hc.mapEntries (hv.has rfl)

/-- So are the pairs that a map is updated with. -/
theorem Closed.pairsOf (hc : h.Closed) {v : Value} (hv : v.Within h) {pairs : List (Value × Value)}
    (hp : h.pairsOf v = .ok pairs) : ∀ p ∈ pairs, p.1.Within h ∧ p.2.Within h := by
  unfold Heap.pairsOf at hp
  split at hp
  · rename_i entries he
    cases hp
    exact hc.mappingEntries hv he
  split at hp
  case h_4 => cases hp
  all_goals
    split at hp
    · cases hp
    rename_i items hi
    have hitems := hc.iterate hv hi
    intro p hmem
    obtain ⟨pair, hpair, hsplit⟩ := exists_of_forall₂ (Except.mapM_ok.1 hp) hmem
    split at hsplit
    · cases hsplit
    · rename_i key value hparts
      cases hsplit
      have hboth := hc.iterate (hitems pair hpair) hparts
      exact ⟨hboth key (.head _), hboth value (.tail _ (.head _))⟩
    · cases hsplit

/-! ## Changes -/

theorem Change.has (hh : h.Change pools h') {p : Place} (hp : h.Has p) : h'.Has p := by
  cases hh
  case freeze => exact has_freezeAll.2 hp
  case count => exact hp
  all_goals first
    | exact has_put.2 hp
    | exact Nat.lt_of_lt_of_le hp (size_shelf_le_alloc h _ p.1 _)

theorem Changes.has (hh : h.Changes pools h') {p : Place} (hp : h.Has p) : h'.Has p := by
  induction hh with
  | refl => exact hp
  | tail _ hlast ih => exact hlast.has ih

/-- **References lead to cells.** A change brings none that does not. -/
theorem Change.closed (hh : Change pools h h') (hc : h.Closed) : h'.Closed := by
  -- a cell holds what is there already: old items, checked values or what was read
  cases hh with
  | count n => exact hc
  | list hitems => exact hc.alloc hitems
  | dict hentries => exact hc.alloc (within_of_entries hentries)
  | message hm => exact hc.alloc fun v hv => absurd hv List.not_mem_nil
  | repeated hfrozen hf hitems =>
    refine hc.alloc fun v hv => ?_
    rcases hitems v hv with hv | ⟨q, hq, -, hv⟩
    · exact hv.within
    · exact hc.repeatedItems hq v hv
  | readRepeated hfrozen hr hf hread => exact hc.alloc hread.within
  | map hfrozen hf hentries hdistinct =>
    exact hc.alloc (within_of_entries fun e he => ⟨(hentries e he).1.within, (hentries e he).2.within⟩)
  | readMap hfrozen hr hf hread => exact hc.alloc (within_of_entries hread.within)
  | setList hr hfrozen hitems => exact hc.put hr hitems
  | setDict hr hfrozen hentries => exact hc.put hr (within_of_entries hentries)
  | setRepeated hr hfrozen hitems hnodup =>
    refine hc.put hr fun v hv => ?_
    rcases hitems v hv with hold | ⟨hnormal, -⟩
    · exact hc.repeatedItems hr v hold
    · exact hnormal.within
  | setMap hr hfrozen hkeys hvalues hnodup hdistinct =>
    refine hc.put hr (within_of_entries fun e he => ⟨?_, ?_⟩)
    · rcases hkeys e he with hold | hnormal
      · obtain ⟨e', he', heq⟩ := List.mem_map.1 hold
        exact heq ▸ (hc.mapEntries hr e' he').1
      · exact hnormal.within
    · rcases hvalues e he with hold | ⟨hnormal, -⟩
      · obtain ⟨e', he', heq⟩ := List.mem_map.1 hold
        exact heq ▸ (hc.mapEntries hr e' he').2
      · exact hnormal.within
  | assign hr hfrozen hf hs =>
    refine hc.put hr fun v hv => ?_
    obtain ⟨view, hview, rfl⟩ := List.mem_map.1 hv
    exact hc.views hr view (List.mem_filter.1 hview).1
  | replace hr hfrozen hm => exact hc.put hr fun v hv => absurd hv List.not_mem_nil
  | keep hr hnew hf hread hfrozen hfresh helements hnodup hafter =>
    refine hc.put hr fun v hv => ?_
    obtain ⟨view, hview, rfl⟩ := List.mem_map.1 hv
    rcases List.mem_append.1 hview with hold | hlast
    · exact hc.views hr view hold
    · rw [List.mem_singleton.1 hlast]
      exact hread.within
  | freeze hv => exact hc.freezeAll _

theorem Changes.closed (hh : h.Changes pools h') (hc : h.Closed) : h'.Closed := by
  induction hh with
  | refl => exact hc
  | tail _ hlast ih => exact hlast.closed ih

end Heap

end Protoscript
