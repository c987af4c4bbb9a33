import Protoscript.Proofs.Reachable

/-!
# Frozen cells

What is frozen stays frozen, and what is in a frozen cell is frozen, whatever is done.

* `Heap.Frozen.mono` — a frozen value of a heap is frozen later;
* `Heap.Change.frozenDeep`, `Heap.Reachable.frozenDeep` — in the heaps of a run, everything in a
  frozen cell is frozen;
* `Heap.Change.cell_of_frozen` — a change leaves a frozen cell as it is, unless it is a message that
  keeps what a field was read as.
-/

namespace Protoscript

/-! ## Values -/

mutual

theorem Value.All.and {P Q : Value → Prop} :
    ∀ {v : Value}, v.All P → v.All Q → v.All fun v => P v ∧ Q v
  | .tuple items, hP, hQ => by
    rw [Value.All] at hP hQ ⊢
    exact Value.AllOf.and hP hQ
  | .absent, hP, hQ | .bool _, hP, hQ | .int _, hP, hQ | .float _, hP, hQ | .text _, hP, hQ
  | .bytes _, hP, hQ | .list _, hP, hQ | .dict _, hP, hQ | .message _, hP, hQ
  | .repeated _, hP, hQ | .map _, hP, hQ | .enum _, hP, hQ | .messageType _, hP, hQ
  | .enumType _, hP, hQ | .package _, hP, hQ | .callable _, hP, hQ | .library _, hP, hQ => by
    simp only [Value.All] at hP hQ ⊢
    exact ⟨hP, hQ⟩

theorem Value.AllOf.and {P Q : Value → Prop} : ∀ {items : List Value},
    Value.AllOf P items → Value.AllOf Q items → Value.AllOf (fun v => P v ∧ Q v) items
  | [], _, _ => trivial
  | _ :: _, hP, hQ => ⟨Value.All.and hP.1 hQ.1, Value.AllOf.and hP.2 hQ.2⟩

end

namespace Heap

variable {pools : Set Pool} {h h' : Heap}

theorem Shows.ne_tuple {kind : Kind} {config : Config} {s : Stored} {v : Value}
    (hv : h.Shows kind config s v) (items : List Value) : v ≠ .tuple items := by
  cases s with
  | scalar s =>
    rw [show v = s.toValue kind from hv]
    exact Scalar.toValue_ne_tuple kind s items
  | message m =>
    obtain ⟨q, rfl, -⟩ := hv
    exact nofun
  | list items =>
    obtain ⟨q, rfl, -⟩ := hv
    exact nofun
  | map entries =>
    obtain ⟨q, rfl, -⟩ := hv
    exact nofun

/-- A field never reads as a tuple. -/
theorem Reads.ne_tuple {m : Message} {f : FieldDescriptor} {config : Config} {v : Value}
    (hv : h.Reads m f config v) (items : List Value) : v ≠ .tuple items := by
  cases hv with
  | map | list | absent => exact nofun
  | single _ _ _ hv => exact hv.ne_tuple items

/-- **What is frozen stays frozen**, if frozen cells do. -/
theorem Frozen.mono {v : Value} (hv : h.Frozen v) (hwithin : v.Within h)
    (hcells : ∀ q : Place, h.Has q → (h.cell q.2).isFrozen = true → (h'.cell q.2).isFrozen = true) :
    h'.Frozen v := by
  refine Value.All.mono (fun w hw q hq _ => ?_) (Value.All.and hv hwithin)
  have hhas : h.Has q := hw.2 q (Value.place?_of_ref? hq)
  exact hcells q hhas (hw.1 q hq hhas)

/-! ## Cells -/

theorem frozen_cell_put {s : Shelf} {r : Ref s} {c : Cell s} (hr : h.Has ⟨s, r⟩)
    (hc : (h.cell r).isFrozen = true → c.isFrozen = true) {q : Place}
    (hq : (h.cell q.2).isFrozen = true) : ((h.put r c).cell q.2).isFrozen = true := by
  by_cases hqr : q = ⟨s, r⟩
  · subst hqr
    rw [cell_put_self h r c hr]
    exact hc hq
  · rw [cell_put_of_place_ne h hqr]
    exact hq

/-- A new cell that is not frozen has nothing to do with what is frozen. -/
theorem FrozenDeep.alloc (hd : h.FrozenDeep) (hc : h.Closed) {s : Shelf} {c : Cell s}
    (hfrozen : c.isFrozen = false) : (h.alloc s c).FrozenDeep := by
  intro q hq hyes v hv
  rcases has_alloc hq with rfl | hold
  · rw [cell_alloc_self, hfrozen] at hyes
    cases hyes
  · rw [cell_alloc_of_has h c hold] at hyes hv
    refine (hd q hold hyes v hv).mono (hc q hold v hv) fun q' hq' hyes' => ?_
    rw [cell_alloc_of_has h c hq']
    exact hyes'

/-- An overwritten cell has nothing to do with what is frozen if it is not frozen itself, or if what
is in it is. -/
theorem FrozenDeep.put (hd : h.FrozenDeep) (hc : h.Closed) {s : Shelf} {r : Ref s} {c : Cell s}
    (hr : h.Has ⟨s, r⟩) (hsame : c.isFrozen = (h.cell r).isFrozen)
    (hvalues : c.isFrozen = true → ∀ v ∈ c.values, v.Within h ∧ h.Frozen v) :
    (h.put r c).FrozenDeep := by
  have stays (q : Place) (_ : h.Has q) (hq : (h.cell q.2).isFrozen = true) :
      ((h.put r c).cell q.2).isFrozen = true :=
    frozen_cell_put hr (fun hyes => hsame.trans hyes) hq
  intro q hq hyes v hv
  by_cases hqr : q = ⟨s, r⟩
  · subst hqr
    rw [cell_put_self h r c hr] at hyes hv
    obtain ⟨hwithin, hfrozen⟩ := hvalues hyes v hv
    exact hfrozen.mono hwithin stays
  · rw [cell_put_of_place_ne h hqr] at hyes hv
    have hhas := has_put.1 hq
    exact (hd q hhas hyes v hv).mono (hc q hhas v hv) stays

/-! ## Changes -/

/-- A cell that is overwritten by a change is not frozen, unless it is a message that keeps what a
field was read as. -/
theorem Change.cell_of_frozen (hh : Change pools h h') {q : Place} (hq : h.Has q)
    (hyes : (h.cell q.2).isFrozen = true) :
    h'.cell q.2 = h.cell q.2 ∨
      ∃ r name f v, q = ⟨.message, r⟩ ∧ h.KeepsView r name f v h' := by
  -- an overwritten cell that was not frozen is another one
  have other {s : Shelf} {r : Ref s} {c : Cell s} (hno : (h.cell r).isFrozen = false) :
      (h.put r c).cell q.2 = h.cell q.2 := by
    refine cell_put_of_place_ne h ?_ c
    rintro rfl
    rw [hno] at hyes
    cases hyes
  cases hh with
  | count n =>
    left
    obtain ⟨s, r⟩ := q
    cases s <;> rfl
  | list | dict | message | «repeated» | readRepeated | map | readMap =>
    exact .inl (cell_alloc_of_has h _ hq)
  | setList _ hno => exact .inl (other hno)
  | setDict _ hno => exact .inl (other hno)
  | setRepeated _ hno => exact .inl (other hno)
  | setMap _ hno => exact .inl (other hno)
  | assign _ hno => exact .inl (other hno)
  | replace _ hno => exact .inl (other hno)
  | @keep r name f v hr hnew hf hread _ _ _ _ hafter =>
    by_cases hqr : q = ⟨.message, r⟩
    · exact .inr ⟨r, name, f, v, hqr, hr, hnew, hf, hread, hafter, rfl⟩
    · exact .inl (cell_put_of_place_ne h hqr _)
  | @freeze v hv =>
    left
    rcases cell_freezeAll h [v] q with e | e
    · exact e
    · exact e.trans (Cell.freeze_of_isFrozen hyes)

/-- What is frozen stays frozen. -/
theorem Change.isFrozen (hh : Change pools h h') {q : Place} (hq : h.Has q)
    (hyes : (h.cell q.2).isFrozen = true) : (h'.cell q.2).isFrozen = true := by
  rcases hh.cell_of_frozen hq hyes with he | ⟨r, name, f, v, rfl, hkeep⟩
  · rw [he]
    exact hyes
  · rw [hkeep.eq, cell_put_self h r _ hkeep.has]
    exact hyes

/-- **What is in a frozen cell is frozen.** A change puts nothing else there. -/
theorem Change.frozenDeep (hh : Change pools h h') (hc : h.Closed) (hd : h.FrozenDeep) :
    h'.FrozenDeep := by
  -- a cell that is not frozen may hold anything
  have loose {s : Shelf} {r : Ref s} {c : Cell s} (hr : h.Has ⟨s, r⟩)
      (hno : (h.cell r).isFrozen = false) (hno' : c.isFrozen = false) : (h.put r c).FrozenDeep :=
    hd.put hc hr (hno'.trans hno.symm) fun hyes => by rw [hno'] at hyes; cases hyes
  cases hh with
  | count n =>
    intro q hq hyes v hv
    have hg := h.grows_count n
    rw [hg.cell hq] at hyes hv
    refine (hd q hq hyes v hv).mono (hc q hq v hv) fun q' hq' hyes' => ?_
    rw [hg.cell hq']
    exact hyes'
  | list hitems => exact hd.alloc (s := .list) hc rfl
  | dict hentries => exact hd.alloc (s := .dict) hc rfl
  | message hm => exact hd.alloc (s := .message) hc rfl
  | «repeated» hfrozen => exact hd.alloc (s := .repeated) hc hfrozen
  | readRepeated hfrozen => exact hd.alloc (s := .repeated) hc hfrozen
  | map hfrozen => exact hd.alloc (s := .map) hc hfrozen
  | readMap hfrozen => exact hd.alloc (s := .map) hc hfrozen
  | setList hr hno => exact loose (s := .list) hr hno hno
  | setDict hr hno => exact loose (s := .dict) hr hno hno
  | setRepeated hr hno => exact loose (s := .repeated) hr hno hno
  | setMap hr hno => exact loose (s := .map) hr hno hno
  | assign hr hno => exact loose (s := .message) hr hno hno
  | replace hr hno => exact loose (s := .message) hr hno hno
  | @keep r name f v hr hnew hf hread hfrozen =>
    refine hd.put (s := .message) hc hr rfl fun hyes w hw => ?_
    obtain ⟨view, hview, rfl⟩ := List.mem_map.1 hw
    rcases List.mem_append.1 hview with hold | hlast
    · exact ⟨hc.views hr view hold,
        hd ⟨.message, r⟩ hr hyes view.2 (List.mem_map.2 ⟨view, hold, rfl⟩)⟩
    · rw [List.mem_singleton.1 hlast]
      exact ⟨hread.within, frozen_of_ref? hread.ne_tuple fun q hq _ => hfrozen hyes q hq⟩
  | freeze hv => exact hd.freezeAll _

theorem Changes.isFrozen (hh : Changes pools h h') {q : Place} (hq : h.Has q)
    (hyes : (h.cell q.2).isFrozen = true) : (h'.cell q.2).isFrozen = true := by
  induction hh with
  | refl => exact hyes
  | tail hfirst hlast ih => exact hlast.isFrozen (Changes.has hfirst hq) ih

theorem Changes.frozenDeep (hh : Changes pools h h') (hc : h.Closed) (hd : h.FrozenDeep) :
    h'.FrozenDeep := by
  induction hh with
  | refl => exact hd
  | tail hfirst hlast ih => exact hlast.frozenDeep (Changes.closed hfirst hc) ih

/-- **In the heaps of a run, everything in a frozen cell is frozen.** -/
theorem Reachable.frozenDeep (hh : Reachable pools h) : h.FrozenDeep := by
  refine hh.changes.frozenDeep closed_empty ?_
  rintro ⟨s, r⟩ hq
  cases s <;> exact absurd hq (Nat.not_lt_zero _)

end Heap

end Protoscript
