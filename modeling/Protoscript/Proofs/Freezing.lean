import Protoscript.Proofs.Growth

/-!
# What freezing does

* `Heap.cell_freezeAll` — freezing leaves cells as they are, up to their being frozen;
* `Heap.Frozen` — a value, or every part of it, is frozen;
* `Heap.FrozenDeep` — what is in frozen cells is frozen; freezing keeps this, and what was frozen is
  frozen then (`Heap.FrozenDeep.freeze`, `Heap.frozen_freeze`).
-/

namespace Protoscript

namespace Cell

@[simp] theorem values_freeze {s : Shelf} (c : Cell s) : (freeze c).values = c.values := by
  cases s <;> rfl

@[simp] theorem freeze_freeze {s : Shelf} (c : Cell s) : freeze (freeze c) = freeze c := by
  cases s <;> rfl

/-- Freezing a frozen cell does nothing. -/
theorem freeze_of_isFrozen {s : Shelf} {c : Cell s} (hc : c.isFrozen = true) : freeze c = c := by
  cases s <;> (cases c; simp_all [freeze, isFrozen])

end Cell

namespace Heap

/-- Freezing leaves every cell as it is, up to its being frozen. -/
theorem cell_freezeAll (h : Heap) (work : List Value) (p : Place) :
    (h.freezeAll work).cell p.2 = h.cell p.2 ∨
      (h.freezeAll work).cell p.2 = (h.cell p.2).freeze := by
  fun_induction freezeAll h work with
  | case1 h => exact .inl rfl
  | case2 h items rest ih => exact ih
  | case3 h v rest hv hnone ih => exact ih
  | case4 h v rest hv s r hsome hc ih =>
    by_cases hp : p = ⟨s, r⟩
    · subst hp
      rw [cell_put_self h r _ hc.1, Cell.freeze_freeze] at ih
      exact .inr (ih.elim id id)
    · rw [cell_put_of_place_ne h hp] at ih
      exact ih
  | case5 h v rest hv s r hsome hc ih => exact ih

/-- Freezing enters a cell that is not frozen yet. -/
theorem freezeAll_cons {h : Heap} {v : Value} {rest : List Value} {p : Place} (hv : v.ref? = some p)
    (hp : h.Has p) (hno : (h.cell p.2).isFrozen = false) :
    h.freezeAll (v :: rest) =
      (h.put p.2 (h.cell p.2).freeze).freezeAll ((h.cell p.2).values ++ rest) := by
  rw [freezeAll, hv]
  · exact dif_pos ⟨hp, hno⟩
  · exact fun items => Value.ne_tuple_of_ref? hv items

theorem size_freezeAll (h : Heap) (work : List Value) (s : Shelf) :
    ((h.freezeAll work).shelf s).size = (h.shelf s).size := by
  fun_induction freezeAll h work with
  | case1 h => rfl
  | case2 h items rest ih => exact ih
  | case3 h v rest hv hnone ih => exact ih
  | case4 h v rest hv t r hsome hc ih => rw [ih, size_shelf_put]
  | case5 h v rest hv t r hsome hc ih => exact ih

@[simp] theorem has_freezeAll {h : Heap} {work : List Value} {p : Place} :
    (h.freezeAll work).Has p ↔ h.Has p := by
  unfold Has
  rw [size_freezeAll]

theorem values_cell_freezeAll (h : Heap) (work : List Value) (p : Place) :
    ((h.freezeAll work).cell p.2).values = (h.cell p.2).values := by
  rcases cell_freezeAll h work p with e | e <;> rw [e]
  exact Cell.values_freeze _

theorem freeze_cell_freezeAll (h : Heap) (work : List Value) (p : Place) :
    ((h.freezeAll work).cell p.2).freeze = (h.cell p.2).freeze := by
  rcases cell_freezeAll h work p with e | e <;> rw [e]
  exact Cell.freeze_freeze _

/-- What is frozen stays frozen. -/
theorem isFrozen_cell_freezeAll {h : Heap} (work : List Value) {p : Place}
    (hp : (h.cell p.2).isFrozen = true) : ((h.freezeAll work).cell p.2).isFrozen = true := by
  rcases cell_freezeAll h work p with e | e <;> rw [e]
  · exact hp
  · exact Cell.isFrozen_freeze _

theorem alters_freezeAll (h : Heap) (work : List Value) :
    h.Alters Set.univ (h.freezeAll work) := by
  refine ⟨fun s => Nat.le_of_eq (size_freezeAll h work s).symm,
    fun _ hn => absurd (Set.mem_univ _) hn, fun {q} hq => ?_⟩
  rw [cell_of_not_has (p := ⟨.message, q⟩) (by simpa using hq)]
  rfl

/-- Freezing alters only what is reached: any set that the references among the values lead into,
and those in its cells too. -/
theorem alters_freezeAll_of {S : Set Place} (h : Heap) (work : List Value)
    (hwork : ∀ v ∈ work, v.All fun v => ∀ p, v.ref? = some p → p ∈ S)
    (hS : ∀ p ∈ S, h.Has p → ∀ v ∈ (h.cell p.2).values, v.All fun v => ∀ q, v.ref? = some q → q ∈ S) :
    h.Alters S (h.freezeAll work) := by
  -- on the values that are left, all of which lead into the set
  fun_induction freezeAll h work with
  | case1 h => exact .refl S h
  | case2 h items rest ih =>
    refine ih (fun v hv => ?_) hS
    rcases List.mem_append.1 hv with hv | hv
    · exact Value.all_tuple.1 (hwork _ List.mem_cons_self) v hv
    · exact hwork v (List.mem_cons_of_mem _ hv)
  | case3 h v rest ht hnone ih => exact ih (fun w hw => hwork w (List.mem_cons_of_mem _ hw)) hS
  | case4 h v rest ht s r hsome hc ih =>
    have hr : (⟨s, r⟩ : Place) ∈ S :=
      (Value.all_iff fun items e => ht items e).1 (hwork v List.mem_cons_self) _ hsome
    have hput : h.Alters S (h.put r (h.cell r).freeze) :=
      (alters_put h r _).mono (Set.singleton_subset_iff.2 hr)
    have hrest := ih (fun w hw => ?_) fun p hp hhas w hw => ?_
    · refine ⟨fun t => Nat.le_trans (hput.size t) (hrest.size t), fun hp hn => ?_, fun hq => ?_⟩
      · rw [hrest.cell (has_put.2 hp) hn, hput.cell hp hn]
      · exact hrest.views (by simpa using hq)
    · rcases List.mem_append.1 hw with hw | hw
      · exact hS _ hr hc.1 w hw
      · exact hwork w (List.mem_cons_of_mem _ hw)
    · refine hS p hp (has_put.1 hhas) w ?_
      by_cases hpr : p = ⟨s, r⟩
      · subst hpr
        rwa [cell_put_self h r _ hc.1, Cell.values_freeze] at hw
      · rwa [cell_put_of_place_ne h hpr] at hw
  | case5 h v rest ht s r hsome hc ih =>
    exact ih (fun w hw => hwork w (List.mem_cons_of_mem _ hw)) hS

/-! ## Everything reached is frozen -/

/-- Whether a value, or every part of it, is frozen as far as it can be. -/
def Frozen (h : Heap) (v : Value) : Prop :=
  v.All fun v => ∀ p, v.ref? = some p → h.Has p → (h.cell p.2).isFrozen = true

/-- Whether everything that a frozen cell holds is frozen. -/
def FrozenDeep (h : Heap) : Prop :=
  ∀ p : Place, h.Has p → (h.cell p.2).isFrozen = true → ∀ v ∈ (h.cell p.2).values, h.Frozen v

theorem frozen_of_ref? {h : Heap} {v : Value} (ht : ∀ items, v ≠ .tuple items)
    (hv : ∀ p, v.ref? = some p → h.Has p → (h.cell p.2).isFrozen = true) : h.Frozen v :=
  (Value.all_iff ht).2 hv

theorem Frozen.isFrozen {h : Heap} {v : Value} (hv : h.Frozen v) {p : Place}
    (hp : v.ref? = some p) (hhas : h.Has p) : (h.cell p.2).isFrozen = true :=
  (Value.all_iff (Value.ne_tuple_of_ref? hp)).1 hv p hp hhas

theorem Frozen.freezeAll {h : Heap} {v : Value} (hv : h.Frozen v) (work : List Value) :
    (h.freezeAll work).Frozen v :=
  Value.All.mono (fun _ hp p e hh => isFrozen_cell_freezeAll work (hp p e (has_freezeAll.1 hh))) hv

/-- **What freezing freezes.** All values that are to be frozen are frozen afterwards, and so is
everything in the cells that were frozen on the way. -/
theorem frozen_freezeAll (h : Heap) (work : List Value) :
    (∀ v ∈ work, (h.freezeAll work).Frozen v) ∧
      ∀ p : Place, h.Has p → (h.cell p.2).isFrozen = false →
        ((h.freezeAll work).cell p.2).isFrozen = true →
        ∀ v ∈ (h.cell p.2).values, (h.freezeAll work).Frozen v := by
  -- on the values that are left; what a cell that is being frozen holds is among them
  fun_induction freezeAll h work with
  | case1 h =>
    refine ⟨fun v hv => absurd hv List.not_mem_nil, fun p _ hno hyes => ?_⟩
    rw [hno] at hyes
    cases hyes
  | case2 h items rest ih =>
    refine ⟨fun v hv => ?_, ih.2⟩
    rcases List.mem_cons.1 hv with rfl | hv
    · exact Value.all_tuple.2 fun w hw => ih.1 w (List.mem_append_left _ hw)
    · exact ih.1 v (List.mem_append_right _ hv)
  | case3 h v rest ht hnone ih =>
    refine ⟨fun w hw => ?_, ih.2⟩
    rcases List.mem_cons.1 hw with rfl | hw
    · exact frozen_of_ref? (fun items e => ht items e) fun p hp => by rw [hnone] at hp; cases hp
    · exact ih.1 w hw
  | case4 h v rest ht s r hsome hc ih =>
    have hput : ((h.put r (h.cell r).freeze).cell r).isFrozen = true := by
      rw [cell_put_self h r _ hc.1, Cell.isFrozen_freeze]
    have hr := isFrozen_cell_freezeAll (p := ⟨s, r⟩) ((h.cell r).values ++ rest) hput
    refine ⟨fun w hw => ?_, fun p hp hno hyes w hw => ?_⟩
    · rcases List.mem_cons.1 hw with rfl | hw
      · refine frozen_of_ref? (fun items e => ht items e) fun p hp _ => ?_
        rw [hsome] at hp
        cases hp
        exact hr
      · exact ih.1 w (List.mem_append_right _ hw)
    · by_cases hpr : p = ⟨s, r⟩
      · subst hpr
        exact ih.1 w (List.mem_append_left _ hw)
      · refine ih.2 p (has_put.2 hp) ?_ hyes w ?_
        · rw [cell_put_of_place_ne h hpr]
          exact hno
        · rw [cell_put_of_place_ne h hpr]
          exact hw
  | case5 h v rest ht s r hsome hc ih =>
    refine ⟨fun w hw => ?_, ih.2⟩
    rcases List.mem_cons.1 hw with rfl | hw
    · refine frozen_of_ref? (fun items e => ht items e) fun p hp hhas => ?_
      rw [hsome] at hp
      cases hp
      have hfrozen : (h.cell r).isFrozen ≠ false := fun e => hc ⟨has_freezeAll.1 hhas, e⟩
      exact isFrozen_cell_freezeAll (p := ⟨s, r⟩) rest (by simpa using hfrozen)
    · exact ih.1 w hw

/-- Freezing keeps frozen cells closed: what is in them is frozen. -/
theorem FrozenDeep.freezeAll {h : Heap} (hd : h.FrozenDeep) (work : List Value) :
    (h.freezeAll work).FrozenDeep := by
  intro p hp hfrozen v hv
  rw [has_freezeAll] at hp
  rw [values_cell_freezeAll] at hv
  rcases Bool.eq_false_or_eq_true (h.cell p.2).isFrozen with hyes | hno
  · exact (hd p hp hyes v hv).freezeAll work
  · exact (frozen_freezeAll h work).2 p hp hno hfrozen v hv

theorem frozen_freeze (h : Heap) (v : Value) : (h.freeze v).Frozen v :=
  (frozen_freezeAll h [v]).1 v List.mem_cons_self

end Heap

end Protoscript
