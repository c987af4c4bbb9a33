import Protoscript.Script.Instance
import Mathlib.Data.Set.Insert

/-!
# Heaps that grow

Cells are never removed, so a reference that leads to a cell goes on leading to it. What is said here
is which references a value carries, and what may differ between a heap and a later one.

* `Value.All` — a predicate that holds of a value, or of every part of a tuple;
* `Value.Within` — every reference of a value leads to a cell of the heap;
* `Heap.Closed` — every value in a cell is within the heap;
* `Heap.Alters` — more cells, and other contents at some places only; `Heap.Grows` — more cells.
-/

namespace Protoscript

/-- A place on a shelf of the heap. -/
abbrev Place := Σ s, Ref s

/-! ## Parts of values -/

mutual

/-- Whether a predicate holds of a value, or of every part of it if it is a tuple. -/
def Value.All (P : Value → Prop) : Value → Prop
  | .tuple items => Value.AllOf P items
  | v => P v

/-- Whether a predicate holds of all values of a list, or of their parts. -/
def Value.AllOf (P : Value → Prop) : List Value → Prop
  | [] => True
  | v :: rest => v.All P ∧ Value.AllOf P rest

end

theorem Value.allOf_iff {P : Value → Prop} {items : List Value} :
    Value.AllOf P items ↔ ∀ v ∈ items, v.All P := by
  induction items with
  | nil => simp [Value.AllOf]
  | cons v rest ih => simp [Value.AllOf, ih]

theorem Value.all_tuple {P : Value → Prop} {items : List Value} :
    (Value.tuple items).All P ↔ ∀ v ∈ items, v.All P := by
  rw [Value.All, Value.allOf_iff]

mutual

theorem Value.All.mono {P Q : Value → Prop} (hPQ : ∀ v, P v → Q v) :
    ∀ {v : Value}, v.All P → v.All Q
  | .tuple items, hv => by
    rw [Value.All] at hv ⊢
    exact Value.AllOf.mono hPQ hv
  | .absent, hv | .bool _, hv | .int _, hv | .float _, hv | .text _, hv | .bytes _, hv
  | .list _, hv | .dict _, hv | .message _, hv | .repeated _, hv | .map _, hv | .enum _, hv
  | .messageType _, hv | .enumType _, hv | .package _, hv | .callable _, hv | .library _, hv => by
    simp only [Value.All] at hv ⊢
    exact hPQ _ hv

theorem Value.AllOf.mono {P Q : Value → Prop} (hPQ : ∀ v, P v → Q v) :
    ∀ {items : List Value}, Value.AllOf P items → Value.AllOf Q items
  | [], _ => trivial
  | _ :: _, hv => ⟨Value.All.mono hPQ hv.1, Value.AllOf.mono hPQ hv.2⟩

end

/-- The place that a value leads to, as a reference or as the view that a method is bound to. -/
def Value.place? : Value → Option Place
  | .callable (.repeated _ _ r _) => some ⟨.repeated, r⟩
  | .callable (.map _ _ r _) => some ⟨.map, r⟩
  | v => v.ref?

/-- Of a value that is no tuple the predicate itself holds. -/
theorem Value.all_iff {P : Value → Prop} {v : Value} (ht : ∀ items, v ≠ .tuple items) :
    v.All P ↔ P v := by
  cases v with
  | tuple items => exact absurd rfl (ht items)
  | _ => simp only [Value.All]

theorem Value.ne_tuple_of_ref? {v : Value} {p : Place} (hv : v.ref? = some p) (items : List Value) :
    v ≠ .tuple items := by
  rintro rfl
  cases hv

theorem Value.place?_of_ref? {v : Value} {p : Place} (hv : v.ref? = some p) : v.place? = some p := by
  cases v <;> simp_all [Value.place?, Value.ref?]

namespace Heap

/-- Whether a place is one of the heap's cells. -/
def Has (h : Heap) (p : Place) : Prop := p.2.index < (h.shelf p.1).size

end Heap

/-- Whether every reference that a value carries leads to a cell of the heap. -/
def Value.Within (h : Heap) (v : Value) : Prop := v.All fun v => ∀ p, v.place? = some p → h.Has p

theorem Value.within_tuple {h : Heap} {items : List Value} :
    (Value.tuple items).Within h ↔ ∀ v ∈ items, v.Within h :=
  Value.all_tuple

theorem Value.Within.has {h : Heap} {v : Value} (hv : v.Within h) {p : Place}
    (hp : v.place? = some p) : h.Has p := by
  refine (Value.all_iff fun items e => ?_).1 hv p hp
  rw [e] at hp
  cases hp

theorem Value.within_of_place?_none {h : Heap} {v : Value} (ht : ∀ items, v ≠ .tuple items)
    (hv : v.place? = none) : v.Within h := by
  refine (Value.all_iff ht).2 fun p hp => ?_
  rw [hv] at hp
  cases hp

namespace Heap

/-- Whether every value in a cell of the heap is within the heap. -/
def Closed (h : Heap) : Prop := ∀ p : Place, h.Has p → ∀ v ∈ (h.cell p.2).values, v.Within h

/-! ## Sizes and cells -/

@[simp] theorem size_shelf_put (h : Heap) {s : Shelf} (r : Ref s) (c : Cell s) (t : Shelf) :
    ((h.put r c).shelf t).size = (h.shelf t).size := by
  by_cases ht : t = s
  · subst ht
    simp [put]
  · rw [put, shelf_withShelf_of_ne h ht]

theorem size_shelf_alloc_self (h : Heap) (s : Shelf) (c : Cell s) :
    ((h.alloc s c).shelf s).size = (h.shelf s).size + 1 := by
  simp [alloc]

theorem size_shelf_alloc_of_ne (h : Heap) {s t : Shelf} (ht : t ≠ s) (c : Cell s) :
    ((h.alloc s c).shelf t).size = (h.shelf t).size := by
  rw [alloc, shelf_withShelf_of_ne h ht]

theorem size_shelf_le_alloc (h : Heap) (s t : Shelf) (c : Cell s) :
    (h.shelf t).size ≤ ((h.alloc s c).shelf t).size := by
  by_cases ht : t = s
  · subst ht
    rw [size_shelf_alloc_self]
    exact Nat.le_succ _
  · rw [size_shelf_alloc_of_ne h ht]

/-- A place that is no cell of the heap reads as an empty cell. -/
theorem cell_of_not_has {h : Heap} {p : Place} (hp : ¬ h.Has p) : h.cell p.2 = default := by
  unfold Has at hp
  simp [cell, hp]

@[simp] theorem has_put {h : Heap} {s : Shelf} {r : Ref s} {c : Cell s} {p : Place} :
    (h.put r c).Has p ↔ h.Has p := by
  simp [Has]

theorem has_fresh_alloc (h : Heap) (s : Shelf) (c : Cell s) :
    (h.alloc s c).Has ⟨s, h.fresh s⟩ := by
  unfold Has fresh
  rw [size_shelf_alloc_self]
  exact Nat.lt_succ_self _

/-- The cells of a heap with one more are the new one and the old ones. -/
theorem has_alloc {h : Heap} {s : Shelf} {c : Cell s} {p : Place} (hp : (h.alloc s c).Has p) :
    p = ⟨s, h.fresh s⟩ ∨ h.Has p := by
  obtain ⟨t, r⟩ := p
  unfold Has at hp ⊢
  by_cases ht : t = s
  · subst ht
    rw [size_shelf_alloc_self] at hp
    rcases Nat.lt_succ_iff_lt_or_eq.1 hp with hlt | heq
    · exact .inr hlt
    · left
      cases r
      simp_all [fresh]
  · rw [size_shelf_alloc_of_ne h ht] at hp
    exact .inr hp

/-- An overwritten cell holds what was written, and every other one what it held. -/
theorem cell_put_of_place_ne (h : Heap) {s : Shelf} {r : Ref s} {p : Place} (hp : p ≠ ⟨s, r⟩)
    (c : Cell s) : (h.put r c).cell p.2 = h.cell p.2 := by
  obtain ⟨t, q⟩ := p
  by_cases ht : t = s
  · subst ht
    exact cell_put_of_ne h (fun e : q = r => hp (by rw [e])) c
  · exact cell_put_of_shelf_ne h ht r q c

theorem cell_alloc_of_has (h : Heap) {s : Shelf} (c : Cell s) {p : Place} (hp : h.Has p) :
    (h.alloc s c).cell p.2 = h.cell p.2 := by
  obtain ⟨t, q⟩ := p
  by_cases ht : t = s
  · subst ht
    exact cell_alloc_of_lt h c hp
  · exact cell_alloc_of_shelf_ne h ht c q

/-- A new cell that is overwritten holds what it is overwritten with. -/
theorem put_alloc (h : Heap) (s : Shelf) (c c' : Cell s) :
    (h.alloc s c).put (h.fresh s) c' = h.alloc s c' := by
  have hpush : ((h.shelf s).push c).setIfInBounds (h.shelf s).size c' = (h.shelf s).push c' := by
    refine Array.ext (by simp) fun i _ _ => ?_
    rw [Array.getElem_setIfInBounds, Array.getElem_push, Array.getElem_push]
    · grind
    · simp_all
  rw [put, alloc, alloc, fresh, shelf_withShelf_self, hpush]
  cases s <;> rfl

/-! ## Later heaps -/

/-- A heap after `h` that differs from it only in new cells and at the places of `W`. No new message
has been read from yet. -/
structure Alters (W : Set Place) (h h' : Heap) : Prop where
  /-- no shelf shrinks -/
  size (s : Shelf) : (h.shelf s).size ≤ (h'.shelf s).size
  /-- old cells stay -/
  cell {p : Place} (hp : h.Has p) (hW : p ∉ W) : h'.cell p.2 = h.cell p.2
  /-- new messages have no views -/
  views {q : Ref .message} (hq : ¬ h.Has ⟨.message, q⟩) : (h'.cell q).views = []

/-- A heap after `h` that has the cells of `h` unchanged. -/
abbrev Grows (h h' : Heap) : Prop := h.Alters ∅ h'

variable {W : Set Place} {h h' mid : Heap}

theorem Alters.has (hh : h.Alters W h') {p : Place} (hp : h.Has p) : h'.Has p :=
  Nat.lt_of_lt_of_le hp (hh.size p.1)

theorem Alters.mono {W' : Set Place} (hh : h.Alters W h') (hW : W ⊆ W') : h.Alters W' h' :=
  ⟨hh.size, fun hp hn => hh.cell hp fun hw => hn (hW hw), hh.views⟩

theorem Alters.refl (W : Set Place) (h : Heap) : h.Alters W h := by
  refine ⟨fun _ => Nat.le_refl _, fun _ _ => rfl, fun hq => ?_⟩
  rw [cell_of_not_has hq]
  rfl

theorem Grows.cell (hh : h.Grows h') {p : Place} (hp : h.Has p) : h'.cell p.2 = h.cell p.2 :=
  Alters.cell hh hp (Set.notMem_empty p)

/-- What grows first and is altered at old places then is altered at those places. -/
theorem Grows.alters (hg : h.Grows mid) (hh : mid.Alters W h') (hW : ∀ p ∈ W, h.Has p) :
    h.Alters W h' := by
  refine ⟨fun s => Nat.le_trans (hg.size s) (hh.size s), fun hp hn => ?_, fun {q} hq => ?_⟩
  · rw [hh.cell (hg.has hp) hn, hg.cell hp]
  · by_cases hm : mid.Has ⟨.message, q⟩
    · rw [hh.cell hm fun hw => hq (hW _ hw)]
      exact hg.views hq
    · exact hh.views hm

theorem Grows.trans (hg : h.Grows mid) (hh : mid.Grows h') : h.Grows h' :=
  hg.alters hh fun p hp => absurd hp (Set.notMem_empty p)

/-- What grows first and is altered at new places then has grown. -/
theorem Grows.of_alters (hg : h.Grows mid) (hh : mid.Alters W h') (hW : ∀ p ∈ W, ¬ h.Has p)
    (hviews : ∀ q : Ref .message, ⟨.message, q⟩ ∈ W → (h'.cell q).views = []) : h.Grows h' := by
  refine ⟨fun s => Nat.le_trans (hg.size s) (hh.size s), fun hp _ => ?_, fun {q} hq => ?_⟩
  · rw [hh.cell (hg.has hp) fun hw => hW _ hw hp, hg.cell hp]
  · by_cases hw : (⟨.message, q⟩ : Place) ∈ W
    · exact hviews q hw
    · by_cases hm : mid.Has ⟨.message, q⟩
      · rw [hh.cell hm hw]
        exact hg.views hq
      · exact hh.views hm

theorem alters_put (h : Heap) {s : Shelf} (r : Ref s) (c : Cell s) :
    h.Alters {⟨s, r⟩} (h.put r c) := by
  refine ⟨fun t => by simp, fun hp hn => ?_, fun {q} hq => ?_⟩
  · exact cell_put_of_place_ne h (by simpa using hn) c
  · rw [cell_of_not_has (p := ⟨.message, q⟩) (by simpa using hq)]
    rfl

theorem grows_alloc (h : Heap) {s : Shelf} (hs : s ≠ .message) (c : Cell s) :
    h.Grows (h.alloc s c) := by
  refine ⟨fun t => size_shelf_le_alloc h s t c, fun hp _ => cell_alloc_of_has h c hp,
    fun {q} hq => ?_⟩
  rw [cell_alloc_of_shelf_ne h (Ne.symm hs), cell_of_not_has hq]
  rfl

theorem grows_alloc_message (h : Heap) {c : MessageCell} (hc : c.views = []) :
    h.Grows (h.alloc .message c) := by
  refine ⟨fun t => size_shelf_le_alloc h .message t c, fun hp _ => cell_alloc_of_has (s := .message) h c hp,
    fun {q} hq => ?_⟩
  by_cases hp : (h.alloc .message c).Has ⟨.message, q⟩
  · rcases has_alloc hp with heq | hold
    · cases heq
      rw [cell_alloc_self]
      exact hc
    · exact absurd hold hq
  · rw [cell_of_not_has hp]
    rfl

end Heap

theorem Value.Within.mono {h h' : Heap} (hh : ∀ p, h.Has p → h'.Has p) {v : Value}
    (hv : v.Within h) : v.Within h' :=
  Value.All.mono (fun _ hp p e => hh p (hp p e)) hv

theorem Value.Within.grow {W : Set Place} {h h' : Heap} (hh : h.Alters W h') {v : Value}
    (hv : v.Within h) : v.Within h' :=
  hv.mono fun _ => hh.has

end Protoscript
