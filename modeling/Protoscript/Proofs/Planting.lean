import Protoscript.Proofs.Closed
import Protoscript.Proofs.Lasting

/-!
# What messages and views come to hold

What an operation puts into a message or a view is new. Only a view that is new itself and that no
message keeps may hold what was there before, as the sum of two lists does.

* `Heap.Loose` — whether a view is kept by no message;
* `Heap.Plants` — whether all that messages and views hold on a later heap they held, or is new;
* `Heap.Alters.plants_view`, `Heap.Alters.plants_message`, `Heap.Alters.plants_container` — this is so
  after one cell was overwritten.
-/

namespace Protoscript

/-- What has a reference is told by it. -/
theorem Value.eq_of_ref? {v w : Value} {p : Place} (hv : v.ref? = some p) (hw : w.ref? = some p) :
    v = w := by
  cases v <;> cases hv <;> cases w <;> cases hw <;> rfl

/-- The values that a cell gives out if it is one of a view. -/
def Cell.elements : {s : Shelf} → Cell s → List Value
  | .repeated, c => RepeatedCell.items c
  | .map, c => (MapCell.entries c).map (·.2)
  | .list, _ | .dict, _ | .message, _ => []

namespace Heap

variable {W : Set Place} {h mid h' : Heap}

/-! ## Elements of views -/

/-- The elements of a value are those of the cell that it refers to. -/
theorem elements_of_ref? {v : Value} {p : Place} (hv : v.ref? = some p) :
    h.elements v = Cell.elements (h.cell p.2) := by
  cases v <;> cases hv <;> rfl

/-- Only views have elements. -/
theorem elements_of_shelf {v : Value} {s : Shelf} {r : Ref s} (hv : v.ref? = some ⟨s, r⟩)
    (hne : s ≠ .repeated ∧ s ≠ .map) : h.elements v = [] := by
  rw [elements_of_ref? hv]
  cases s with
  | «repeated» => exact absurd rfl hne.1
  | map => exact absurd rfl hne.2
  | _ => rfl

/-- Values whose cells are the same have the same elements. -/
theorem elements_congr {v : Value} (hv : ∀ p, v.ref? = some p → h'.cell p.2 = h.cell p.2) :
    h'.elements v = h.elements v := by
  cases v with
  | «repeated» q => exact congrArg RepeatedCell.items (hv ⟨.repeated, q⟩ rfl)
  | map q => exact congrArg (fun c : MapCell => c.entries.map (·.2)) (hv ⟨.map, q⟩ rfl)
  | _ => rfl

/-- Overwriting a cell does not change the elements of other views. -/
theorem elements_put (h : Heap) {s : Shelf} (r : Ref s) (c : Cell s) {v : Value}
    (hne : v.ref? ≠ some ⟨s, r⟩) : (h.put r c).elements v = h.elements v :=
  elements_congr fun _ hp => cell_put_of_place_ne h (fun he => hne (he ▸ hp)) c

/-- Overwriting what is no view changes no elements. -/
theorem elements_put_of_shelf (h : Heap) {s : Shelf} (hs : s ≠ .repeated ∧ s ≠ .map) (r : Ref s)
    (c : Cell s) (v : Value) : (h.put r c).elements v = h.elements v := by
  by_cases hv : v.ref? = some ⟨s, r⟩
  · rw [elements_of_shelf hv hs, elements_of_shelf hv hs]
  · exact elements_put h r c hv

/-- What has elements is a view of the heap. -/
theorem has_of_elements {v w : Value} (hw : w ∈ h.elements v) : ∃ p, v.ref? = some p ∧ h.Has p := by
  have some {s : Shelf} {r : Ref s} (hv : v.ref? = some ⟨s, r⟩) (hempty : ¬ h.Has ⟨s, r⟩ →
      h.elements v = []) : ∃ p, v.ref? = some p ∧ h.Has p := by
    refine ⟨_, hv, Classical.not_not.1 fun hno => ?_⟩
    rw [hempty hno] at hw
    cases hw
  cases v with
  | «repeated» q =>
    exact some (r := q) rfl fun hno => congrArg RepeatedCell.items (cell_of_not_has hno)
  | map q =>
    refine some (r := q) rfl fun hno => ?_
    have hcell : h.cell q = default := cell_of_not_has hno
    exact congrArg (fun c : MapCell => c.entries.map (·.2)) hcell
  | _ => cases hw

/-- Elements after a cell was overwritten were elements, or are what was written. -/
theorem mem_elements_put {s : Shelf} {r : Ref s} {c : Cell s} {v w : Value}
    (hw : w ∈ (h.put r c).elements v) : w ∈ h.elements v ∨ w ∈ Cell.elements c := by
  by_cases hv : v.ref? = some ⟨s, r⟩
  · obtain ⟨p, hp, hhas⟩ := has_of_elements hw
    obtain rfl := Option.some.inj (hp.symm.trans hv)
    rw [elements_of_ref? hv, cell_put_self h r c (has_put.1 hhas)] at hw
    exact .inr hw
  · exact .inl (elements_put h r c hv ▸ hw)

/-- Elements after a cell was added were elements, or are in the new cell. -/
theorem mem_elements_alloc {s : Shelf} {c : Cell s} {v w : Value}
    (hw : w ∈ (h.alloc s c).elements v) : w ∈ h.elements v ∨ w ∈ Cell.elements c := by
  obtain ⟨p, hp, hhas⟩ := has_of_elements hw
  rw [elements_of_ref? hp] at hw
  rcases has_alloc hhas with rfl | hold
  · rw [cell_alloc_self] at hw
    exact .inr hw
  · rw [cell_alloc_of_has h c hold, ← elements_of_ref? hp] at hw
    exact .inl hw

/-- A message that keeps a view is one of the heap. -/
theorem has_of_views {r : Ref .message} {view : String × Value} (hview : view ∈ (h.cell r).views) :
    h.Has ⟨.message, r⟩ := by
  refine Classical.not_not.1 fun hno => ?_
  rw [cell_of_not_has hno] at hview
  cases hview

end Heap

/-- What is new to a heap has no elements there. -/
theorem Value.NewTo.not_mem_elements {h : Heap} {v w : Value} (hv : v.NewTo h) :
    w ∉ h.elements v := by
  intro hw
  obtain ⟨p, hp, hhas⟩ := Heap.has_of_elements hw
  exact hv.not_has hp hhas

namespace Heap

variable {W : Set Place} {h mid h' : Heap}

/-! ## Holding -/

/-- Whether a value is kept by no message as a view. -/
def Loose (h : Heap) (v : Value) : Prop :=
  ∀ (r : Ref .message) (name : String), (name, v) ∉ (h.cell r).views

/-- Whether all that messages and views hold on a later heap they held, or is new to the heap. A new
view that no message keeps may hold anything. -/
structure Plants (h h' : Heap) : Prop where
  views {r : Ref .message} {view : String × Value} (hview : view ∈ (h'.cell r).views) :
    view ∈ (h.cell r).views ∨ view.2.NewTo h
  elements {v w : Value} (hw : w ∈ h'.elements v) :
    w ∈ h.elements v ∨ w.NewTo h ∨ v.NewTo h ∧ h'.Loose v

namespace Plants

theorem refl (h : Heap) : h.Plants h := ⟨.inl, .inl⟩

theorem trans (hh : h.Plants mid) (hh' : mid.Plants h') (hhas : ∀ p, h.Has p → mid.Has p) :
    h.Plants h' where
  views hview := by
    rcases hh'.views hview with hold | hnew
    · exact hh.views hold
    · exact .inr (hnew.earlier hhas)
  elements {v w} hw := by
    rcases hh'.elements hw with hold | hnew | ⟨hnew, hloose⟩
    · refine (hh.elements hold).imp_right (Or.imp_right fun ⟨hv, hloose⟩ => ⟨hv, fun r name hmem => ?_⟩)
      -- a view with elements is no new one
      rcases hh'.views hmem with hkept | hv
      · exact hloose r name hkept
      · exact hv.not_mem_elements hold
    · exact .inr (.inl (hnew.earlier hhas))
    · exact .inr (.inr ⟨hnew.earlier hhas, hloose⟩)

end Plants

/-! ## After one cell was overwritten -/

section

variable (ha : h.Alters W h')

include ha

/-- Messages that were not overwritten keep their views; new ones have none. -/
theorem Alters.views_eq {r : Ref .message} (hr : ⟨.message, r⟩ ∉ W) :
    (h'.cell r).views = (h.cell r).views := by
  by_cases hhas : h.Has ⟨.message, r⟩
  · exact congrArg MessageCell.views (ha.cell hhas hr)
  · rw [ha.views hhas, cell_of_not_has (p := ⟨.message, r⟩) hhas]
    rfl

/-- Views that were not overwritten keep their elements. -/
theorem Alters.elements_eq {v : Value} (hv : v.Within h) (hW : ∀ p, v.ref? = some p → p ∉ W) :
    h'.elements v = h.elements v :=
  elements_congr fun p hp => ha.cell (hv.has (Value.place?_of_ref? hp)) (hW p hp)

end

/-- A later heap plants if the views of messages and the elements of old views do: a new view that a
message keeps has new elements. -/
theorem Plants.of (hc : h.Closed) (hviews : ∀ (r : Ref .message), ∀ view ∈ (h'.cell r).views,
      view ∈ (h.cell r).views ∨ view.2.NewTo h ∧ ∀ w ∈ h'.elements view.2, w.NewTo h)
    (helements : ∀ v, v.Within h → ∀ w ∈ h'.elements v, w ∈ h.elements v ∨ w.NewTo h) :
    h.Plants h' where
  views hview := (hviews _ _ hview).imp_right And.left
  elements {v w} hw := by
    obtain ⟨p, hp, -⟩ := has_of_elements hw
    by_cases hhas : h.Has p
    · exact (helements v (within_of_ref? hp hhas) w hw).imp_right .inl
    have hnew : v.NewTo h := Value.newTo_of_ref? hp hhas
    by_cases hloose : h'.Loose v
    · exact .inr (.inr ⟨hnew, hloose⟩)
    -- a message that keeps the view keeps a new one, or kept it
    · simp only [Loose, not_forall, not_not] at hloose
      obtain ⟨r, name, hmem⟩ := hloose
      rcases hviews r _ hmem with hkept | ⟨-, hall⟩
      · exact absurd ((hc.fills (a := ⟨r, name, none⟩) hkept).has (Value.place?_of_ref? hp)) hhas
      · exact .inr (.inl (hall w hw))

section

variable {s : Shelf} {r : Ref s} (ha : h.Alters {⟨s, r⟩} h') (hc : h.Closed)

include ha hc

/-- **A view was overwritten.** -/
theorem Alters.plants_view (view : Value) (hview : view.ref? = some ⟨s, r⟩) (hs : s ≠ .message)
    (helements : ∀ w ∈ h'.elements view, w ∈ h.elements view ∨ w.NewTo h) : h.Plants h' := by
  refine Plants.of hc (fun q u hu => .inl ?_) fun v hv w hw => ?_
  · rwa [ha.views_eq fun he => hs (congrArg Sigma.fst he).symm] at hu
  · by_cases hsame : v = view
    · rw [hsame] at hw ⊢
      exact helements w hw
    · rw [ha.elements_eq hv fun p hp hmem => hsame (Value.eq_of_ref? (hmem ▸ hp) hview)] at hw
      exact .inl hw

/-- **A list or dict was overwritten**, which is no view. -/
theorem Alters.plants_container (hs : s = .list ∨ s = .dict) : h.Plants h' := by
  refine Plants.of hc (fun q u hu => .inl ?_) fun v hv w hw => .inl ?_
  · rwa [ha.views_eq fun he => ?_] at hu
    cases he
    rcases hs with hs | hs <;> cases hs
  · by_cases hplace : v.ref? = some ⟨s, r⟩
    · rw [elements_of_shelf hplace] at hw
      · cases hw
      · rcases hs with rfl | rfl <;> decide
    · rwa [ha.elements_eq hv fun p hp hmem => hplace (hmem ▸ hp)] at hw

end

section

variable {r : Ref .message} (ha : h.Alters {⟨.message, r⟩} h') (hc : h.Closed)

include ha hc

/-- **A message was overwritten**, with views that it had, or with new ones of new elements. -/
theorem Alters.plants_message (hviews : ∀ view ∈ (h'.cell r).views,
      view ∈ (h.cell r).views ∨ view.2.NewTo h ∧ ∀ w ∈ h'.elements view.2, w.NewTo h) :
    h.Plants h' := by
  refine Plants.of hc (fun q u hu => ?_) fun v hv w hw => .inl ?_
  · by_cases hq : q = r
    · exact hviews u (hq ▸ hu) |>.imp_left fun hmem => hq ▸ hmem
    · rw [ha.views_eq fun he => hq (by cases he; rfl)] at hu
      exact .inl hu
  · by_cases hplace : v.ref? = some ⟨.message, r⟩
    · rw [elements_of_shelf hplace (by decide)] at hw
      cases hw
    · rwa [ha.elements_eq hv fun p hp hmem => hplace (hmem ▸ hp)] at hw

end

/-- What only grows plants nothing. -/
theorem Grows.plants (hg : h.Grows h') (hc : h.Closed) : h.Plants h' := by
  refine Plants.of hc (fun q u hu => .inl ?_) fun v hv w hw => .inl ?_
  · rwa [Alters.views_eq hg (Set.notMem_empty _)] at hu
  · rwa [Alters.elements_eq hg hv fun _ _ => Set.notMem_empty _] at hw

/-- What is the same up to its being frozen has the same elements. -/
theorem elements_of_cells (hcells : ∀ p : Place, (h'.cell p.2).freeze = (h.cell p.2).freeze)
    (v : Value) : h'.elements v = h.elements v := by
  cases v with
  | «repeated» r => exact (congrArg RepeatedCell.items (hcells ⟨.repeated, r⟩) :)
  | map r => exact (congrArg (fun c : MapCell => c.entries.map (·.2)) (hcells ⟨.map, r⟩) :)
  | _ => rfl

/-- It plants nothing. -/
theorem plants_of_cells (hcells : ∀ p : Place, (h'.cell p.2).freeze = (h.cell p.2).freeze) :
    h.Plants h' where
  views {r view} hview := by
    have hviews : (h'.cell r).views = (h.cell r).views :=
      (congrArg MessageCell.views (hcells ⟨.message, r⟩) :)
    exact .inl (hviews ▸ hview)
  elements {v w} hw := .inl (elements_of_cells hcells v ▸ hw)

end Heap

/-- The postcondition that what messages and views hold then, they held on a heap, or is new to it. -/
def Script.Planted (h : Heap) {α : Type} : Heap → α → Prop := fun h' _ => h.Plants h'

end Protoscript
