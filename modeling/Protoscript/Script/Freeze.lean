import Protoscript.Script.Heap

/-!
# Freezing

Freezing a value makes it, and everything reached through it, unchangeable. What is frozen already is
not entered again, so values that contain themselves can be frozen too.

* `Heap.freezeAll` — freezes a list of values; each step either freezes one more cell or leaves less
  to do, which is why it ends (`Heap.unfrozen_put_frozen_lt`);
* `Heap.freeze` — freezes one value.
-/

namespace Protoscript

namespace Cell

/-- Whether a cell can no longer be changed. -/
def isFrozen : {s : Shelf} → Cell s → Bool
  | .list, c => ListCell.frozen c
  | .dict, c => DictCell.frozen c
  | .message, c => MessageCell.frozen c
  | .repeated, c => RepeatedCell.frozen c
  | .map, c => MapCell.frozen c

/-- A cell that can no longer be changed. -/
def freeze : {s : Shelf} → Cell s → Cell s
  | .list, c => ({ (c : ListCell) with frozen := true } : ListCell)
  | .dict, c => ({ (c : DictCell) with frozen := true } : DictCell)
  | .message, c => ({ (c : MessageCell) with frozen := true } : MessageCell)
  | .repeated, c => ({ (c : RepeatedCell) with frozen := true } : RepeatedCell)
  | .map, c => ({ (c : MapCell) with frozen := true } : MapCell)

/-- The values in a cell. -/
def values : {s : Shelf} → Cell s → List Value
  | .list, c => ListCell.items c
  | .dict, c => (DictCell.entries c).flatMap fun e => [e.1, e.2]
  | .message, c => (MessageCell.views c).map (·.2)
  | .repeated, c => RepeatedCell.items c
  | .map, c => (MapCell.entries c).flatMap fun e => [e.1, e.2]

@[simp] theorem isFrozen_freeze {s : Shelf} (c : Cell s) : (freeze c).isFrozen = true := by
  cases s <;> rfl

end Cell

/-- The reference that a value is, if it is one. -/
def Value.ref? : Value → Option (Σ s, Ref s)
  | .list r => some ⟨.list, r⟩
  | .dict r => some ⟨.dict, r⟩
  | .message r => some ⟨.message, r⟩
  | .repeated r => some ⟨.repeated, r⟩
  | .map r => some ⟨.map, r⟩
  | _ => none

namespace Heap

/-- The number of cells of a shelf that can be changed. -/
def unfrozenOn (h : Heap) (s : Shelf) : Nat := (h.shelf s).countP fun c => !Cell.isFrozen c

/-- The number of cells that can be changed. -/
def unfrozen (h : Heap) : Nat :=
  h.unfrozenOn .list + h.unfrozenOn .dict + h.unfrozenOn .message + h.unfrozenOn .repeated +
    h.unfrozenOn .map

theorem unfrozenOn_put_of_ne (h : Heap) {s t : Shelf} (hne : t ≠ s) (r : Ref s) (c : Cell s) :
    (h.put r c).unfrozenOn t = h.unfrozenOn t := by
  unfold unfrozenOn put
  rw [shelf_withShelf_of_ne h hne]

theorem unfrozenOn_put_frozen_lt (h : Heap) {s : Shelf} (r : Ref s)
    (hr : r.index < (h.shelf s).size) (hc : (h.cell r).isFrozen = false) :
    (h.put r (h.cell r).freeze).unfrozenOn s < h.unfrozenOn s := by
  have hcell : h.cell r = (h.shelf s)[r.index] := by simp [cell, hr]
  unfold unfrozenOn put
  rw [shelf_withShelf_self, Array.setIfInBounds_def, dif_pos hr, Array.countP_set hr]
  have hpos : 0 < (h.shelf s).countP fun c => !Cell.isFrozen c :=
    Array.countP_pos_iff.2 ⟨_, Array.getElem_mem hr, by rw [← hcell, hc]; rfl⟩
  rw [← hcell, hc, Cell.isFrozen_freeze]
  simp only [Bool.not_true, Bool.not_false, Bool.false_eq_true, if_true, if_false]
  omega

/-- Freezing a cell that can be changed leaves fewer of them. -/
theorem unfrozen_put_frozen_lt (h : Heap) {s : Shelf} (r : Ref s)
    (hr : r.index < (h.shelf s).size) (hc : (h.cell r).isFrozen = false) :
    (h.put r (h.cell r).freeze).unfrozen < h.unfrozen := by
  have hlt := unfrozenOn_put_frozen_lt h r hr hc
  have keep (t : Shelf) (ht : t ≠ s) := unfrozenOn_put_of_ne h ht r (h.cell r).freeze
  unfold unfrozen
  cases s with
  | list =>
    rw [keep .dict (by decide), keep .message (by decide),
      keep .repeated (by decide), keep .map (by decide)]
    omega
  | dict =>
    rw [keep .list (by decide), keep .message (by decide),
      keep .repeated (by decide), keep .map (by decide)]
    omega
  | message =>
    rw [keep .list (by decide), keep .dict (by decide),
      keep .repeated (by decide), keep .map (by decide)]
    omega
  | repeated =>
    rw [keep .list (by decide), keep .dict (by decide),
      keep .message (by decide), keep .map (by decide)]
    omega
  | map =>
    rw [keep .list (by decide), keep .dict (by decide),
      keep .message (by decide), keep .repeated (by decide)]
    omega

theorem sizeOf_append_lt (items rest : List Value) :
    sizeOf (items ++ rest) < sizeOf (Value.tuple items :: rest) := by
  have h : sizeOf (items ++ rest) + 1 = sizeOf items + sizeOf rest := by
    induction items with
    | nil => simp; omega
    | cons v items ih => simp only [List.cons_append, List.cons.sizeOf_spec]; omega
  simp only [List.cons.sizeOf_spec, Value.tuple.sizeOf_spec]
  omega

/-- Freezes values and everything reached through them. -/
def freezeAll (h : Heap) : List Value → Heap
  | [] => h
  | .tuple items :: rest => freezeAll h (items ++ rest)
  | v :: rest =>
    match v.ref? with
    | none => freezeAll h rest
    | some ⟨s, r⟩ =>
      if _h : r.index < (h.shelf s).size ∧ (h.cell r).isFrozen = false then
        freezeAll (h.put r (h.cell r).freeze) ((h.cell r).values ++ rest)
      else freezeAll h rest
termination_by work => (h.unfrozen, sizeOf work)
decreasing_by
  · exact Prod.Lex.right _ (sizeOf_append_lt items rest)
  · exact Prod.Lex.right _ (by simp only [List.cons.sizeOf_spec]; omega)
  · exact Prod.Lex.left _ _ (unfrozen_put_frozen_lt h r _h.1 _h.2)
  · exact Prod.Lex.right _ (by simp only [List.cons.sizeOf_spec]; omega)

/-- Freezes a value and everything reached through it. -/
def freeze (h : Heap) (v : Value) : Heap := h.freezeAll [v]

end Heap

end Protoscript
