import Protoscript.Proofs.FrozenCells
import Protoscript.Proofs.Reading

/-!
# Contents of what is frozen

The contents of a frozen message stay as they are, up to the canonical form. A field may still be read
from it for the first time; what it was read as is frozen, and is written back as it was.

* `Heap.frozenPlaces` — the frozen cells of a heap, which lead to each other only;
* `Heap.Preserves` — a later heap in which what was frozen is as it was;
* `Heap.Change.preserves`, `Heap.Reaches.preserves` — changes and runs preserve what is frozen.
-/

namespace Protoscript

variable {p : Pool}

namespace Heap

variable {h mid h' : Heap}

/-- The places of frozen cells. -/
def frozenPlaces (h : Heap) : Set Place := {q | h.Has q ∧ (h.cell q.2).isFrozen = true}

/-- Whether what is frozen on a heap is as it was on another: the same values in the same order are
in lists, dicts and views, and messages hold the same. -/
structure Preserves (h h' : Heap) : Prop where
  frozen {q : Place} (hq : q ∈ h.frozenPlaces) : q ∈ h'.frozenPlaces
  cell {q : Place} (hq : q ∈ h.frozenPlaces) (hm : q.1 ≠ .message) : h'.cell q.2 = h.cell q.2
  contents {r : Ref .message} (hr : ⟨.message, r⟩ ∈ h.frozenPlaces) :
    Except.Alike Likeness.canonical.message (h.contents r) (h'.contents r)
  repeatedContents {r : Ref .repeated} (hr : ⟨.repeated, r⟩ ∈ h.frozenPlaces) :
    Except.Alike Likeness.canonical.stored (h.repeatedContents r) (h'.repeatedContents r)
  mapContents {r : Ref .map} (hr : ⟨.map, r⟩ ∈ h.frozenPlaces) :
    Except.Alike Likeness.canonical.stored (h.mapContents r) (h'.mapContents r)

namespace Preserves

theorem refl (h : Heap) : h.Preserves h :=
  ⟨id, fun _ _ => rfl, fun _ => .of_eq (fun _ _ => rfl) rfl, fun _ => .of_eq (fun _ _ => rfl) rfl,
    fun _ => .of_eq (fun _ _ => rfl) rfl⟩

theorem trans (hh : h.Preserves mid) (hh' : mid.Preserves h') : h.Preserves h' := by
  refine ⟨fun hq => hh'.frozen (hh.frozen hq), fun hq hm => ?_, fun hr => ?_, fun hr => ?_,
    fun hr => ?_⟩
  · exact (hh'.cell (hh.frozen hq) hm).trans (hh.cell hq hm)
  · exact (hh.contents hr).trans (fun hab hbc => hbc.trans hab) (hh'.contents (hh.frozen hr))
  · exact (hh.repeatedContents hr).trans (fun hab hbc => hbc.trans hab)
      (hh'.repeatedContents (hh.frozen hr))
  · exact (hh.mapContents hr).trans (fun hab hbc => hbc.trans hab) (hh'.mapContents (hh.frozen hr))

end Preserves

/-! ## One change -/

/-- What a frozen cell leads to is frozen. -/
theorem FrozenDeep.follows (hd : h.FrozenDeep) (hc : h.Closed) {q : Place} {v : Value}
    (hq : q ∈ h.frozenPlaces) (hv : v ∈ (h.cell q.2).values) : Follows 0 h.frozenPlaces h v := by
  intro q' hq'
  have hhas : h.Has q' := (hc q hq.1 v hv).has (Value.place?_of_ref? hq')
  exact ⟨hhas, .inl ⟨hhas, (hd q hq.1 hq.2 v hv).isFrozen hq' hhas⟩⟩

/-- Two heaps are alike on a closed set of places if the cells there are as they were, but for messages
that hold the same. -/
theorem Typed.matches_of_alike (ht : h.Typed p) {S : Set Place}
    (hhas : ∀ q ∈ S, h.Has q) (hfollows : ∀ q ∈ S, ∀ v ∈ (h.cell q.2).values, Follows 0 S h v)
    (hh : h.KeepsTypes h') (hcells : ∀ q ∈ S, h'.cell q.2 = h.cell q.2 ∨
      ∃ r : Ref .message, q = ⟨.message, r⟩ ∧
        Except.Alike Likeness.canonical.message (h.contents r) (h'.contents r)) :
    Matches Likeness.canonical 0 S h h' where
  has hq := ⟨hhas _ hq, (hh _ (hhas _ hq)).1⟩
  name hq := congrArg MessageDescriptor.fullName (hh.message hq)
  message hq := by
    rcases hcells _ hq with he | ⟨r, he, halike⟩
    · exact .inl ⟨congrArg (fun c : MessageCell => c.content.canonical) he, congrArg MessageCell.views he⟩
    · cases he
      exact .inr halike
  repeated hq := by
    rcases hcells _ hq with he | ⟨r, he, -⟩
    · exact congrArg Cell.freeze he
    · cases he
  map hq := by
    rcases hcells _ hq with he | ⟨r, he, -⟩
    · exact congrArg Cell.freeze he
    · cases he
  closed hq hv := hfollows _ hq _ hv
  adopt hq _ _ hm hok := by
    have hS : h.TypedOn p S := ⟨fun hq => hhas _ hq, fun hq => ht _ (hhas _ hq), fun hq v hv r hr =>
      (hfollows _ hq v hv r hr).2.resolve_right fun ⟨_, _, hlt⟩ => Nat.not_lt_zero _ hlt⟩
    exact hS.adopt_alike hq hm hok

/-- Heaps that are alike on what is frozen preserve it, if it stays frozen. -/
theorem Matches.preserves (hS : Matches Likeness.canonical 0 h.frozenPlaces h h')
    (hfrozen : ∀ q ∈ h.frozenPlaces, q ∈ h'.frozenPlaces)
    (hcells : ∀ q ∈ h.frozenPlaces, q.1 ≠ .message → h'.cell q.2 = h.cell q.2) :
    h.Preserves h' :=
  ⟨fun hq => hfrozen _ hq, fun hq => hcells _ hq, fun hr => hS.contents hr (Nat.zero_le _),
    fun hr => hS.repeatedContents hr, fun hr => hS.mapContents hr⟩

/-- **A change preserves what is frozen**, if no list or map belongs to a oneof. -/
theorem Change.preserves (hh : Change {p} h h') (ht : h.Typed p) (hc : h.Closed) (hd : h.FrozenDeep)
    (hlaw : p.Lawful) : h.Preserves h' := by
  obtain ⟨hkeeps, ht'⟩ := hh.typed ht hc
  have hc' := hh.closed hc
  have hfollows (q : Place) (hq : q ∈ h.frozenPlaces) (v : Value) (hv : v ∈ (h.cell q.2).values) :
      Follows 0 h.frozenPlaces h v := hd.follows hc hq hv
  refine Matches.preserves (ht.matches_of_alike (fun q hq => hq.1) hfollows hkeeps fun q hq => ?_)
    (fun q hq => ⟨hh.has hq.1, hh.isFrozen hq.1 hq.2⟩) fun q hq hm => ?_
  · rcases hh.cell_of_frozen hq.1 hq.2 with he | ⟨r, name, f, v, rfl, hkeep⟩
    · exact .inl he
    · exact .inr ⟨r, rfl, hkeep.alike ht hc hlaw ht' hc'⟩
  · rcases hh.cell_of_frozen hq.1 hq.2 with he | ⟨r, -, -, -, rfl, -⟩
    · exact he
    · exact absurd rfl hm

/-! ## Runs -/

/-- **Runs preserve what is frozen.** -/
theorem Changes.preserves (hh : Changes {p} h h') (ht : h.Typed p) (hc : h.Closed)
    (hd : h.FrozenDeep) (hlaw : p.Lawful) : h.Preserves h' := by
  induction hh with
  | refl => exact .refl h
  | tail hfirst hlast ih =>
    refine ih.trans (hlast.preserves (Changes.typed hfirst ht hc).2 (Changes.closed hfirst hc) ?_ hlaw)
    exact Changes.frozenDeep hfirst hc hd

end Heap

end Protoscript
