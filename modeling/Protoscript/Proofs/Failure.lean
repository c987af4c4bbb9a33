import Protoscript.Proofs.Contents
import Protoscript.Proofs.Reachable

/-!
# Failed operations

An operation that fails leaves everything as it was: it may have made cells for what it then gave up,
but it has altered none.

* `Heap.Lasts.matches` — a heap in which all cells last is alike on them;
* `Operation.error_keeps` — a failed operation leaves no trace.
-/

namespace Protoscript

variable {pools : Set Pool} {h h' : Heap}

namespace Heap

/-- A heap that has the cells of another, up to their being frozen, is alike on all of them. -/
theorem Lasts.matches (hh : h.Lasts h') (hc : h.Closed) : Matches .eq 0 {p | h.Has p} h h' where
  has {p} hp := ⟨hp, (hh p hp).1⟩
  name hq := hh.fullName hq
  message hq := .inl ⟨(hh.content hq).symm, hh.views hq⟩
  repeated {q} hq := (hh ⟨.repeated, q⟩ hq).2
  map {q} hq := (hh ⟨.map, q⟩ hq).2
  closed {p v} hp hv q hq := by
    have hhas := (hc p hp v hv).has (Value.place?_of_ref? hq)
    exact ⟨hhas, .inl hhas⟩
  adopt _ _ _ hm _ := .of_eq (fun _ _ => rfl) (by rw [hm])

/-- What messages and views hold does not change when the heap grows. -/
theorem Grows.contents (hg : h.Grows h') (hc : h.Closed) {r : Ref .message}
    (hr : h.Has ⟨.message, r⟩) : h'.contents r = h.contents r :=
  ((hg.lasts.matches hc).contents hr (Nat.zero_le _)).eq

end Heap

/-- **Failed operations leave no trace.** If an operation on a heap of a run fails, every cell that
there was, with its frozen flag, is as it was, and every message and view holds what it held. -/
theorem Operation.error_keeps {α : Type} {op : Operation α} {e : Error}
    (hh : Heap.Reachable pools h) (hop : op.Within pools h) (hrun : op.run h = (.error e, h')) :
    (∀ p : Place, h.Has p → h'.Has p ∧ h'.cell p.2 = h.cell p.2) ∧
      (∀ r : Ref .message, h.Has ⟨.message, r⟩ → h'.contents r = h.contents r) ∧
      (∀ r : Ref .repeated, h.Has ⟨.repeated, r⟩ → h'.repeatedContents r = h.repeatedContents r) ∧
      ∀ r : Ref .map, h.Has ⟨.map, r⟩ → h'.mapContents r = h.mapContents r := by
  have hc := hh.closed
  have hg : h.Grows h' := (op.runs hc hop).error hrun
  refine ⟨fun p hp => ⟨hg.has hp, hg.cell hp⟩, fun r hr => hg.contents hc hr, fun r hr => ?_,
    fun r hr => ?_⟩
  · exact ((hg.lasts.matches hc).repeatedContents hr).eq
  · exact ((hg.lasts.matches hc).mapContents hr).eq

namespace Sample

/-- After the items of the node were read. -/
def listed : Heap where
  messages := #[{ content := tree, views := [("items", .repeated ⟨0⟩)], config := {} }]
  repeateds := #[{ field := ⟨node, field "items" 4 (.scalar .int32) true none⟩, config := {} }]

theorem reachable_listed : Heap.Reachable {pool} listed := by
  have hrun : ((Operation.attr (.message root) "items").run wrapped).2 = listed := rfl
  rw [← hrun]
  exact reachable_wrapped.tail (.operation _ (within_of_message {pool} wrapped rfl (by decide) trivial))

/-- Extending the items by an integer and a text. -/
def extendMixed : Operation Value :=
  .call (.callable (.repeated 0 "list<int32>" ⟨0⟩ .extend)) [.tuple [.int 1, .text "a"]] []

theorem within_extendMixed : extendMixed.Within {pool} listed := by
  have hextend := given {pool} listed (.callable (.repeated 0 "list<int32>" ⟨0⟩ .extend)) nofun
    (fun p hp => by cases hp; exact (by decide : 0 < listed.repeateds.size)) rfl nofun
  have hone := given {pool} listed (.int 1) nofun nofun rfl nofun
  have ha := given {pool} listed (.text "a") nofun nofun rfl nofun
  have htuple : (Value.tuple [.int 1, .text "a"]).Within listed ∧
      (Value.tuple [.int 1, .text "a"]).From {pool} :=
    ⟨Value.within_tuple.2 (List.forall_mem_cons.2 ⟨hone.1, List.forall_mem_singleton.2 ha.1⟩),
      Value.all_tuple.2 (List.forall_mem_cons.2 ⟨hone.2, List.forall_mem_singleton.2 ha.2⟩)⟩
  exact within_of_given (List.forall_mem_cons.2 ⟨hextend, List.forall_mem_singleton.2 htuple⟩) trivial

/-- The text is refused, and nothing is appended. -/
theorem extendMixed_keeps : Heap.Reachable {pool} listed ∧ extendMixed.Within {pool} listed ∧
    ∃ e h', extendMixed.run listed = (.error e, h') ∧
      ∀ p : Place, listed.Has p → h'.Has p ∧ h'.cell p.2 = listed.cell p.2 :=
  ⟨reachable_listed, within_extendMixed, _, _, rfl,
    (Operation.error_keeps reachable_listed within_extendMixed rfl).1⟩

end Sample

end Protoscript
