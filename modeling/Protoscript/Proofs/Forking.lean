import Protoscript.Proofs.InStep
import Protoscript.Proofs.Transcoding

/-!
# Heaps that differ in messages that are alike

Two runs that store messages that are alike make the same cells, but for what the messages hold. So the
contents of all messages are alike afterwards, edits of their views included.

* `Heap.TypedOn.alloc`, `Heap.TypedOn.put` — cells at some places stay as their types ask for;
* `Heap.Forked` — two heaps with the same cells, but for messages that are alike;
* `Heap.Forked.alloc`, `Heap.Forked.put` — cells that are made and overwritten in both;
* `Heap.Forked.contents` — what messages hold is alike.
-/

namespace Protoscript

variable {p : Pool}

namespace Heap

variable {h h' : Heap} {S : Set Place}

/-! ## Cells that are added or overwritten -/

theorem TypedOn.alloc (hS : h.TypedOn p S) {s : Shelf} {c : Cell s} (hc : Cell.Typed p h c)
    (hrefs : ∀ v ∈ c.values, ∀ r, v.ref? = some r → r ∈ S) :
    (h.alloc s c).TypedOn p (insert ⟨s, h.fresh s⟩ S) := by
  have hh := keepsTypes_alloc h c
  refine ⟨fun {q} hq => ?_, fun {q} hq => ?_, fun {q} hq v hv r hr => .inr ?_⟩
  · rcases hq with rfl | hq
    · exact has_fresh_alloc h s c
    · exact (hh q (hS.has hq)).1
  · rcases hq with rfl | hq
    · rw [cell_alloc_self]
      exact hc.keep hh
    · rw [cell_alloc_of_has h c (hS.has hq)]
      exact (hS.typed hq).keep hh
  · rcases hq with rfl | hq
    · rw [cell_alloc_self] at hv
      exact hrefs v hv r hr
    · rw [cell_alloc_of_has h c (hS.has hq)] at hv
      exact hS.closed hq hv hr

theorem TypedOn.put (hS : h.TypedOn p S) {s : Shelf} {r : Ref s} {c : Cell s} (hr : ⟨s, r⟩ ∈ S)
    (htype : (h.cell r).SameType c) (hc : Cell.Typed p h c)
    (hrefs : ∀ v ∈ c.values, ∀ r, v.ref? = some r → r ∈ S) : (h.put r c).TypedOn p S := by
  have hh := keepsTypes_put (hS.has hr) htype
  refine ⟨fun {q} hq => (hh q (hS.has hq)).1, fun {q} hq => ?_, fun {q} hq v hv r' hr' => ?_⟩
  · by_cases hqr : q = ⟨s, r⟩
    · subst hqr
      rw [cell_put_self h r c (hS.has hr)]
      exact hc.keep hh
    · rw [cell_put_of_place_ne h hqr]
      exact (hS.typed hq).keep hh
  · by_cases hqr : q = ⟨s, r⟩
    · subst hqr
      rw [cell_put_self h r c (hS.has hr)] at hv
      exact hrefs v hv r' hr'
    · rw [cell_put_of_place_ne h hqr] at hv
      exact hS.closed hq hv hr'

section

variable (hS : h.TypedOn p S)

include hS

theorem TypedOn.gives {v : Value} (hv : ∀ a, v.ref? = some a → a ∈ S) : v.Gives p h.contents := by
  rintro r m rfl hm
  exact (hS.contents (hv _ rfl) hm).gives (hS.message (hv _ rfl)).among

theorem TypedOn.repeatedContents {r : Ref .repeated} (hr : ⟨.repeated, r⟩ ∈ S)
    (hlist : (h.cell r).field.isList = true) {s : Stored} (hs : h.repeatedContents r = .ok s) :
    (h.cell r).field.Holds s :=
  RepeatedCell.holds_toStored (hS.repeated hr).field
    (fun _ hv => hS.gives fun _ ha => hS.closed hr hv ha) hs hlist

theorem TypedOn.mapContents {r : Ref .map} (hr : ⟨.map, r⟩ ∈ S)
    (hmap : (h.cell r).field.isMap = true) {s : Stored} (hs : h.mapContents r = .ok s) :
    (h.cell r).field.Holds s :=
  MapCell.holds_toStored (hS.map hr).field
    (fun e he => ⟨hS.gives fun _ ha => hS.closed hr (List.mem_flatMap.2 ⟨e, he, List.mem_cons_self⟩) ha,
      hS.gives fun _ ha => hS.closed hr (List.mem_flatMap.2 ⟨e, he, .tail _ List.mem_cons_self⟩) ha⟩) hs hmap

end

end Heap

/-- A message that was not read yet is as its type asks for. -/
theorem MessageDescriptor.Takes.typed {d : MessageDescriptor} (hd : d.Among {p}) {m : Message}
    (hm : d.Takes m) (h : Heap) (config : Config) : MessageCell.Typed p h { content := m, config := config } :=
  ⟨hm.descriptor ▸ hd, hm.conforms, List.forall_mem_nil _, List.nodup_nil⟩

/-! ## Forked heaps -/

/-- Whether two cells are the same, but for a content that is alike. -/
def Cell.Forked : {s : Shelf} → Cell s → Cell s → Prop
  | .list, c, c' => c' = c
  | .dict, c, c' => c' = c
  | .message, c, c' => ∃ m, (MessageCell.content c).Alike False m ∧
    c' = ({ (c : MessageCell) with content := m } : MessageCell)
  | .repeated, c, c' => c' = c
  | .map, c, c' => c' = c

namespace Cell

variable {s : Shelf} {c c' : Cell s}

theorem Forked.refl (c : Cell s) : c.Forked c := by
  cases s with
  | message => exact ⟨_, .refl _, rfl⟩
  | _ => exact Eq.refl c

theorem Forked.sameType (h : c.Forked c') : c.SameType c' := by
  cases s with
  | list | dict => trivial
  | message =>
    obtain ⟨m, hm, rfl⟩ := h
    exact hm.descriptor_eq
  | «repeated» | map =>
    cases h
    exact Eq.refl _

/-- Cells of one type are so after cells that are like them. -/
theorem SameType.trans_left {c₁ c₂ d₁ d₂ : Cell s} (hc : c₁.SameType c₂) (hcd : c₁.SameType d₁)
    (hd : d₁.SameType d₂) : c₂.SameType d₂ := by
  cases s with
  | list | dict => trivial
  | message | «repeated» | map => exact hd.trans (hcd.trans hc.symm)

theorem Forked.values_eq (h : c.Forked c') : c'.values = c.values := by
  cases s with
  | message =>
    obtain ⟨m, -, rfl⟩ := h
    rfl
  | _ =>
    cases h
    rfl

end Cell

namespace Heap

/-- Whether two heaps have the same cells, but for what messages hold, which is alike; on both, the cells
at some places are as types of a pool ask for. -/
structure Forked (p : Pool) (S : Set Place) (h h' : Heap) : Prop where
  size (s : Shelf) : (h'.shelf s).size = (h.shelf s).size
  cell {q : Place} (hq : h.Has q) : (h.cell q.2).Forked (h'.cell q.2)
  left : h.TypedOn p S
  right : h'.TypedOn p S

variable {h h' : Heap} {S : Set Place}

theorem TypedOn.forked (hS : h.TypedOn p S) : h.Forked p S h :=
  ⟨fun _ => rfl, fun _ => .refl _, hS, hS⟩

section

variable (hk : h.Forked p S h')

include hk

theorem Forked.has {q : Place} (hq : h.Has q) : h'.Has q := by
  unfold Has
  rw [hk.size]
  exact hq

theorem Forked.fresh_eq (s : Shelf) : h'.fresh s = h.fresh s := by
  unfold fresh
  rw [hk.size]

theorem Forked.keepsTypes : h.KeepsTypes h' := fun _ hq => ⟨hk.has hq, (hk.cell hq).sameType⟩

/-- Cells that are no messages are the same. -/
theorem Forked.cell_eq {s : Shelf} (hs : s ≠ .message) {r : Ref s} (hr : h.Has ⟨s, r⟩) :
    h'.cell r = h.cell r := by
  have hcell := hk.cell hr
  cases s with
  | message => exact absurd rfl hs
  | _ => exact hcell

/-- **Cells that are alike are made** in both heaps. -/
theorem Forked.alloc {s : Shelf} {c c' : Cell s} (hcc : c.Forked c') (hc : Cell.Typed p h c)
    (hc' : Cell.Typed p h' c') (hrefs : ∀ v ∈ c.values, ∀ r, v.ref? = some r → r ∈ S) :
    (h.alloc s c).Forked p (insert ⟨s, h.fresh s⟩ S) (h'.alloc s c') := by
  refine ⟨fun t => ?_, fun {q} hq => ?_, hk.left.alloc hc hrefs, ?_⟩
  · by_cases ht : t = s
    · subst ht
      rw [size_shelf_alloc_self, size_shelf_alloc_self, hk.size]
    · rw [size_shelf_alloc_of_ne _ ht, size_shelf_alloc_of_ne _ ht, hk.size]
  · rcases has_alloc hq with rfl | hold
    · have hcell : (h'.alloc s c').cell (h.fresh s) = c' := by rw [← hk.fresh_eq, cell_alloc_self]
      rw [cell_alloc_self, hcell]
      exact hcc
    · rw [cell_alloc_of_has h c hold, cell_alloc_of_has h' c' (hk.has hold)]
      exact hk.cell hold
  · rw [← hk.fresh_eq]
    exact hk.right.alloc hc' (hcc.values_eq ▸ hrefs)

/-- **Messages that are alike are made** in both heaps, at the same place. -/
theorem Forked.newMessage {d : MessageDescriptor} (hd : d.Among {p}) {x y : Message} (hx : d.Takes x)
    (hy : d.Takes y) (hxy : x.Alike False y) (config : Config) :
    (h'.newMessage y config).1 = (h.newMessage x config).1 ∧
      (h.newMessage x config).2.Forked p (insert ⟨.message, h.fresh .message⟩ S)
        (h'.newMessage y config).2 :=
  ⟨congrArg Value.message (hk.fresh_eq .message), hk.alloc (s := .message) ⟨y, hxy, rfl⟩ (hx.typed hd h config)
    (hy.typed hd h' config) (List.forall_mem_nil _)⟩

/-- **Cells are overwritten** in both heaps with cells that are alike. -/
theorem Forked.put {s : Shelf} {r : Ref s} {c c' : Cell s} (hr : ⟨s, r⟩ ∈ S)
    (htype : (h.cell r).SameType c) (hcc : c.Forked c') (hc : Cell.Typed p h c) (hc' : Cell.Typed p h' c')
    (hrefs : ∀ v ∈ c.values, ∀ r, v.ref? = some r → r ∈ S) :
    (h.put r c).Forked p S (h'.put r c') := by
  have hhas := hk.left.has hr
  have htype' : (h'.cell r).SameType c' := (hk.cell hhas).sameType.trans_left htype hcc.sameType
  refine ⟨fun t => ?_, fun {q} hq => ?_, hk.left.put hr htype hc hrefs,
    hk.right.put hr htype' hc' (hcc.values_eq ▸ hrefs)⟩
  · rw [size_shelf_put, size_shelf_put, hk.size]
  · by_cases hqr : q = ⟨s, r⟩
    · subst hqr
      rw [cell_put_self h r c hhas, cell_put_self h' r c' (hk.has hhas)]
      exact hcc
    · rw [cell_put_of_place_ne h hqr, cell_put_of_place_ne h' hqr]
      exact hk.cell (has_put.1 hq)

/-- The heaps are alike at the places where both are as types ask for. -/
theorem Forked.matches : Matches .alike 0 S h h' where
  has hq := ⟨hk.left.has hq, hk.right.has hq⟩
  name hq := congrArg MessageDescriptor.fullName (hk.keepsTypes.message hq)
  message {q} hq := by
    obtain ⟨m, hm, heq⟩ := hk.cell (hk.left.has hq)
    exact .inl ⟨heq ▸ hm, heq ▸ rfl⟩
  repeated hq := congrArg Cell.freeze (hk.cell (hk.left.has hq))
  map hq := congrArg Cell.freeze (hk.cell (hk.left.has hq))
  closed hq hv q' hq' := ⟨hk.left.has (hk.left.closed hq hv hq'), .inl (hk.left.closed hq hv hq')⟩
  adopt hq _ _ hm hok := hk.left.adopt_alike hq hm hok

/-- **What messages hold is alike**, edits of their views included. -/
theorem Forked.contents {r : Ref .message} (hr : ⟨.message, r⟩ ∈ S) :
    Except.Alike (Message.Alike False) (h.contents r) (h'.contents r) :=
  hk.matches.contents hr (Nat.zero_le _)

end

end Heap

end Protoscript
