import Protoscript.Proofs.Flushing
import Protoscript.Proofs.Separation

/-!
# What lies below a view

What messages and views hold is a tree: nothing is below itself, and nothing is below two different
things that one place holds. So what is written at one place changes what is above it, and leaves all
other branches as they are.

* `Heap.Forest.not_below_self`, `Heap.Forest.below_unique` — the two facts about the tree;
* `Heap.Reachable.region_matches` — two heaps that differ outside a branch are alike on it;
* `Heap.Spared` — whether a later heap differs from one at a single place that is in no branch of a
  value; what the value is stored as is the same then.
-/

namespace Protoscript

variable {p : Pool}

/-- Results that are alike as equal ones are equal, if there are any. -/
theorem Except.Alike.option_eq {ε α : Type} {x y : Except ε (Option α)}
    (h : Except.Alike (Option.Rel Eq) x y) : y = x := by
  refine (h.mono fun s t _ _ hst => ?_).eq
  cases hst with
  | some hst => exact congrArg some hst
  | none => rfl

namespace Heap

variable {h h' : Heap} {a b c q : Place}

/-! ## The tree -/

section

variable (hf : h.Forest) (hflat : h.Flat)

include hf hflat

/-- What is below a message lies in a slot of that message or of a younger one. -/
theorem Forest.slot_below {r : Ref .message} (hq : Relation.TransGen h.Holds ⟨.message, r⟩ q) :
    ∃ (slot : Slot) (v : Value), h.Fills slot v ∧ v.ref? = some q ∧ r.index ≤ slot.owner.index := by
  have viewed {s : Ref .message} {q : Place} (hs : r.index ≤ s.index)
      (hh : h.Holds ⟨.message, s⟩ q) : ∃ (slot : Slot) (v : Value),
        h.Fills slot v ∧ v.ref? = some q ∧ r.index ≤ slot.owner.index := by
    cases hh with
    | @view _ name v _ hv hq => exact ⟨⟨s, name, none⟩, v, hv, hq, hs⟩
    | element hv hw =>
      rw [elements_of_shelf hv (by decide)] at hw
      cases hw
  induction hq with
  | single hh => exact viewed (Nat.le_refl _) hh
  | @tail c q _ hh ih =>
    obtain ⟨⟨owner, name, position⟩, v, hfills, hv, hle⟩ := ih
    cases hh with
    | view hview hq =>
      obtain rfl : v = .message _ := Value.eq_of_ref? hv rfl
      exact viewed (hle.trans (Nat.le_of_lt (hf.later hfills))) (.view hview hq)
    | @element view w _ _ hview hw hq =>
      obtain rfl := Value.eq_of_ref? hv hview
      cases position with
      | none =>
        obtain ⟨i, hi⟩ := List.getElem?_of_mem hw
        exact ⟨⟨owner, name, some i⟩, w, ⟨v, hfills, hi⟩, hq, hle⟩
      | some i =>
        -- what is an element has no elements
        obtain ⟨u, -, hi⟩ := hfills
        rw [elements_of_shelf hv (hflat (List.mem_of_getElem? hi) hv)] at hw
        cases hw

/-- A message below another one is younger. -/
theorem Forest.lt_of_below {r s : Ref .message}
    (hs : Relation.TransGen h.Holds ⟨.message, r⟩ ⟨.message, s⟩) : r.index < s.index := by
  obtain ⟨slot, v, hfills, hv, hle⟩ := hf.slot_below hflat hs
  obtain rfl : v = .message s := Value.eq_of_ref? hv rfl
  exact Nat.lt_of_le_of_lt hle (hf.later hfills)

/-- **Nothing is below itself.** -/
theorem Forest.not_below_self (a : Place) : ¬ Relation.TransGen h.Holds a a := by
  have message (r : Ref .message) : ¬ Relation.TransGen h.Holds ⟨.message, r⟩ ⟨.message, r⟩ :=
    fun hr => Nat.lt_irrefl _ (hf.lt_of_below hflat hr)
  intro ha
  obtain ⟨b, hb, hba⟩ := Relation.TransGen.head'_iff.1 ha
  have hb' : Relation.TransGen h.Holds b b := Relation.TransGen.tail' hba hb
  cases hb with
  | view => exact message _ ha
  | element _ hw hq =>
    -- an element is a message, since it holds something
    obtain ⟨c, hc, -⟩ := Relation.TransGen.head'_iff.1 hb'
    obtain ⟨s, r⟩ := b
    obtain rfl : s = .message := hc.shelf.resolve_right (not_or.2 (hflat hw hq))
    exact message r hb'

/-- **Nothing is below two things** that one place holds. -/
theorem Forest.below_unique (hc : h.Settled c) (ha : h.Holds c a) (hb : h.Holds c b)
    (hqa : h.Below a q) (hqb : h.Below b q) : a = b := by
  -- what is held by a place below one of them is not the other one
  have apart {a b d : Place} (ha : h.Holds c a) (hb : h.Holds c b) (hd : h.Below a d) :
      ¬ h.Holds d b := by
    intro hdb
    have hsettled : h.Settled d := by
      cases hd with
      | refl => exact ha.settled hflat
      | tail _ hlast => exact hlast.settled hflat
    obtain rfl := hf.holder_unique hsettled hc hdb hb
    exact hf.not_below_self hflat d (Relation.TransGen.head' ha hd)
  induction hqa with
  | refl =>
    cases hqb with
    | refl => rfl
    | tail hd hda => exact absurd hda (apart hb ha hd)
  | @tail d q hd hdq ih =>
    cases hqb with
    | refl => exact absurd hdq (apart ha hb hd)
    | @tail e _ he heq =>
      have settled {a d : Place} (ha : h.Holds c a) (hd : h.Below a d) : h.Settled d := by
        cases hd with
        | refl => exact ha.settled hflat
        | tail _ hlast => exact hlast.settled hflat
      obtain rfl := hf.holder_unique (settled ha hd) (settled hb he) hdq heq
      exact ih he

end

/-! ## Branches that are as they were -/

/-- A view of a map field that a message keeps is one of a map field. -/
theorem Typed.isMap_of_settled (ht : h.Typed p) {r : Ref .map} (hr : h.Settled ⟨.map, r⟩) :
    (h.cell r).field.isMap = true := by
  obtain ⟨s, hs⟩ := hr (.inr rfl)
  cases hs with
  | view hview hq =>
    obtain rfl := Value.eq_of_ref? hq (w := .map r) rfl
    obtain ⟨f, -, hviews⟩ := (ht.message (has_of_views hview)).views _ hview
    cases hviews with
    | map hmap _ hf => exact hf ▸ hmap
    | plain _ _ hv => cases hv
  | element hv hw =>
    rw [elements_of_shelf hv (by decide)] at hw
    cases hw

/-- What a type that can be a key has in a view is no reference. -/
theorem Fits.ref?_eq_none {kind : Kind} {v : Value} (hv : h.Fits kind v) (hkey : kind.isKey = true) :
    v.ref? = none := by
  cases hv with
  | scalar => exact Scalar.ref?_toValue _ _
  | message hk =>
    rw [hk] at hkey
    cases hkey

/-- What is held is a message or a view. -/
theorem Typed.shelf_of_held (ht : h.Typed p) (hq : h.Holds c q) :
    q.1 = .message ∨ q.1 = .repeated ∨ q.1 = .map := by
  have fits {kind : Kind} {w : Value} (hw : h.Fits kind w) (hq : w.ref? = some q) :
      q.1 = .message := by
    cases hw with
    | scalar => cases (Scalar.ref?_toValue _ _).symm.trans hq
    | message =>
      cases hq
      rfl
  cases hq with
  | view hview hq =>
    obtain ⟨f, -, hviews⟩ := (ht.message (has_of_views hview)).views _ hview
    cases hviews with
    | map | list | message =>
      cases hq
      simp
    | plain _ _ hv => cases hv.symm.trans hq
  | @element v w _ _ _ hw hq =>
    obtain ⟨p', hp', hhas⟩ := has_of_elements hw
    cases v with
    | «repeated» r =>
      cases hp'
      exact .inl (fits ((ht.repeated hhas).items w hw) hq)
    | map r =>
      cases hp'
      obtain ⟨e, he, rfl⟩ := List.mem_map.1 hw
      exact .inl (fits ((ht.map hhas).entries e he).2 hq)
    | _ => cases hw

section

variable (hkeys : p.PlainKeys) (hh : Reachable {p} h) {W A : Set Place}
  (hA : ∀ a ∈ A, ∃ c, h.Holds c a)

include hA

/-- What is in a branch of something held is held. -/
theorem held_of_region (hq : q ∈ h.region A) : ∃ c, h.Holds c q := by
  obtain ⟨a, ha, hbelow⟩ := hq
  cases hbelow with
  | refl => exact hA _ ha
  | tail _ hlast => exact ⟨_, hlast⟩

include hkeys hh

/-- What a place in a branch leads to is in the branch. -/
theorem Reachable.region_closed {v : Value} (hq : q ∈ h.region A) (hv : v ∈ (h.cell q.2).values) :
    Follows 0 (h.region A) h v := by
  have ht := hh.typed
  obtain ⟨c, hcq⟩ := held_of_region hA hq
  have hhas : h.Has q := hcq.has hh.closed
  have held {w : Value} (hw : ∀ q', w.ref? = some q' → h.Holds q q') :
      Follows 0 (h.region A) h w := by
    obtain ⟨a, ha, hbelow⟩ := hq
    exact fun q' hq' => ⟨(hw q' hq').has hh.closed, .inl ⟨a, ha, hbelow.tail (hw q' hq')⟩⟩
  obtain ⟨s, r⟩ := q
  rcases ht.shelf_of_held hcq with hs | hs | hs <;> cases hs
  · obtain ⟨view, hview, rfl⟩ := List.mem_map.1 hv
    exact held fun q' hq' => .view hview hq'
  · exact held fun q' hq' => .element (v := .repeated r) rfl hv hq'
  · obtain ⟨e, he, hv⟩ := List.mem_flatMap.1 hv
    rcases List.mem_cons.1 hv with rfl | hv
    · -- keys are no references
      have hmap := ht.isMap_of_settled (hcq.settled hh.flat)
      have hnone := ((ht.map hhas).entries e he).1.ref?_eq_none ((ht.map hhas).field.isKey hkeys hmap)
      intro q' hq'
      cases hnone.symm.trans hq'
    · obtain rfl := List.mem_singleton.1 hv
      exact held fun q' hq' => .element (v := .map r) rfl (List.mem_map.2 ⟨e, he, rfl⟩) hq'

/-- **A branch that was not written to** is as it was. -/
theorem Reachable.region_matches (ha : h.Alters W h') (hkeeps : h.KeepsTypes h')
    (hW : ∀ q ∈ W, q ∉ h.region A) : Matches .eq 0 (h.region A) h h' := by
  have hhas {q : Place} (hq : q ∈ h.region A) : h.Has q := by
    obtain ⟨c, hcq⟩ := held_of_region hA hq
    exact hcq.has hh.closed
  have same {q : Place} (hq : q ∈ h.region A) : h'.cell q.2 = h.cell q.2 :=
    ha.cell (hhas hq) fun hmem => hW q hmem hq
  refine ⟨fun hq => ⟨hhas hq, Alters.has ha (hhas hq)⟩, fun hq => ?_, fun hq => .inl ?_,
    fun hq => congrArg Cell.freeze (same hq), fun hq => congrArg Cell.freeze (same hq),
    fun hq hv => hh.region_closed hkeys hA hq hv, fun _ _ _ hm _ => .of_eq (fun _ _ => rfl) (by rw [hm])⟩
  · exact congrArg MessageDescriptor.fullName (hkeeps.message hq)
  · exact ⟨congrArg MessageCell.content (same hq).symm, congrArg MessageCell.views (same hq)⟩

end

/-! ## Values in branches that are as they were -/

/-- Whether a value leads, if anywhere, to something held that none of some places is below. -/
def Spared (h : Heap) (W : Set Place) (v : Value) : Prop :=
  ∀ a, v.ref? = some a → (∃ c, h.Holds c a) ∧ ∀ q ∈ W, ¬ h.Below a q

section

variable (hkeys : p.PlainKeys) (hh : Reachable {p} h) {W : Set Place} {v : Value}
  (hv : h.Spared W v)

include hkeys hh hv

theorem Spared.matches (ha : h.Alters W h') (hkeeps : h.KeepsTypes h') :
    Matches .eq 0 (h.region {a | v.ref? = some a}) h h' ∧
      Follows 0 (h.region {a | v.ref? = some a}) h v := by
  refine ⟨hh.region_matches hkeys (fun a ha => (hv a ha).1) ha hkeeps ?_, fun a ha => ?_⟩
  · rintro q hq ⟨a, ha, hbelow⟩
    exact (hv a ha).2 q hq hbelow
  · obtain ⟨c, hc⟩ := (hv a ha).1
    exact ⟨hc.has hh.closed, .inl ⟨a, ha, .refl⟩⟩

/-- What a view would store is what it was. -/
theorem Spared.viewContents (ha : h.Alters W h') (hkeeps : h.KeepsTypes h') :
    h'.viewContents h'.contents v = h.viewContents h.contents v := by
  obtain ⟨hS, hfollows⟩ := hv.matches hkeys hh ha hkeeps
  exact (hS.viewContents hS.flushes hfollows).option_eq

/-- So is what a type stores it as. -/
theorem Spared.toStored (ha : h.Alters W h') (hkeeps : h.KeepsTypes h') {kind : Kind}
    {config : Config} :
    kind.toStored h' h'.contents v config = kind.toStored h h.contents v config := by
  obtain ⟨hS, hfollows⟩ := hv.matches hkeys hh ha hkeeps
  refine (Kind.toStored_alike (L := .eq) fun q hq => ?_).eq
  obtain ⟨hhas, hin⟩ := hfollows ⟨.message, q⟩ (hq ▸ rfl)
  refine ⟨hS.name hhas, fun d _ => ?_⟩
  have hcontents := (hS.contents (hin.resolve_right nofun) (Nat.zero_le _)).eq
  rw [hcontents]
  exact .of_eq (fun _ _ => rfl) rfl

end

/-- What a message writes back is what its views would store by themselves: they hold younger
messages only. -/
theorem Reachable.viewContents_follow (hkeys : p.PlainKeys) (hh : Reachable {p} h) {r : Ref .message}
    {name : String} {v : Value} (hv : (name, v) ∈ (h.cell r).views) :
    h.viewContents (h.follow r) v = h.viewContents h.contents v := by
  have hspared : h.Spared ∅ v := fun a ha => ⟨⟨_, .view hv ha⟩, fun _ hq => absurd hq (Set.notMem_empty _)⟩
  obtain ⟨hS, hfollows⟩ := hspared.matches hkeys hh (.refl ∅ h) fun q hq => ⟨hq, .refl _⟩
  have hflush : Flushes .eq 0 (h.region {a | v.ref? = some a}) h h.contents (h.follow r) := by
    intro q _ hin
    obtain ⟨a, ha, hbelow⟩ := hin.resolve_right (Nat.not_lt_zero _)
    have hlt : r.index < q.index :=
      hh.forest.lt_of_below hh.flat (Relation.TransGen.head' (.view hv ha) hbelow)
    rw [follow_of_lt (has_of_views hv) hlt]
    exact ⟨.of_eq (fun _ _ => rfl) rfl, fun _ hm => hm⟩
  exact (hS.viewContents hflush hfollows).option_eq

end Heap

end Protoscript
