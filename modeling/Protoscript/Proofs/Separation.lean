import Protoscript.Proofs.Forest
import Mathlib.Data.Set.BooleanAlgebra
import Mathlib.Order.CompletePartialOrder

/-!
# What stays apart

Messages hold the views that they keep, and views their elements. What is made later is held by one
thing only, so two things that hold nothing in common at some time never come to, whatever is done.

* `Heap.Holds`, `Heap.Below` — what holds what, directly and at any depth;
* `Heap.Settled` — whether something is no view that was given up;
* `Heap.Sole` — what is newer than a heap is held by one thing;
* `Heap.Reaches.continues` — this is kept over a run, one operation after another;
* `Heap.Continues.disjoint` — so what was apart on that heap is apart later.
-/

namespace Protoscript

namespace Heap

variable {pools : Set Pool} {base h mid h' : Heap} {p p' q : Place}

/-! ## Holding -/

/-- Whether a place holds another one: a message a view that it keeps, or a view an element. -/
inductive Holds (h : Heap) : Place → Place → Prop
  | view {r : Ref .message} {name : String} {v : Value} {q : Place}
    (hv : (name, v) ∈ (h.cell r).views) (hq : v.ref? = some q) : Holds h ⟨.message, r⟩ q
  | element {v w : Value} {p q : Place} (hp : v.ref? = some p) (hw : w ∈ h.elements v)
    (hq : w.ref? = some q) : Holds h p q

/-- Whether a place is held by another one at some depth, or is that place. -/
def Below (h : Heap) : Place → Place → Prop := Relation.ReflTransGen h.Holds

/-- Whether a place is none of a view, unless a message keeps the view. -/
def Settled (h : Heap) (p : Place) : Prop :=
  p.1 = .repeated ∨ p.1 = .map → ∃ r : Ref .message, h.Holds ⟨.message, r⟩ p

theorem settled_message (h : Heap) (r : Ref .message) : h.Settled ⟨.message, r⟩ := by
  rintro (he | he) <;> cases he

/-- What holds something is a message or a view. -/
theorem Holds.shelf (hh : h.Holds p q) : p.1 = .message ∨ p.1 = .repeated ∨ p.1 = .map := by
  cases hh with
  | view => exact .inl rfl
  | element hp hw =>
    obtain ⟨s, r⟩ := p
    by_cases hs : s = .repeated ∨ s = .map
    · exact .inr hs
    · rw [elements_of_shelf hp (not_or.1 hs)] at hw
      cases hw

theorem Holds.has_holder (hh : h.Holds p q) : h.Has p := by
  cases hh with
  | view hv => exact has_of_views hv
  | element hp hw =>
    obtain ⟨p', hp', hhas⟩ := has_of_elements hw
    cases hp.symm.trans hp'
    exact hhas

theorem Holds.has (hh : h.Holds p q) (hc : h.Closed) : h.Has q := by
  cases hh with
  | @view r name v q hv hq =>
    exact (hc.fills (a := ⟨r, name, none⟩) hv).has (Value.place?_of_ref? hq)
  | element hp hw hq =>
    obtain ⟨p', hp', hhas⟩ := has_of_elements hw
    exact (hc.elements (within_of_ref? hp' hhas) _ hw).has (Value.place?_of_ref? hq)

/-- A message without views holds nothing. -/
theorem not_holds_of_views {r : Ref .message} (hr : (h.cell r).views = []) :
    ¬ h.Holds ⟨.message, r⟩ q := by
  intro hh
  cases hh with
  | view hv =>
    rw [hr] at hv
    cases hv
  | element hv hw =>
    rw [elements_of_shelf hv (by decide)] at hw
    cases hw

/-- A view that is settled is kept. -/
theorem Settled.not_loose (hp : h.Settled p) {v : Value} (hv : v.ref? = some p)
    (hshelf : p.1 = .repeated ∨ p.1 = .map) : ¬ h.Loose v := by
  intro hloose
  obtain ⟨r, hholds⟩ := hp hshelf
  cases hholds with
  | view hmem hq => exact hloose r _ (Value.eq_of_ref? hq hv ▸ hmem)
  | element hr hw =>
    rw [elements_of_shelf hr (by decide)] at hw
    cases hw

/-- A settled holder is told by the slot that it holds something in. -/
theorem Holds.slot (hp : h.Settled p) (hh : h.Holds p q) : ∃ a v, h.Fills a v ∧ v.ref? = some q ∧
    (a.position = none ∧ p = ⟨.message, a.owner⟩ ∨ ∃ i view, a.position = some i ∧
      (a.name, view) ∈ (h.cell a.owner).views ∧ view.ref? = some p) := by
  have hshelf := hh.shelf
  cases hh with
  | @view r name v _ hv hq => exact ⟨⟨r, name, none⟩, v, hv, hq, .inl ⟨rfl, rfl⟩⟩
  | @element view w p _ hview hw hq =>
    have hshelf : p.1 = .repeated ∨ p.1 = .map := by
      refine hshelf.resolve_left fun he => ?_
      rw [elements_of_shelf (s := p.1) (r := p.2) hview (by rw [he]; decide)] at hw
      cases hw
    have hkept := hp.not_loose hview hshelf
    simp only [Loose, not_forall, not_not] at hkept
    obtain ⟨r, name, hmem⟩ := hkept
    obtain ⟨i, hi⟩ := List.getElem?_of_mem hw
    exact ⟨⟨r, name, some i⟩, w, ⟨view, hmem, hi⟩, hq, .inr ⟨i, view, rfl, hmem, hview⟩⟩

/-- **What is settled shares nothing it holds** with what else is settled. -/
theorem Forest.holder_unique (hf : h.Forest) (hp : h.Settled p) (hp' : h.Settled p')
    (hh : h.Holds p q) (hh' : h.Holds p' q) : p = p' := by
  obtain ⟨a, v, ha, hv, hat⟩ := hh.slot hp
  obtain ⟨b, w, hb, hw, hbt⟩ := hh'.slot hp'
  obtain rfl := Value.eq_of_ref? hv hw
  obtain rfl := hf.unique ha hb (by rw [hv]; rfl)
  rcases hat with ⟨hnone, rfl⟩ | ⟨i, view, hi, hview, hp⟩
  · rcases hbt with ⟨-, rfl⟩ | ⟨i, _, hi, -⟩
    · rfl
    · cases hnone.symm.trans hi
  · rcases hbt with ⟨hnone, -⟩ | ⟨_, view', -, hview', hp'⟩
    · cases hnone.symm.trans hi
    · rw [hf.view_unique hview hview'] at hp
      exact Option.some.inj (hp.symm.trans hp')

/-! ## No view is an element -/

/-- Whether the elements of views are no views. -/
def Flat (h : Heap) : Prop :=
  ∀ ⦃v w : Value⦄ ⦃q : Place⦄, w ∈ h.elements v → w.ref? = some q → q.1 ≠ .repeated ∧ q.1 ≠ .map

/-- What is held is settled. -/
theorem Holds.settled (hh : h.Holds p q) (hf : h.Flat) : h.Settled q := by
  intro hq
  cases hh with
  | view hv he => exact ⟨_, .view hv he⟩
  | element _ hw he =>
    rcases hq with hq | hq
    · exact absurd hq (hf hw he).1
    · exact absurd hq (hf hw he).2

/-- The elements of a view after a change were elements, or are no views. -/
theorem Change.mem_elements (hh : Change pools h h') {v w : Value} (hw : w ∈ h'.elements v) :
    (∃ u, w ∈ h.elements u) ∨ ∀ q, w.ref? = some q → q.1 ≠ .repeated ∧ q.1 ≠ .map := by
  have made {s : Shelf} {c : Cell s} (hw : w ∈ h.elements v ∨ w ∈ Cell.elements c)
      (hc : ∀ w ∈ Cell.elements c, (∃ u, w ∈ h.elements u) ∨
        ∀ q, w.ref? = some q → q.1 ≠ .repeated ∧ q.1 ≠ .map) :
      (∃ u, w ∈ h.elements u) ∨ ∀ q, w.ref? = some q → q.1 ≠ .repeated ∧ q.1 ≠ .map :=
    hw.elim (fun hold => .inl ⟨v, hold⟩) (hc w)
  cases hh with
  | count n =>
    have hcell (p : Place) : ({ h with nextId := n } : Heap).cell p.2 = h.cell p.2 := by
      obtain ⟨s, r⟩ := p
      cases s <;> rfl
    exact .inl ⟨v, elements_congr (fun p _ => hcell p) ▸ hw⟩
  | list | dict | message => exact made (mem_elements_alloc hw) nofun
  | setList | setDict | assign | replace | keep => exact made (mem_elements_put hw) nofun
  | freeze => exact .inl ⟨v, elements_of_cells (freeze_cell_freezeAll h _) v ▸ hw⟩
  | «repeated» _ _ hitems =>
    refine made (mem_elements_alloc hw) fun w hw => ?_
    rcases hitems w hw with hnormal | ⟨q, -, -, hold⟩
    · exact .inr fun _ => hnormal.shelf
    · exact .inl ⟨.repeated q, hold⟩
  | readRepeated _ _ _ hc =>
    refine made (mem_elements_alloc hw) fun w hw => ?_
    obtain ⟨stored, -, hs⟩ := exists_of_forall₂ hc.items hw
    exact .inr fun _ => hs.shelf
  | map _ _ hentries =>
    refine made (mem_elements_alloc hw) fun w hw => ?_
    obtain ⟨e, he, rfl⟩ := List.mem_map.1 hw
    exact .inr fun _ => (hentries e he).2.shelf
  | readMap _ _ _ hc =>
    refine made (mem_elements_alloc hw) fun w hw => ?_
    obtain ⟨e, he, rfl⟩ := List.mem_map.1 hw
    obtain ⟨stored, -, -, hs⟩ := exists_of_forall₂ hc.entries he
    exact .inr fun _ => hs.shelf
  | @setRepeated r items _ _ hitems =>
    refine made (mem_elements_put hw) fun w hw => ?_
    exact (hitems w hw).elim (fun hold => .inl ⟨.repeated r, hold⟩) fun hnew => .inr fun _ => hnew.1.shelf
  | @setMap r entries _ _ _ hvalues =>
    refine made (mem_elements_put hw) fun w hw => ?_
    obtain ⟨e, he, rfl⟩ := List.mem_map.1 hw
    exact (hvalues e he).elim (fun hold => .inl ⟨.map r, hold⟩) fun hnew => .inr fun _ => hnew.1.shelf

theorem Changes.flat (hh : Changes pools h h') (hf : h.Flat) : h'.Flat := by
  induction hh with
  | refl => exact hf
  | tail _ hlast ih =>
    intro v w q hw hq
    rcases hlast.mem_elements hw with ⟨u, hold⟩ | hnew
    · exact ih hold hq
    · exact hnew q hq

/-- **In the heaps of a run, no view is an element.** -/
theorem Reachable.flat (hh : Reachable pools h) : h.Flat := by
  refine hh.changes.flat fun v w q hw => ?_
  obtain ⟨⟨s, r⟩, -, hhas⟩ := has_of_elements hw
  cases s <;> exact absurd hhas (Nat.not_lt_zero _)

/-! ## One operation -/

/-- What holds something later held it, or the thing is new, or the holder is a new view that is not
settled. -/
theorem Plants.holds (hp : h.Plants h') (hh : h'.Holds p q) :
    h.Holds p q ∨ ¬ h.Has q ∨ ¬ h.Has p ∧ ¬ h'.Settled p := by
  have hshelf := hh.shelf
  cases hh with
  | view hv hq => exact (hp.views hv).imp (.view · hq) fun hnew => .inl (hnew.not_has hq)
  | element hp' hw hq =>
    rcases hp.elements hw with hold | hnew | ⟨hnew, hloose⟩
    · exact .inl (.element hp' hold hq)
    · exact .inr (.inl (hnew.not_has hq))
    · refine .inr (.inr ⟨hnew.not_has hp', fun hsettled => ?_⟩)
      refine hsettled.not_loose hp' (hshelf.resolve_left fun he => ?_) hloose
      rw [elements_of_shelf (s := p.1) (r := p.2) hp' (by rw [he]; decide)] at hw
      cases hw

/-- What was there and is settled later was settled, if it held something. -/
theorem Plants.settled (hp : h.Plants h') (hs : h'.Settled p) (hh : h.Holds p q) : h.Settled p := by
  intro hshelf
  obtain ⟨r, hr⟩ := hs hshelf
  rcases hp.holds hr with hold | hno | ⟨-, hno⟩
  · exact ⟨r, hold⟩
  · exact absurd hh.has_holder hno
  · exact absurd (h'.settled_message r) hno

/-- What keeps its views and elements holds what it held. -/
theorem Holds.congr (hviews : ∀ r, p = ⟨.message, r⟩ → (h'.cell r).views = (h.cell r).views)
    (helements : ∀ v, v.ref? = some p → h'.elements v = h.elements v) (hh : h'.Holds p q) :
    h.Holds p q := by
  cases hh with
  | view hv hq => exact .view (hviews _ rfl ▸ hv) hq
  | element hp hw hq => exact .element hp (helements _ hp ▸ hw) hq

/-- Whether a later heap may come from one operation: what messages and views hold then they held, or
it is new, and at most one of those that there were holds anything new. -/
structure Advances (h h' : Heap) : Prop where
  plants : h.Plants h'
  has {p : Place} (hp : h.Has p) : h'.Has p
  /-- new messages have no views -/
  views {r : Ref .message} (hr : ¬ h.Has ⟨.message, r⟩) : (h'.cell r).views = []
  one {p p' q q' : Place} (hp : h.Has p) (hp' : h.Has p') (hq : ¬ h.Has q) (hq' : ¬ h.Has q')
    (hh : h'.Holds p q) (hh' : h'.Holds p' q') : p = p'

theorem Alters.advances {W : Set Place} (ha : h.Alters W h') (hc : h.Closed) (hp : h.Plants h')
    (hW : W.Subsingleton) : h.Advances h' where
  plants := hp
  has := ha.has
  views := ha.views
  one {p p' q q'} hp hp' hq hq' hh hh' := by
    -- what was not altered holds nothing new
    have altered {p q : Place} (hp : h.Has p) (hq : ¬ h.Has q) (hh : h'.Holds p q) : p ∈ W := by
      refine Classical.not_not.1 fun hno => hq (Holds.has (hh.congr (fun r he => ?_) fun v hv => ?_) hc)
      · exact ha.views_eq (he ▸ hno)
      · refine ha.elements_eq (within_of_ref? hv hp) fun p' hp' hmem => hno ?_
        rwa [Option.some.inj (hv.symm.trans hp')]
    exact hW (altered hp hq hh) (altered hp' hq' hh')

/-- Freezing puts nothing anywhere. -/
theorem advances_freeze (hc : h.Closed) (v : Value) : h.Advances (h.freeze v) := by
  have hcells := freeze_cell_freezeAll h [v]
  have hviews (r : Ref .message) : ((h.freeze v).cell r).views = (h.cell r).views :=
    (congrArg MessageCell.views (hcells ⟨.message, r⟩) :)
  refine ⟨plants_of_cells hcells, has_freezeAll.2, fun {r} hr => ?_, fun _ _ hq _ hh _ => ?_⟩
  · rw [hviews, cell_of_not_has (p := ⟨.message, r⟩) hr]
    rfl
  · exact absurd (Holds.has (hh.congr (fun r _ => hviews r) fun v _ => elements_of_cells hcells v) hc) hq

/-- **An operation puts new things into one place only.** -/
theorem Step.advances (hh : Step pools h h') (hc : h.Closed) : h.Advances h' := by
  cases hh with
  | @operation α op hop =>
    have hruns := op.runs hc hop
    rcases hrun : op.run h with ⟨e | a, mid⟩
    · have hg : h.Grows mid := hruns.error hrun
      exact hg.advances hc (hg.plants hc) Set.subsingleton_empty
    · obtain ⟨ha, hp⟩ := hruns.ok hrun
      rcases hfreezes : op.freezes with _ | _
      · refine ha.advances hc hp fun p hp p' hp' => ?_
        obtain ⟨v, hv, hp⟩ := hp.resolve_left (by rw [hfreezes]; decide)
        obtain ⟨w, hw, hp'⟩ := hp'.resolve_left (by rw [hfreezes]; decide)
        cases hv.symm.trans hw
        exact Option.some.inj (hp.symm.trans hp')
      · cases op <;> try cases hfreezes
        cases hrun
        exact advances_freeze hc _

/-! ## Runs -/

/-- Whether what is newer than a base is held by one thing at most, views that were given up since
apart. -/
def Sole (base h : Heap) : Prop :=
  ∀ ⦃p p' q : Place⦄, ¬ base.Has q → base.Has p ∨ h.Settled p → base.Has p' ∨ h.Settled p' →
    h.Holds p q → h.Holds p' q → p = p'

theorem Sole.refl (hc : h.Closed) : h.Sole h := fun _ _ _ hq _ _ hh _ => absurd (hh.has hc) hq

/-- **One operation keeps it.** -/
theorem Sole.advance (hs : base.Sole h) (ha : h.Advances h') (hf : h'.Forest)
    (hbase : ∀ p, base.Has p → h.Has p) : base.Sole h' := by
  intro p p' q hq hp hp' hh hh'
  by_cases hhas : h.Has q
  -- what is held was there, so that it was held by the same
  · have before {p : Place} (hp : base.Has p ∨ h'.Settled p) (hh : h'.Holds p q) :
        h.Holds p q ∧ (base.Has p ∨ h.Settled p) := by
      rcases ha.plants.holds hh with hold | hno | ⟨hno, hloose⟩
      · exact ⟨hold, hp.imp_right fun hsettled => ha.plants.settled hsettled hold⟩
      · exact absurd hhas hno
      · exact (hp.elim (fun hp => hno (hbase p hp)) hloose).elim
    obtain ⟨hh, hp⟩ := before hp hh
    obtain ⟨hh', hp'⟩ := before hp' hh'
    exact hs hq hp hp' hh hh'
  -- what is held is new: its holder is settled, or the place that was altered
  · have loose {p p' : Place} (hp : base.Has p ∨ h'.Settled p) (hp' : base.Has p' ∨ h'.Settled p')
        (hh : h'.Holds p q) (hh' : h'.Holds p' q) (hno : ¬ h'.Settled p) : p = p' := by
      have hold := hbase p (hp.resolve_right hno)
      by_cases hold' : h.Has p'
      · exact ha.one hold hold' hhas hhas hh hh'
      -- a new message has no views, and one that keeps a new view was altered
      have hsettled := hp'.resolve_left fun hbase' => hold' (hbase p' hbase')
      rcases hh'.shelf with hshelf | hshelf
      · obtain ⟨s, r⟩ := p'
        cases hshelf
        exact absurd hh' (not_holds_of_views (ha.views hold'))
      · obtain ⟨r, hr⟩ := hsettled hshelf
        by_cases hhas' : h.Has ⟨.message, r⟩
        · obtain rfl := ha.one hold hhas' hhas hold' hh hr
          exact absurd (h'.settled_message r) hno
        · exact absurd hr (not_holds_of_views (ha.views hhas'))
    by_cases hsettled : h'.Settled p
    · by_cases hsettled' : h'.Settled p'
      · exact hf.holder_unique hsettled hsettled' hh hh'
      · exact (loose hp' hp hh' hh hsettled').symm
    · exact loose hp hp' hh hh' hsettled

/-- What is so of a heap and any later one of a run. -/
structure Continues (base h : Heap) : Prop where
  sole : base.Sole h
  plants : base.Plants h
  has {p : Place} (hp : base.Has p) : h.Has p
  flat : h.Flat

/-- **Over a run, what is new is held once.** -/
theorem Reaches.continues (hh : Reaches pools base h) (hbase : Reachable pools base) :
    base.Continues h := by
  induction hh with
  | refl => exact ⟨.refl hbase.closed, .refl base, id, hbase.flat⟩
  | @tail mid h hfirst hlast ih =>
    have hmid : Reachable pools mid := hbase.trans hfirst
    have hh : Reachable pools h := hmid.tail hlast
    have ha := hlast.advances hmid.closed
    exact ⟨ih.sole.advance ha hh.forest fun _ => ih.has, ih.plants.trans ha.plants fun _ => ih.has,
      fun hp => ha.has (ih.has hp), hh.flat⟩

/-! ## Regions -/

/-- What is held below some places, and these. -/
def region (h : Heap) (A : Set Place) : Set Place := {q | ∃ p ∈ A, h.Below p q}

section

variable {A B : Set Place} (hh : base.Continues h) (hA : ∀ p ∈ A, base.Has p)

include hh

/-- What is held is not a view that was given up. -/
theorem Continues.counts (hp : base.Has p) (hq : h.Below p q) : base.Has q ∨ h.Settled q := by
  cases hq with
  | refl => exact .inl hp
  | tail _ hlast => exact .inr (hlast.settled hh.flat)

/-- What new things hold is new. -/
theorem Continues.new_below (hp : ¬ base.Has p) (hsettled : h.Settled p) (hq : h.Below p q) :
    ¬ base.Has q ∧ h.Settled q := by
  induction hq with
  | refl => exact ⟨hp, hsettled⟩
  | tail _ hlast ih =>
    refine ⟨fun hhas => ?_, hlast.settled hh.flat⟩
    rcases hh.plants.holds hlast with hold | hno | ⟨-, hno⟩
    · exact ih.1 hold.has_holder
    · exact hno hhas
    · exact hno ih.2

include hA

/-- What was there is in the region only if it was. -/
theorem Continues.region_old (hq : q ∈ h.region A) (hhas : base.Has q) : q ∈ base.region A := by
  obtain ⟨p, hp, hbelow⟩ := hq
  induction hbelow with
  | refl => exact ⟨p, hp, .refl⟩
  | @tail p' q hfirst hlast ih =>
    rcases hh.plants.holds hlast with hold | hno | ⟨hno, hloose⟩
    · obtain ⟨a, ha, hbelow⟩ := ih hold.has_holder
      exact ⟨a, ha, hbelow.tail hold⟩
    · exact absurd hhas hno
    · exact ((hh.counts (hA p hp) hfirst).elim hno hloose).elim

/-- What holds something new of the region is of the region. -/
theorem Continues.region_holder (hq : q ∈ h.region A) (hno : ¬ base.Has q)
    (hp : base.Has p ∨ h.Settled p) (hholds : h.Holds p q) : p ∈ h.region A := by
  obtain ⟨a, ha, hbelow⟩ := hq
  cases hbelow with
  | refl => exact absurd (hA _ ha) hno
  | @tail p' _ hfirst hlast =>
    obtain rfl := hh.sole hno hp (hh.counts (hA a ha) hfirst) hholds hlast
    exact ⟨a, ha, hfirst⟩

/-- So is what is above it. -/
theorem Continues.region_above (hp : ¬ base.Has p) (hsettled : h.Settled p) (hbelow : h.Below p q)
    (hq : q ∈ h.region A) : p ∈ h.region A := by
  induction hbelow with
  | refl => exact hq
  | tail hfirst hlast ih =>
    have hnew := hh.new_below hp hsettled (hfirst.tail hlast)
    exact ih (hh.region_holder hA hq hnew.1 (.inr (hh.new_below hp hsettled hfirst).2) hlast)

/-- **What was apart stays apart.** -/
theorem Continues.disjoint (hB : ∀ p ∈ B, base.Has p)
    (hAB : Disjoint (base.region A) (base.region B)) : Disjoint (h.region A) (h.region B) := by
  refine Set.disjoint_left.2 fun q hqA ⟨b, hb, hbelow⟩ => ?_
  induction hbelow with
  | refl => exact Set.disjoint_left.1 hAB (hh.region_old hA hqA (hB b hb)) ⟨b, hb, .refl⟩
  | @tail p q hfirst hlast ih =>
    by_cases hhas : base.Has q
    · refine Set.disjoint_left.1 hAB (hh.region_old hA hqA hhas) ?_
      exact hh.region_old hB ⟨b, hb, hfirst.tail hlast⟩ hhas
    · exact ih (hh.region_holder hA hqA hhas (hh.counts (hB b hb) hfirst) hlast) ⟨b, hb, hfirst⟩

/-- **A view that was kept since** is apart from what its message is apart from. -/
theorem Continues.disjoint_view {r : Ref .message} {name : String} {v : Value}
    (hr : base.Has ⟨.message, r⟩) (hview : (name, v) ∈ (h.cell r).views)
    (hno : ∀ v, (name, v) ∉ (base.cell r).views) (hp : v.ref? = some p)
    (hA' : (⟨.message, r⟩ : Place) ∉ base.region A) (hbelow : h.Below p q) : q ∉ h.region A := by
  intro hq
  have hnew : ¬ base.Has p := ((hh.plants.views hview).resolve_left (hno v)).not_has hp
  have hholds : h.Holds ⟨.message, r⟩ p := .view hview hp
  have hregion := hh.region_above hA hnew (hholds.settled hh.flat) hbelow hq
  exact hA' (hh.region_old hA (hh.region_holder hA hregion hnew (.inl hr) hholds) hr)

end

end Heap

end Protoscript
