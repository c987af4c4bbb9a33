import Protoscript.Proofs.Forest
import Protoscript.Proofs.FrozenCells

/-!
# Settings of views

Messages and views never change their settings, and a view of a field has those of the message that
keeps it. So a value that is written into the view is checked as one that is assigned to the field.

* `Heap.Change.config?` — a change leaves the settings of cells as they are;
* `Heap.Change.mem_views` — it adds no views to a message but what a field was read as;
* `Heap.Reachable.config_repeated`, `Heap.Reachable.config_map` — the settings of views.
-/

namespace Protoscript

/-- The settings of a cell, if it has any. -/
def Cell.config? : {s : Shelf} → Cell s → Option Config
  | .list, _ => none
  | .dict, _ => none
  | .message, c => some (MessageCell.config c)
  | .repeated, c => some (RepeatedCell.config c)
  | .map, c => some (MapCell.config c)

@[simp] theorem Cell.config?_freeze {s : Shelf} (c : Cell s) : c.freeze.config? = c.config? := by
  cases s <;> rfl

namespace Heap

variable {pools : Set Pool} {h h' : Heap}

/-- A change leaves the settings of cells as they are. -/
theorem Change.config? (hh : Change pools h h') {q : Place} (hq : h.Has q) :
    (h'.cell q.2).config? = (h.cell q.2).config? := by
  have put {s : Shelf} {r : Ref s} {c : Cell s} (hr : h.Has ⟨s, r⟩)
      (hc : c.config? = (h.cell r).config?) : ((h.put r c).cell q.2).config? = (h.cell q.2).config? := by
    by_cases hqr : q = ⟨s, r⟩
    · subst hqr
      rw [cell_put_self h r c hr, hc]
    · rw [cell_put_of_place_ne h hqr]
  cases hh with
  | count n => rw [(h.grows_count n).cell hq]
  | list | dict | message | «repeated» | readRepeated | map | readMap =>
    rw [cell_alloc_of_has h _ hq]
  | setList hr => exact put (s := .list) hr rfl
  | setDict hr => exact put (s := .dict) hr rfl
  | setRepeated hr => exact put (s := .repeated) hr rfl
  | setMap hr => exact put (s := .map) hr rfl
  | assign hr | replace hr | keep hr => exact put (s := .message) hr rfl
  | @freeze v hv =>
    rcases cell_freezeAll h [v] q with e | e
    · exact congrArg Cell.config? e
    · exact (congrArg Cell.config? e).trans (Cell.config?_freeze _)

/-- A change adds no views to a message but what a field was read as. -/
theorem Change.mem_views (hh : Change pools h h') {r : Ref .message} {name : String} {v : Value}
    (hv : (name, v) ∈ (h'.cell r).views) :
    (name, v) ∈ (h.cell r).views ∨ ∃ f, h.KeepsView r name f v h' := by
  have other {s : Shelf} (hs : .message ≠ s) {q : Ref s} {c : Cell s}
      (hv : (name, v) ∈ ((h.put q c).cell r).views) : (name, v) ∈ (h.cell r).views := by
    rwa [cell_put_of_shelf_ne h hs] at hv
  have written {q : Ref .message} {c : MessageCell} (hq : h.Has ⟨.message, q⟩)
      (hc : c.views.Sublist (h.cell q).views) (hv : (name, v) ∈ ((h.put q c).cell r).views) :
      (name, v) ∈ (h.cell r).views := by
    by_cases hrq : r = q
    · subst hrq
      rw [cell_put_self h (s := .message) r c hq] at hv
      exact hc.subset hv
    · rwa [cell_put_of_ne h (s := .message) hrq] at hv
  cases hh with
  | count | list | dict | «repeated» | readRepeated | map | readMap => exact .inl hv
  | message hm =>
    rcases has_alloc (has_of_views hv) with he | hold
    · cases he
      rw [cell_alloc_self] at hv
      cases hv
    · rw [cell_alloc_of_has h (s := .message) _ hold] at hv
      exact .inl hv
  | setList | setDict | setRepeated | setMap => exact .inl (other (by decide) hv)
  | assign hq => exact .inl (written hq List.filter_sublist hv)
  | replace hq => exact .inl (written hq (List.nil_sublist _) hv)
  | @keep q name' f w hq hnew hf hread _ _ _ _ hafter =>
    by_cases hrq : r = q
    · subst hrq
      rw [cell_put_self h (s := .message) r _ hq] at hv
      refine (List.mem_append.1 hv).imp_right fun hlast => ?_
      cases List.mem_singleton.1 hlast
      exact ⟨f, hq, hnew, hf, hread, hafter, rfl⟩
    · rw [cell_put_of_ne h (s := .message) hrq] at hv
      exact .inl hv
  | @freeze w hw =>
    have hviews : ((h.freeze w).cell r).views = (h.cell r).views :=
      (congrArg MessageCell.views (freeze_cell_freezeAll h [w] ⟨.message, r⟩) :)
    exact .inl (hviews ▸ hv)

/-- Whether views of lists and maps have the settings of the messages that keep them. -/
def SharesConfig (h : Heap) : Prop :=
  ∀ ⦃r : Ref .message⦄ ⦃name : String⦄ ⦃v : Value⦄ ⦃q : Place⦄, (name, v) ∈ (h.cell r).views →
    v.ref? = some q → q.1 = .repeated ∨ q.1 = .map →
    (h.cell q.2).config? = some (h.cell r).config

/-- A list or map is read as a view with the settings of its message. -/
theorem Reads.config? {m : Message} {f : FieldDescriptor} {config : Config} {v : Value} {q : Place}
    (hv : h.Reads m f config v) (hq : v.ref? = some q) (hshelf : q.1 = .repeated ∨ q.1 = .map) :
    (h.cell q.2).config? = some config := by
  cases hv with
  | map _ hc | list _ hc =>
    cases hq
    exact congrArg some hc.sameConfig
  | absent => cases hq
  | single _ _ _ hs => exact absurd hshelf (not_or.2 (hs.shelf hq))

/-- **A change keeps the settings of views.** -/
theorem Change.sharesConfig (hh : Change pools h h') (hc : h.Closed) (hs : h.SharesConfig) :
    h'.SharesConfig := by
  intro r name v q hview hq hshelf
  have later (hr : h.Has ⟨.message, r⟩) (hhas : h.Has q)
      (he : (h.cell q.2).config? = some (h.cell r).config) :
      (h'.cell q.2).config? = some (h'.cell r).config := by
    have hmessage : some (h'.cell r).config = some (h.cell r).config := hh.config? hr
    rw [hh.config? hhas, he, hmessage]
  rcases hh.mem_views hview with hold | ⟨f, hkeep⟩
  · have hr := has_of_views hold
    exact later hr ((hc.views hr _ hold).has (Value.place?_of_ref? hq)) (hs hold hq hshelf)
  · exact later hkeep.has (hkeep.reads.within.has (Value.place?_of_ref? hq))
      (hkeep.reads.config? hq hshelf)

/-- **On the heaps of a run**, views have the settings of the messages that keep them. -/
theorem Reachable.sharesConfig (hh : Reachable pools h) : h.SharesConfig := by
  have run {h : Heap} (hh : Changes pools {} h) : h.SharesConfig := by
    induction hh with
    | refl =>
      intro r name v q hview
      exact absurd (has_of_views hview) (Nat.not_lt_zero _)
    | tail hfirst hlast ih => exact hlast.sharesConfig (Changes.closed hfirst closed_empty) ih
  exact run hh.changes

theorem Reachable.config_repeated (hh : Reachable pools h) {r : Ref .message} {name : String}
    {q : Ref .repeated} (hv : (name, .repeated q) ∈ (h.cell r).views) :
    (h.cell q).config = (h.cell r).config :=
  Option.some.inj (hh.sharesConfig hv rfl (.inl rfl) :)

theorem Reachable.config_map (hh : Reachable pools h) {r : Ref .message} {name : String}
    {q : Ref .map} (hv : (name, .map q) ∈ (h.cell r).views) :
    (h.cell q).config = (h.cell r).config :=
  Option.some.inj (hh.sharesConfig hv rfl (.inr rfl) :)

end Heap

end Protoscript
