import Protoscript.Proofs.Change
import Protoscript.Proofs.Freezing

/-!
# What lasts

Much of what is said about a heap depends on what cells hold, not on whether they are frozen, and
goes on to hold when cells are added.

* `Heap.Lasts` — a later heap has the old cells as they were, up to their being frozen;
* `Heap.Normal.lasts`, `Heap.Reads.lasts`, … — what is still said of it;
* `Heap.Grows.fresh` — what was made after a heap lies in no slot.
-/

namespace Protoscript

namespace Heap

/-- Whether the cells of a heap are in another one as they were, up to their being frozen. -/
def Lasts (h h' : Heap) : Prop :=
  ∀ p : Place, h.Has p → h'.Has p ∧ (h'.cell p.2).freeze = (h.cell p.2).freeze

variable {h h' : Heap}

theorem Grows.lasts (hg : h.Grows h') : h.Lasts h' :=
  fun _ hp => ⟨Alters.has hg hp, by rw [hg.cell hp]⟩

theorem lasts_freezeAll (h : Heap) (work : List Value) : h.Lasts (h.freezeAll work) :=
  fun p hp => ⟨has_freezeAll.2 hp, freeze_cell_freezeAll h work p⟩

theorem Lasts.values (hh : h.Lasts h') {p : Place} (hp : h.Has p) :
    (h'.cell p.2).values = (h.cell p.2).values := by
  rw [← Cell.values_freeze (h'.cell p.2), (hh p hp).2, Cell.values_freeze]

section

variable {q : Ref .message}

theorem Lasts.content (hh : h.Lasts h') (hq : h.Has ⟨.message, q⟩) :
    (h'.cell q).content = (h.cell q).content :=
  (congrArg MessageCell.content (hh ⟨.message, q⟩ hq).2 :)

theorem Lasts.views (hh : h.Lasts h') (hq : h.Has ⟨.message, q⟩) :
    (h'.cell q).views = (h.cell q).views :=
  (congrArg MessageCell.views (hh ⟨.message, q⟩ hq).2 :)

theorem Lasts.config (hh : h.Lasts h') (hq : h.Has ⟨.message, q⟩) :
    (h'.cell q).config = (h.cell q).config :=
  (congrArg MessageCell.config (hh ⟨.message, q⟩ hq).2 :)

theorem Lasts.fullName (hh : h.Lasts h') (hq : h.Has ⟨.message, q⟩) :
    h'.fullName q = h.fullName q := by
  unfold Heap.fullName
  rw [hh.content hq]

end

section

variable {kind : Kind} {config : Config} {m : Message} {f : FieldDescriptor} {v : Value}

theorem Normal.lasts (hh : h.Lasts h') (hv : h.Normal kind v) : h'.Normal kind v := by
  cases hv with
  | scalar hs => exact .scalar hs
  | message hk hq hd => exact .message hk (hh _ hq).1 (by rw [hh.content hq]; exact hd)

theorem Shows.lasts (hh : h.Lasts h') {s : Stored} (hv : h.Shows kind config s v) :
    h'.Shows kind config s v := by
  cases s with
  | scalar s => exact hv
  | message m =>
    obtain ⟨q, rfl, hq, hcontent, hviews, hconfig⟩ := hv
    exact ⟨q, rfl, (hh _ hq).1, (hh.content hq).trans hcontent, (hh.views hq).trans hviews,
      (hh.config hq).trans hconfig⟩
  | list items =>
    obtain ⟨q, rfl, hq⟩ := hv
    exact ⟨q, rfl, (hh _ hq).1⟩
  | map entries =>
    obtain ⟨q, rfl, hq⟩ := hv
    exact ⟨q, rfl, (hh _ hq).1⟩

end

end Heap

theorem RepeatedCell.ReadFrom.lasts {h h' : Heap} {m : Message} {f : FieldDescriptor}
    {config : Config} {c c' : RepeatedCell} (hh : h.Lasts h') (hc : c.ReadFrom h m f config)
    (he : Cell.freeze (s := .repeated) c' = Cell.freeze (s := .repeated) c) :
    c'.ReadFrom h' m f config := by
  have hfield : c'.field = c.field := (congrArg RepeatedCell.field he :)
  have hconfig : c'.config = c.config := (congrArg RepeatedCell.config he :)
  have hitems : c'.items = c.items := (congrArg RepeatedCell.items he :)
  refine ⟨hc.notMap, hc.isList, hfield.trans hc.sameField, hconfig.trans hc.sameConfig, ?_⟩
  rw [hitems]
  exact hc.items.imp fun _ _ hv => hv.lasts hh

theorem MapCell.ReadFrom.lasts {h h' : Heap} {m : Message} {f : FieldDescriptor}
    {config : Config} {c c' : MapCell} (hh : h.Lasts h') (hc : c.ReadFrom h m f config)
    (he : Cell.freeze (s := .map) c' = Cell.freeze (s := .map) c) : c'.ReadFrom h' m f config := by
  have hfield : c'.field = c.field := (congrArg MapCell.field he :)
  have hconfig : c'.config = c.config := (congrArg MapCell.config he :)
  have hentries : c'.entries = c.entries := (congrArg MapCell.entries he :)
  refine ⟨hc.isMap, hfield.trans hc.sameField, hconfig.trans hc.sameConfig, ?_⟩
  rw [hentries]
  exact hc.entries.imp fun _ _ hv => ⟨hv.1, hv.2.lasts hh⟩

namespace Heap

variable {h h' : Heap}

theorem Reads.lasts {m : Message} {f : FieldDescriptor} {config : Config} {v : Value}
    (hh : h.Lasts h') (hv : h.Reads m f config v) : h'.Reads m f config v := by
  cases hv with
  | map hq hc => exact .map (hh _ hq).1 (hc.lasts hh (hh _ hq).2)
  | list hq hc => exact .list (hh _ hq).1 (hc.lasts hh (hh _ hq).2)
  | absent hmap hlist hunset hf => exact .absent hmap hlist hunset hf
  | single hmap hlist hset hv => exact .single hmap hlist hset (hv.lasts hh)

theorem Lasts.elements (hh : h.Lasts h') {v : Value} (hv : v.Within h) :
    h'.elements v = h.elements v := by
  cases v with
  | repeated r =>
    exact (congrArg RepeatedCell.items (hh ⟨.repeated, r⟩ (hv.has (p := ⟨.repeated, r⟩) rfl)).2 :)
  | map r =>
    exact (congrArg (fun c : MapCell => c.entries.map (·.2))
      (hh ⟨.map, r⟩ (hv.has (p := ⟨.map, r⟩) rfl)).2 :)
  | _ => rfl

/-! ## Slots -/

/-- The elements of a view of a closed heap are within the heap. -/
theorem Closed.elements (hc : h.Closed) {v : Value} (hv : v.Within h) :
    ∀ w ∈ h.elements v, w.Within h := by
  intro w hw
  cases v with
  | repeated r => exact hc ⟨.repeated, r⟩ (hv.has (p := ⟨.repeated, r⟩) rfl) w hw
  | map r =>
    obtain ⟨e, he, rfl⟩ := List.mem_map.1 hw
    exact hc ⟨.map, r⟩ (hv.has (p := ⟨.map, r⟩) rfl) e.2 (List.mem_flatMap.2 ⟨e, he, by simp⟩)
  | _ => simp [Heap.elements] at hw

/-- The message of a slot is there. -/
theorem Fills.has_owner {a : Slot} {v : Value} (hf : h.Fills a v) : h.Has ⟨.message, a.owner⟩ := by
  refine Classical.not_not.1 fun hn => ?_
  have hviews : (h.cell a.owner).views = [] := by
    rw [cell_of_not_has hn]
    rfl
  unfold Fills at hf
  split at hf
  · rw [hviews] at hf
    cases hf
  · obtain ⟨view, hview, -⟩ := hf
    rw [hviews] at hview
    cases hview

/-- What lies in a slot is within the heap. -/
theorem Closed.fills (hc : h.Closed) {a : Slot} {v : Value} (hf : h.Fills a v) : v.Within h := by
  have hviews {view : Value} (hview : (a.name, view) ∈ (h.cell a.owner).views) : view.Within h :=
    hc ⟨.message, a.owner⟩ hf.has_owner view (List.mem_map.2 ⟨_, hview, rfl⟩)
  unfold Fills at hf
  split at hf
  · exact hviews hf
  · obtain ⟨view, hview, helem⟩ := hf
    exact hc.elements (hviews hview) v (List.mem_of_getElem? helem)

/-- Growing fills no slot. -/
theorem Grows.fills (hg : h.Grows h') (hc : h.Closed) {a : Slot} {v : Value} :
    h'.Fills a v ↔ h.Fills a v := by
  by_cases ho : h.Has ⟨.message, a.owner⟩
  · have hcell : h'.cell a.owner = h.cell a.owner := hg.cell ho
    unfold Fills
    split
    · rw [hcell]
    · rw [hcell]
      have helements {view : Value} (hview : (a.name, view) ∈ (h.cell a.owner).views) :
          h'.elements view = h.elements view :=
        hg.lasts.elements (hc ⟨.message, a.owner⟩ ho view (List.mem_map.2 ⟨_, hview, rfl⟩))
      constructor
      · rintro ⟨view, hview, helem⟩
        exact ⟨view, hview, helements hview ▸ helem⟩
      · rintro ⟨view, hview, helem⟩
        exact ⟨view, hview, (helements hview).symm ▸ helem⟩
  · constructor
    · intro hf
      have hviews := Alters.views hg ho
      unfold Fills at hf
      split at hf
      · rw [hviews] at hf
        cases hf
      · obtain ⟨view, hview, -⟩ := hf
        rw [hviews] at hview
        cases hview
    · intro hf
      exact absurd hf.has_owner ho

end Heap

/-- Whether no reference in a value leads to a cell of a heap. -/
def Value.NewTo (h : Heap) (v : Value) : Prop := v.All fun v => ∀ p, v.ref? = some p → ¬ h.Has p

theorem Value.NewTo.not_has {h : Heap} {v : Value} (hv : v.NewTo h) {p : Place}
    (hp : v.ref? = some p) : ¬ h.Has p :=
  (Value.all_iff (Value.ne_tuple_of_ref? hp)).1 hv p hp

theorem Value.newTo_of_ref? {h : Heap} {v : Value} {p : Place} (hv : v.ref? = some p)
    (hp : ¬ h.Has p) : v.NewTo h := by
  refine (Value.all_iff (Value.ne_tuple_of_ref? hv)).2 fun q hq => ?_
  rw [hv] at hq
  cases hq
  exact hp

theorem Value.newTo_of_ref?_none {h : Heap} {v : Value} (ht : ∀ items, v ≠ .tuple items)
    (hv : v.ref? = none) : v.NewTo h := by
  refine (Value.all_iff ht).2 fun p hp => ?_
  rw [hv] at hp
  cases hp

/-- What is new to a heap was new to an earlier one. -/
theorem Value.NewTo.earlier {h mid : Heap} (hh : ∀ p, h.Has p → mid.Has p) {v : Value}
    (hv : v.NewTo mid) : v.NewTo h :=
  Value.All.mono (fun _ hp p e hhas => hp p e (hh p hhas)) hv

/-- **What is new lies in no slot.** A value that was made after a heap is in no slot that the heap
has had since, and younger than the message of each. -/
theorem Heap.Grows.fresh {h h' : Heap} (hg : h.Grows h') (hc : h.Closed) {v : Value}
    (hv : v.NewTo h) : h'.Fresh v := by
  intro a w hf
  rw [hg.fills hc] at hf
  constructor
  · rintro hsome rfl
    obtain ⟨p, hp⟩ := Option.isSome_iff_exists.1 hsome
    exact hv.not_has hp ((hc.fills hf).has (Value.place?_of_ref? hp))
  · rintro q rfl
    have howner : a.owner.index < (h.shelf .message).size := hf.has_owner
    exact Nat.lt_of_lt_of_le howner (Nat.le_of_not_lt (hv.not_has (p := ⟨.message, q⟩) rfl))

end Protoscript
