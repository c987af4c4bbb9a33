import Protoscript.Proofs.Planting
import Protoscript.Proofs.Reachable

/-!
# Ownership is a forest

A message holds other messages in the views that it keeps of its fields. Whatever is kept there was
made for it, so that nothing is held twice, and no message is held by itself, at whatever depth.

* `Heap.Forest` — what lies in a slot lies in no other one, and a message there is younger than the
  message that the slot belongs to;
* `Heap.Change.forest` — one change keeps this; the slots that a change fills are filled with what is
  fresh;
* `Heap.Reachable.forest` — so it is on all heaps of a run;
* `Heap.Owns`, `Heap.Forest.not_owns_self` — no message is reached from itself.
-/

namespace Protoscript

/-- Values that share nothing have each reference once. -/
theorem position_unique {vs : List Value} {v : Value} {i j : Nat}
    (hnodup : (vs.filterMap Value.ref?).Nodup) (hi : vs[i]? = some v) (hj : vs[j]? = some v)
    (hv : v.ref?.isSome) : i = j := by
  obtain ⟨p, hp⟩ := Option.isSome_iff_exists.1 hv
  have hpairwise := List.pairwise_iff_getElem.1 (List.pairwise_filterMap.1 hnodup)
  obtain ⟨hi', hei⟩ := List.getElem?_eq_some_iff.1 hi
  obtain ⟨hj', hej⟩ := List.getElem?_eq_some_iff.1 hj
  rcases Nat.lt_trichotomy i j with hlt | heq | hlt
  · exact absurd rfl (hpairwise i j hi' hj' hlt p (hei ▸ hp) p (hej ▸ hp))
  · exact heq
  · exact absurd rfl (hpairwise j i hj' hi' hlt p (hej ▸ hp) p (hei ▸ hp))

namespace Heap

variable {pools : Set Pool} {h h' : Heap}

/-! ## Forests -/

/-- Whether the slots of messages hold every thing once, and only what is younger than the message
they belong to. -/
structure Forest (h : Heap) : Prop where
  /-- a message keeps at most one view of a field -/
  distinct (r : Ref .message) : ((h.cell r).views.map (·.1)).Nodup
  /-- what lies in two slots is no reference -/
  unique {a b : Slot} {v : Value} (ha : h.Fills a v) (hb : h.Fills b v) (hv : v.ref?.isSome) : a = b
  /-- a message in a slot is younger than the message of the slot -/
  later {a : Slot} {q : Ref .message} (ha : h.Fills a (.message q)) : a.owner.index < q.index

/-- Whether a message holds another one in a slot. -/
def Owns (h : Heap) (r q : Ref .message) : Prop := ∃ a : Slot, a.owner = r ∧ h.Fills a (.message q)

/-- What fills a slot filled it before, if messages dropped views only and these kept their
elements. -/
theorem Fills.mono {a : Slot} {v : Value}
    (hviews : ∀ r : Ref .message, (h'.cell r).views ⊆ (h.cell r).views)
    (helements : ∀ v, h'.elements v = h.elements v) (ha : h'.Fills a v) : h.Fills a v := by
  obtain ⟨r, name, position⟩ := a
  cases position with
  | none => exact hviews r ha
  | some i =>
    obtain ⟨view, hview, helement⟩ := ha
    exact ⟨view, hviews r hview, helements view ▸ helement⟩

/-- Where a message keeps one more view, a slot is filled as it was, or belongs to the new view. -/
theorem Fills.keep_cases {r : Ref .message} {name : String} {v w : Value} {c : MessageCell}
    {a : Slot} (hr : h.Has ⟨.message, r⟩) (hviews : c.views = (h.cell r).views ++ [(name, v)])
    (ha : (h.put r c).Fills a w) :
    h.Fills a w ∨ a.owner = r ∧ a.name = name ∧
      (a.position = none ∧ w = v ∨ ∃ i, a.position = some i ∧ (h.elements v)[i]? = some w) := by
  have hmem {q : Ref .message} {view : String × Value} (hview : view ∈ ((h.put r c).cell q).views) :
      view ∈ (h.cell q).views ∨ q = r ∧ view = (name, v) := by
    by_cases hq : q = r
    · subst hq
      rw [cell_put_self h (s := .message) q c hr, hviews] at hview
      exact (List.mem_append.1 hview).imp_right fun hlast => ⟨rfl, List.mem_singleton.1 hlast⟩
    · rw [cell_put_of_ne h (s := .message) hq] at hview
      exact .inl hview
  obtain ⟨q, n, position⟩ := a
  cases position with
  | none =>
    rcases hmem ha with hold | ⟨hq, heq⟩
    · exact .inl hold
    · cases heq
      exact .inr ⟨hq, rfl, .inl ⟨rfl, rfl⟩⟩
  | some i =>
    obtain ⟨u, hu, helement⟩ := ha
    rw [elements_put_of_shelf h (s := .message) (by decide)] at helement
    rcases hmem hu with hold | ⟨hq, heq⟩
    · exact .inl ⟨u, hold, helement⟩
    · cases heq
      exact .inr ⟨hq, rfl, .inr ⟨i, rfl, helement⟩⟩

section

variable (hf : h.Forest)

include hf

/-- The view that a message keeps of a field is one. -/
theorem Forest.view_unique {r : Ref .message} {name : String} {v w : Value}
    (hv : (name, v) ∈ (h.cell r).views) (hw : (name, w) ∈ (h.cell r).views) : v = w := by
  have hinj := List.inj_on_of_nodup_map (hf.distinct r) hv hw rfl
  exact congrArg Prod.snd hinj

/-- The elements of a view that is kept share nothing. -/
theorem Forest.nodup_elements {r : Ref .message} {name : String} {view : Value}
    (hview : (name, view) ∈ (h.cell r).views) :
    ((h.elements view).filterMap Value.ref?).Nodup := by
  refine List.pairwise_filterMap.2 (List.pairwise_iff_getElem.2 fun i j hi hj hlt p hp q hq => ?_)
  rintro rfl
  have hsame := Value.eq_of_ref? hp hq
  have hfirst : h.Fills ⟨r, name, some i⟩ (h.elements view)[i] :=
    ⟨view, hview, List.getElem?_eq_getElem hi⟩
  have hsecond : h.Fills ⟨r, name, some j⟩ (h.elements view)[i] :=
    ⟨view, hview, hsame ▸ List.getElem?_eq_getElem hj⟩
  have hslot := hf.unique hfirst hsecond (by rw [hp]; rfl)
  cases hslot
  exact Nat.lt_irrefl _ hlt

/-- A message that is reached from another one is younger. -/
theorem Forest.lt_of_owns {r q : Ref .message} (hq : Relation.TransGen h.Owns r q) :
    r.index < q.index := by
  induction hq with
  | single hq =>
    obtain ⟨a, rfl, ha⟩ := hq
    exact hf.later ha
  | tail _ hq ih =>
    obtain ⟨a, rfl, ha⟩ := hq
    exact ih.trans (hf.later ha)

/-- **No message is reached from itself.** -/
theorem Forest.not_owns_self (r : Ref .message) : ¬ Relation.TransGen h.Owns r r :=
  fun hr => Nat.lt_irrefl _ (hf.lt_of_owns hr)

/-! ## Slots that are emptied, kept and filled -/

/-- What fills fewer slots is a forest still. -/
theorem Forest.mono (hdistinct : ∀ r : Ref .message, ((h'.cell r).views.map (·.1)).Nodup)
    (hfills : ∀ a v, h'.Fills a v → h.Fills a v) : h'.Forest where
  distinct := hdistinct
  unique ha hb hv := hf.unique (hfills _ _ ha) (hfills _ _ hb) hv
  later ha := hf.later (hfills _ _ ha)

/-- Growing keeps the forest: new messages have no views. -/
theorem Forest.grows (hg : h.Grows h') (hc : h.Closed) : h'.Forest := by
  refine hf.mono (fun r => ?_) fun a v ha => (hg.fills hc).1 ha
  by_cases hr : h.Has ⟨.message, r⟩
  · have hcell : h'.cell r = h.cell r := hg.cell hr
    rw [hcell]
    exact hf.distinct r
  · rw [Alters.views hg hr]
    exact .nil

/-- What keeps the views of messages and their elements keeps the forest. -/
theorem Forest.congr (hviews : ∀ r : Ref .message, (h'.cell r).views = (h.cell r).views)
    (helements : ∀ v, h'.elements v = h.elements v) : h'.Forest :=
  hf.mono (fun r => hviews r ▸ hf.distinct r) fun _ _ ha =>
    ha.mono (fun r _ => (hviews r ▸ ·)) helements

/-- Where one view was given other elements, a slot is filled as it was, or belongs to the view. -/
theorem Forest.fills_set_cases {view : Value}
    (hviews : ∀ r : Ref .message, (h'.cell r).views = (h.cell r).views)
    (hothers : ∀ v, v ≠ view → h'.elements v = h.elements v) {a : Slot} {v : Value}
    (ha : h'.Fills a v) :
    (h.Fills a v ∧ ∀ i, a.position = some i → (a.name, view) ∉ (h.cell a.owner).views) ∨
      ∃ i, a.position = some i ∧ (a.name, view) ∈ (h.cell a.owner).views ∧
        (h'.elements view)[i]? = some v := by
  obtain ⟨r, name, position⟩ := a
  cases position with
  | none =>
    change (name, v) ∈ (h'.cell r).views at ha
    rw [hviews] at ha
    exact .inl ⟨ha, nofun⟩
  | some i =>
    obtain ⟨u, hu, helement⟩ := ha
    rw [hviews] at hu
    by_cases hview : u = view
    · subst hview
      exact .inr ⟨i, rfl, hu, helement⟩
    · left
      rw [hothers u hview] at helement
      exact ⟨⟨u, hu, helement⟩, fun _ _ hmem => hview (hf.view_unique hu hmem)⟩

end

section

variable (hf : h.Forest)

include hf

/-- A list or dict may be overwritten. -/
theorem Forest.put_container {s : Shelf} (r : Ref s) (c : Cell s)
    (hs : s ≠ .message ∧ s ≠ .repeated ∧ s ≠ .map) : (h.put r c).Forest := by
  refine hf.congr (fun q => ?_) (elements_put_of_shelf h hs.2 r c)
  rw [cell_put_of_shelf_ne h (Ne.symm hs.1)]

/-- A message may drop views. -/
theorem Forest.put_message {r : Ref .message} {c : MessageCell} (hr : h.Has ⟨.message, r⟩)
    (hviews : c.views.Sublist (h.cell r).views) : (h.put r c).Forest := by
  have hsub (q : Ref .message) : ((h.put r c).cell q).views.Sublist (h.cell q).views := by
    by_cases hq : q = r
    · subst hq
      rw [cell_put_self h (s := .message) q c hr]
      exact hviews
    · rw [cell_put_of_ne h (s := .message) hq]
  exact hf.mono (fun q => (hf.distinct q).sublist ((hsub q).map _)) fun _ _ ha =>
    ha.mono (fun q => (hsub q).subset) (elements_put_of_shelf h (s := .message) (by decide) r c)

/-- **A view may be given other elements**: some that it had, and fresh ones, each once. -/
theorem Forest.set_elements (view : Value) (hsome : view.ref?.isSome)
    (hviews : ∀ r : Ref .message, (h'.cell r).views = (h.cell r).views)
    (hothers : ∀ v, v ≠ view → h'.elements v = h.elements v)
    (hnew : ∀ v ∈ h'.elements view, v ∈ h.elements view ∨ h.Fresh v)
    (hnodup : ((h.elements view).filterMap Value.ref?).Nodup →
      ((h'.elements view).filterMap Value.ref?).Nodup) : h'.Forest := by
  -- what lies in the view lay there, or lay nowhere
  have before {a : Slot} {v : Value} {i : Nat} (hview : (a.name, view) ∈ (h.cell a.owner).views)
      (helement : (h'.elements view)[i]? = some v) :
      (∃ j, h.Fills ⟨a.owner, a.name, some j⟩ v) ∨ h.Fresh v := by
    refine (hnew v (List.mem_of_getElem? helement)).imp_left fun hold => ?_
    obtain ⟨j, hj⟩ := List.getElem?_of_mem hold
    exact ⟨j, view, hview, hj⟩
  have mixed {a b : Slot} {v : Value} {i : Nat} (hv : v.ref?.isSome) (ha : h.Fills a v)
      (hno : ∀ i, a.position = some i → (a.name, view) ∉ (h.cell a.owner).views)
      (hview : (b.name, view) ∈ (h.cell b.owner).views)
      (helement : (h'.elements view)[i]? = some v) : False := by
    rcases before hview helement with ⟨j, hj⟩ | hfresh
    · obtain rfl := hf.unique ha hj hv
      exact hno j rfl hview
    · exact (hfresh a v ha).1 hv rfl
  refine ⟨fun r => hviews r ▸ hf.distinct r, fun {a b v} ha hb hv => ?_, fun {a q} ha => ?_⟩
  · rcases hf.fills_set_cases hviews hothers ha with ⟨ha, hnoa⟩ | ⟨i, hi, hviewa, hea⟩ <;>
      rcases hf.fills_set_cases hviews hothers hb with ⟨hb, hnob⟩ | ⟨j, hj, hviewb, heb⟩
    · exact hf.unique ha hb hv
    · exact (mixed hv ha hnoa hviewb heb).elim
    · exact (mixed hv hb hnob hviewa hea).elim
    · -- both belong to the view, which lies in one slot and has no element twice
      have hslot : (⟨a.owner, a.name, none⟩ : Slot) = ⟨b.owner, b.name, none⟩ :=
        hf.unique hviewa hviewb hsome
      have hpositions : i = j :=
        position_unique (hnodup (hf.nodup_elements hviewa)) hea heb hv
      obtain ⟨r, name, position⟩ := a
      obtain ⟨r', name', position'⟩ := b
      cases hslot
      exact congrArg (Slot.mk r name) (hi.trans ((congrArg some hpositions).trans hj.symm))
  · rcases hf.fills_set_cases hviews hothers ha with ⟨ha, -⟩ | ⟨i, -, hview, helement⟩
    · exact hf.later ha
    · rcases before hview helement with ⟨j, hj⟩ | hfresh
      · exact hf.later (a := ⟨a.owner, a.name, some j⟩) hj
      · exact (hfresh ⟨a.owner, a.name, none⟩ view hview).2 q rfl

/-- **A message may keep one more view**: of a field that it had no view of, if the view and its
elements are fresh and younger than the message. -/
theorem Forest.keep {r : Ref .message} {name : String} {v : Value} {c : MessageCell}
    (hr : h.Has ⟨.message, r⟩) (hnew : lookupName name (h.cell r).views = none)
    (hviews : c.views = (h.cell r).views ++ [(name, v)]) (hfresh : h.Fresh v)
    (helements : ∀ w ∈ h.elements v, h.Fresh w ∧ (w.ref?.isSome → w ≠ v))
    (hnodup : ((h.elements v).filterMap Value.ref?).Nodup)
    (hafter : ∀ w ∈ v :: h.elements v, ∀ q : Ref .message, w = .message q → r.index < q.index) :
    (h.put r c).Forest := by
  have fresh {w : Value} {position : Option Nat}
      (hw : position = none ∧ w = v ∨ ∃ i, position = some i ∧ (h.elements v)[i]? = some w) :
      h.Fresh w := by
    rcases hw with ⟨-, rfl⟩ | ⟨i, -, helement⟩
    · exact hfresh
    · exact (helements w (List.mem_of_getElem? helement)).1
  refine ⟨fun q => ?_, fun {a b w} ha hb hw => ?_, fun {a q} ha => ?_⟩
  · by_cases hq : q = r
    · subst hq
      rw [cell_put_self h (s := .message) q c hr, hviews, List.map_append]
      refine (hf.distinct q).append (List.nodup_singleton _) fun n hn hname => ?_
      rw [List.mem_singleton.1 hname] at hn
      obtain ⟨view, hview, heq⟩ := List.mem_map.1 hn
      exact List.find?_eq_none.1 (Option.map_eq_none_iff.1 hnew) view hview (beq_iff_eq.2 heq)
    · rw [cell_put_of_ne h (s := .message) hq]
      exact hf.distinct q
  · rcases ha.keep_cases hr hviews with ha | ⟨hra, hna, ha⟩ <;>
      rcases hb.keep_cases hr hviews with hb | ⟨hrb, hnb, hb⟩
    · exact hf.unique ha hb hw
    · exact absurd rfl ((fresh hb a w ha).1 hw)
    · exact absurd rfl ((fresh ha b w hb).1 hw)
    · -- both belong to the new view, which has no element twice and not itself
      have hpositions : a.position = b.position := by
        rcases ha with ⟨hpa, rfl⟩ | ⟨i, hpa, hea⟩ <;> rcases hb with ⟨hpb, hwv⟩ | ⟨j, hpb, heb⟩
        · rw [hpa, hpb]
        · exact absurd rfl ((helements w (List.mem_of_getElem? heb)).2 hw)
        · exact absurd hwv ((helements w (List.mem_of_getElem? hea)).2 hw)
        · rw [hpa, hpb, position_unique hnodup hea heb hw]
      obtain ⟨q, n, position⟩ := a
      obtain ⟨q', n', position'⟩ := b
      cases hra
      cases hrb
      cases hna
      cases hnb
      exact congrArg (Slot.mk _ _) hpositions
  · rcases ha.keep_cases hr hviews with ha | ⟨rfl, -, ⟨-, hv⟩ | ⟨i, -, helement⟩⟩
    · exact hf.later ha
    · exact hafter _ (List.mem_cons.2 (.inl hv)) q rfl
    · exact hafter _ (List.mem_cons_of_mem _ (List.mem_of_getElem? helement)) q rfl

end

/-! ## Changes -/

/-- What a stored value is read as is no view. -/
theorem Shows.shelf {kind : Kind} {config : Config} {s : Stored} {v : Value}
    (hv : h.Shows kind config s v) {q : Place} (hq : v.ref? = some q) :
    q.1 ≠ .repeated ∧ q.1 ≠ .map := by
  cases s with
  | scalar s =>
    rw [show v = s.toValue kind from hv, s.ref?_toValue] at hq
    cases hq
  | message m | list items | map entries =>
    obtain ⟨r, rfl, -⟩ := hv
    cases hq
    exact ⟨nofun, nofun⟩

/-- Neither is what the checks of a type make of a value. -/
theorem Normal.shelf {kind : Kind} {v : Value} (hv : h.Normal kind v) {q : Place}
    (hq : v.ref? = some q) : q.1 ≠ .repeated ∧ q.1 ≠ .map := by
  cases hv with
  | @scalar _ s _ =>
    rw [s.ref?_toValue] at hq
    cases hq
  | message =>
    cases hq
    exact ⟨nofun, nofun⟩

/-- What a field is read as has no views as elements. -/
theorem Reads.shelf {m : Message} {f : FieldDescriptor} {config : Config} {v w : Value}
    (hv : h.Reads m f config v) (hw : w ∈ h.elements v) {q : Place} (hq : w.ref? = some q) :
    q.1 ≠ .repeated ∧ q.1 ≠ .map := by
  cases hv with
  | map _ hc =>
    obtain ⟨e, he, rfl⟩ := List.mem_map.1 hw
    obtain ⟨stored, -, -, hs⟩ := exists_of_forall₂ hc.entries he
    exact hs.shelf hq
  | list _ hc =>
    obtain ⟨stored, -, hs⟩ := exists_of_forall₂ hc.items hw
    exact hs.shelf hq
  | absent => cases hw
  | single _ _ _ hs =>
    obtain ⟨p, hp, -⟩ := has_of_elements hw
    rw [elements_of_shelf hp (hs.shelf hp)] at hw
    cases hw

/-- What a field is read as is no element of itself. -/
theorem Reads.ne_of_mem_elements {m : Message} {f : FieldDescriptor} {config : Config} {v w : Value}
    (hv : h.Reads m f config v) (hw : w ∈ h.elements v) (hsome : w.ref?.isSome) : w ≠ v := by
  obtain ⟨q, hq⟩ := Option.isSome_iff_exists.1 hsome
  rintro rfl
  rw [elements_of_shelf hq (hv.shelf hw hq)] at hw
  cases hw

/-- **Every change keeps the forest.** -/
theorem Change.forest (hh : Change pools h h') (hf : h.Forest) (hc : h.Closed) : h'.Forest := by
  cases hh with
  | count n => exact hf.grows (h.grows_count n) hc
  | list | dict => exact hf.grows (h.grows_alloc (by decide) _) hc
  | «repeated» | readRepeated | map | readMap => exact hf.grows (h.grows_alloc (by decide) _) hc
  | message => exact hf.grows (h.grows_alloc_message rfl) hc
  | setList | setDict => exact hf.put_container _ _ (by decide)
  | @setRepeated r items hr hfrozen hitems hnodup =>
    -- only the slots of the view are filled anew, with old items or fresh ones
    have hcell : (h.put r { h.cell r with items := items }).elements (.repeated r) = items :=
      congrArg RepeatedCell.items (cell_put_self h (s := .repeated) r _ hr)
    refine hf.set_elements (.repeated r) rfl (fun q => ?_) (fun v hv => ?_) (fun v hv => ?_) ?_
    · rw [cell_put_of_shelf_ne h (by decide)]
    · exact elements_put h r _ fun he => hv (Value.eq_of_ref? he rfl)
    · rw [hcell] at hv
      exact (hitems v hv).imp_right And.right
    · rw [hcell]
      exact hnodup
  | @setMap r entries hr hfrozen hkeys hvalues hnodup hdistinct =>
    have hcell : (h.put r { h.cell r with entries := entries }).elements (.map r) =
        entries.map (·.2) :=
      congrArg (fun c : MapCell => c.entries.map Prod.snd) (cell_put_self h (s := .map) r _ hr)
    refine hf.set_elements (.map r) rfl (fun q => ?_) (fun v hv => ?_) (fun v hv => ?_) ?_
    · rw [cell_put_of_shelf_ne h (by decide)]
    · exact elements_put h r _ fun he => hv (Value.eq_of_ref? he rfl)
    · rw [hcell] at hv
      obtain ⟨e, he, rfl⟩ := List.mem_map.1 hv
      exact (hvalues e he).imp_right And.right
    · rw [hcell]
      exact hnodup
  | assign hr => exact hf.put_message hr List.filter_sublist
  | replace hr => exact hf.put_message hr (List.nil_sublist _)
  | keep hr hnew _ hv _ hfresh helements hnodup hafter =>
    exact hf.keep hr hnew rfl hfresh (fun w hw => ⟨helements w hw, hv.ne_of_mem_elements hw⟩) hnodup
      hafter
  | @freeze v hv =>
    have hcells := freeze_cell_freezeAll h [v]
    refine hf.congr (fun r => ?_) (elements_of_cells hcells)
    exact (congrArg MessageCell.views (hcells ⟨.message, r⟩) :)

theorem Changes.forest (hh : Changes pools h h') (hf : h.Forest) (hc : h.Closed) : h'.Forest := by
  induction hh with
  | refl => exact hf
  | tail hfirst hlast ih => exact hlast.forest ih (Changes.closed hfirst hc)

/-- **In the heaps of a run, ownership is a forest.** -/
theorem Reachable.forest (hh : Reachable pools h) : h.Forest := by
  refine hh.changes.forest ?_ closed_empty
  have empty {a : Slot} {v : Value} (ha : ({} : Heap).Fills a v) : False :=
    absurd ha.has_owner (Nat.not_lt_zero _)
  exact ⟨fun _ => .nil, fun ha _ _ => (empty ha).elim, fun ha => (empty ha).elim⟩

end Heap

end Protoscript
