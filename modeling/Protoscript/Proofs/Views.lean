import Protoscript.Proofs.Adoption
import Protoscript.Proofs.Planting
import Mathlib.Data.List.Perm.Subperm
import Mathlib.Data.List.Permutation

/-!
# Views of repeated and map fields

Every operation that writes a view checks all incoming values first; what the view has afterwards are
values it had, and checked ones.

* `Heap.change_setRepeated`, `Heap.change_setMap` — such a write is one change;
* `Script.append_runs`, `Script.extend_runs`, … — the operations on lists;
* `Script.mapSet_runs`, `Script.mapUpdate_runs`, … — the operations on maps.
-/

namespace Protoscript

/-! ## Lists with some items removed and others added -/

/-- What is left of values that share nothing shares nothing. -/
theorem nodup_refs_of_subperm {xs ys : List Value} (h : xs.Subperm ys)
    (hn : (ys.filterMap Value.ref?).Nodup) : (xs.filterMap Value.ref?).Nodup := by
  obtain ⟨zs, hperm, hsub⟩ := h
  exact (hperm.filterMap _).nodup_iff.1 (hn.sublist (hsub.filterMap _))

theorem subperm_set {α : Type} (xs : List α) (i : Nat) (x : α) :
    (xs.set i x).Subperm (xs ++ [x]) := by
  by_cases hi : i < xs.length
  · rw [List.set_eq_take_append_cons_drop, if_pos hi]
    have hsub : (xs.take i ++ xs.drop (i + 1)).Sublist xs := by
      conv_rhs => rw [← List.take_append_drop i xs]
      exact (List.Sublist.refl _).append (List.drop_sublist_drop_left xs (Nat.le_succ i))
    refine List.perm_middle.subperm.trans ?_
    exact ((List.subperm_cons x).2 hsub.subperm).trans (List.perm_append_singleton x xs).symm.subperm
  · rw [List.set_eq_of_length_le (Nat.le_of_not_lt hi)]
    exact (List.sublist_append_left xs [x]).subperm

theorem subperm_insert {α : Type} (xs : List α) (i : Nat) (x : α) :
    (xs.take i ++ x :: xs.drop i).Subperm (xs ++ [x]) := by
  refine List.perm_middle.subperm.trans ?_
  rw [List.take_append_drop]
  exact (List.perm_append_singleton x xs).symm.subperm

theorem subperm_eraseIdx {α : Type} (xs : List α) (i : Nat) :
    (xs.eraseIdx i).Subperm (xs ++ []) := by
  rw [List.append_nil]
  exact (List.eraseIdx_sublist xs i).subperm

namespace Heap

variable {pools : Set Pool} {h mid : Heap}

/-- Old values of a closed heap share nothing with new ones. -/
theorem nodup_refs_append {old new : List Value} (hold : ∀ v ∈ old, v.Within h)
    (hnew : ∀ v ∈ new, v.NewTo h) (ho : (old.filterMap Value.ref?).Nodup)
    (hn : (new.filterMap Value.ref?).Nodup) : ((old ++ new).filterMap Value.ref?).Nodup := by
  rw [List.filterMap_append]
  refine List.nodup_append.2 ⟨ho, hn, fun p hp q hq heq => ?_⟩
  subst heq
  obtain ⟨v, hv, hvp⟩ := List.mem_filterMap.1 hp
  obtain ⟨w, hw, hwp⟩ := List.mem_filterMap.1 hq
  exact (hnew w hw).not_has hwp ((hold v hv).has (Value.place?_of_ref? hvp))

/-- **A write to a list view.** -/
theorem change_setRepeated {r : Ref .repeated} {items new : List Value} (hc : h.Closed)
    (hr : h.Has ⟨.repeated, r⟩) (hfrozen : (h.cell r).frozen = false)
    (ha : Script.Checked pools h mid (h.cell r).kind new)
    (hsub : items.Subperm ((h.cell r).items ++ new)) :
    mid.Change pools (mid.put r { h.cell r with items := items }) := by
  have hcell : mid.cell r = h.cell r := ha.grows.cell hr
  rw [← hcell]
  refine .setRepeated (ha.grows.has hr) (by rw [hcell]; exact hfrozen) (fun v hv => ?_) fun hn => ?_
  · rw [hcell]
    rcases List.mem_append.1 (hsub.subset hv) with hold | hnew
    · exact .inl hold
    · exact .inr ⟨ha.normal v hnew, ha.grows.fresh hc (ha.new v hnew)⟩
  · rw [hcell] at hn
    exact nodup_refs_of_subperm hsub (nodup_refs_append (hc.repeatedItems hr) ha.new hn ha.nodup)

/-- The view holds old items then, and new ones. -/
theorem plants_setRepeated {r : Ref .repeated} {items new : List Value} (hc : h.Closed)
    (hr : h.Has ⟨.repeated, r⟩) (ha : Script.Checked pools h mid (h.cell r).kind new)
    (hsub : items.Subperm ((h.cell r).items ++ new)) :
    h.Plants (mid.put r { h.cell r with items := items }) := by
  have halters := ha.grows.alters (alters_put mid r { h.cell r with items := items })
    fun p hp => hp ▸ hr
  refine halters.plants_view hc (.repeated r) rfl (by decide) fun w hw => ?_
  have hitems : (mid.put r { h.cell r with items := items }).elements (.repeated r) = items :=
    congrArg RepeatedCell.items (cell_put_self mid r _ (ha.grows.has hr))
  rw [hitems] at hw
  exact (List.mem_append.1 (hsub.subset hw)).imp_right (ha.new w)

end Heap

namespace Script

variable {pools : Set Pool} {h : Heap}

/-! ## Lists -/

theorem Checked.nil (pools : Set Pool) (h : Heap) (kind : Kind) : Checked pools h h kind [] :=
  ⟨.nil pools h, fun _ hv => absurd hv List.not_mem_nil⟩

/-- The field of a view is known. -/
theorem knows_repeated (pools : Set Pool) {r : Ref .repeated} (hr : h.Has ⟨.repeated, r⟩) :
    h.Knows pools (h.cell r).field :=
  .repeated hr

section

variable {r : Ref .repeated} (hc : h.Closed) (hr : h.Has ⟨.repeated, r⟩)

include hc hr

/-- A write to a list view, after checks. -/
theorem putRepeated_runs {mid : Heap} {items new : List Value}
    (hfrozen : (h.cell r).frozen = false) (ha : Checked pools h mid (h.cell r).kind new)
    (hsub : items.Subperm ((h.cell r).items ++ new)) :
    Runs pools {⟨.repeated, r⟩} mid (put r { h.cell r with items := items }) (Planted h) :=
  (Runs.write (Heap.change_setRepeated hc hr hfrozen ha hsub)).mono subset_rfl
    fun _ _ he => he ▸ Heap.plants_setRepeated hc hr ha hsub

theorem append_runs {value : Value} (hv : value.Within h) :
    Runs pools {⟨.repeated, r⟩} h (append r value) (Planted h) := by
  refine .bind_cell (.bind_checkMutable fun hfrozen => ?_)
  refine .bind (normalize_runs (knows_repeated pools hr) (.inl rfl) hv) (fun mid x _ _ hx => ?_)
    fun p hp => hp ▸ hr
  exact putRepeated_runs hc hr hfrozen hx (List.Subperm.refl _)

theorem extend_runs {source : Value} (hv : source.Within h) :
    Runs pools {⟨.repeated, r⟩} h (extend r source) (Planted h) := by
  refine .bind_cell (.bind_checkMutable fun hfrozen => .bind_reading fun incoming hi => ?_)
  refine .bind (normalizeAll_runs (knows_repeated pools hr) (.inl rfl) (hc.iterate hv hi))
    (fun mid xs _ _ hxs => ?_) fun p hp => hp ▸ hr
  exact putRepeated_runs hc hr hfrozen hxs (List.Subperm.refl _)

theorem setAt_runs {index : Int} {value : Value} (hv : value.Within h) :
    Runs pools {⟨.repeated, r⟩} h (setAt r index value) (Planted h) := by
  refine .bind_cell (.bind_checkMutable fun hfrozen => ?_)
  refine .bind (normalize_runs (knows_repeated pools hr) (.inl rfl) hv) (fun mid x _ _ hx => ?_)
    fun p hp => hp ▸ hr
  refine .bind_ofExcept fun position _ => ?_
  exact putRepeated_runs hc hr hfrozen hx (subperm_set _ position x)

theorem insert_runs {index : Int} {value : Value} (hv : value.Within h) :
    Runs pools {⟨.repeated, r⟩} h (insert r index value) (Planted h) := by
  refine .bind_cell (.bind_checkMutable fun hfrozen => ?_)
  refine .bind (normalize_runs (knows_repeated pools hr) (.inl rfl) hv) (fun mid x _ _ hx => ?_)
    fun p hp => hp ▸ hr
  exact putRepeated_runs hc hr hfrozen hx (subperm_insert _ _ x)

theorem remove_runs {value : Value} :
    Runs pools {⟨.repeated, r⟩} h (remove r value) (Planted h) := by
  refine .bind_cell (.bind_checkMutable fun hfrozen => .bind_reading fun position _ => ?_)
  exact putRepeated_runs hc hr hfrozen (.nil pools h _) (subperm_eraseIdx _ position)

theorem pop_runs {index : Option Int} :
    Runs pools {⟨.repeated, r⟩} h (pop r index) (Planted h) := by
  refine .bind_cell (.bind_checkMutable fun hfrozen => .bind_ofExcept fun position _ => ?_)
  refine .andThen (putRepeated_runs hc hr hfrozen (.nil pools h _) (subperm_eraseIdx _ position))
    fun mid _ hmid => ⟨_, run_pure _ mid, hmid⟩

theorem clearRepeated_runs : Runs pools {⟨.repeated, r⟩} h (clearRepeated r) (Planted h) := by
  refine .bind_cell (.bind_checkMutable fun hfrozen => ?_)
  exact putRepeated_runs hc hr hfrozen (.nil pools h _) (List.nil_subperm)

end

theorem concat_runs {r : Ref .repeated} (hc : h.Closed) (hr : h.Has ⟨.repeated, r⟩) {other : Value}
    (hv : other.Within h) : Runs pools ∅ h (concat r other) fun h' v => v.Within h' := by
  refine .bind_cell (.bind_reading fun incoming hi => ?_)
  refine .bind (normalizeAll_runs (knows_repeated pools hr) (.inl rfl) (hc.iterate hv hi))
    (fun mid xs _ _ hxs => ?_) fun p hp => absurd hp id
  have hcell : mid.cell r = h.cell r := hxs.grows.cell hr
  refine Runs.add rfl (.repeated rfl ((knows_repeated pools hr).grow hxs.grows) fun v hv => ?_)
    (mid.grows_alloc (s := .repeated) (by decide) _) ?_
  · rcases List.mem_append.1 hv with hold | hnew
    · have hfield := congrArg RepeatedCell.field hcell
      exact .inr ⟨r, hxs.grows.has hr, hfield, by rw [hcell]; exact hold⟩
    · exact .inl (hxs.normal v hnew)
  · exact Heap.within_of_ref? rfl (mid.has_fresh_alloc .repeated _)

/-- **A view made from a sequence** is a new one of the field. -/
theorem repeatedOf_runs {field : FieldDescriptor} {value : Value} {config : Config}
    (hc : h.Closed) (hf : h.Knows pools field) (hv : value.Within h) :
    Runs pools ∅ h (repeatedOf field value config) fun h' q =>
      h'.Has ⟨.repeated, q⟩ ∧ (h'.cell q).field = field := by
  have made (incoming : List Value) (hin : h.iterate value = .ok incoming) : Runs pools ∅ h (do
      let checked ← normalizeAll field.kind incoming config
      newRepeated { field := field, items := checked, config := config }) fun h' q =>
        h'.Has ⟨.repeated, q⟩ ∧ (h'.cell q).field = field := by
    refine .bind (normalizeAll_runs hf (.inl rfl) (hc.iterate hv hin)) (fun mid xs _ _ hxs => ?_)
      fun p hp => absurd hp id
    refine Runs.add rfl (.repeated rfl (hf.grow hxs.grows) fun v hv => .inl (hxs.normal v hv))
      (mid.grows_alloc (s := .repeated) (by decide) _) ⟨mid.has_fresh_alloc .repeated _, ?_⟩
    exact congrArg RepeatedCell.field (mid.cell_alloc_self (s := .repeated) _)
  unfold repeatedOf
  split
  · exact .bind_reading made
  · exact .bind_reading made
  · exact .bind_reading made
  · exact .throw

/-! ## Maps -/

theorem map_snd_setValueAt (i : Nat) (value : Value) (entries : List (Value × Value)) :
    (setValueAt i value entries).map (·.2) = (entries.map (·.2)).set i value := by
  unfold setValueAt
  induction entries generalizing i with
  | nil => simp
  | cons e rest ih => cases i <;> simp_all

theorem map_fst_setValueAt (i : Nat) (value : Value) (entries : List (Value × Value)) :
    (setValueAt i value entries).map (·.1) = entries.map (·.1) := by
  unfold setValueAt
  induction entries generalizing i with
  | nil => simp
  | cons e rest ih => cases i <;> simp_all

/-- **Updates to entries.** The keys afterwards are old ones and updated ones. -/
theorem mem_keys_commit (g : Heap) {entries : List (Value × Value)}
    {updates : List (Value × Option Value)} {key : Value}
    (hk : key ∈ (g.commit entries updates).map (·.1)) :
    key ∈ entries.map (·.1) ∨ key ∈ updates.map (·.1) := by
  induction updates generalizing entries with
  | nil => exact .inl hk
  | cons u rest ih =>
    obtain ⟨k, value⟩ := u
    unfold Heap.commit at hk
    rcases ih hk with hold | hnew
    · split at hold
      · rw [map_fst_setValueAt] at hold
        exact .inl hold
      · rw [List.map_append] at hold
        rcases List.mem_append.1 hold with hold | hold
        · exact .inl hold
        · exact .inr (List.mem_cons.2 (.inl (List.mem_singleton.1 hold)))
      · obtain ⟨e, he, rfl⟩ := List.mem_map.1 hold
        exact .inl (List.mem_map.2 ⟨e, List.mem_of_mem_eraseIdx he, rfl⟩)
      · exact .inl hold
    · exact .inr (List.mem_cons_of_mem _ hnew)

/-- No key is there twice afterwards, if updated keys equal themselves. -/
theorem nodup_keys_commit (g : Heap) {entries : List (Value × Value)}
    {updates : List (Value × Option Value)} (hself : ∀ u ∈ updates, g.keysEqual u.1 u.1 = true)
    (hn : (entries.map (·.1)).Nodup) : ((g.commit entries updates).map (·.1)).Nodup := by
  induction updates generalizing entries with
  | nil => exact hn
  | cons u rest ih =>
    obtain ⟨k, value⟩ := u
    unfold Heap.commit
    refine ih (fun u hu => hself u (.tail _ hu)) ?_
    split
    · rw [map_fst_setValueAt]
      exact hn
    · rename_i hnone
      rw [List.map_append, List.nodup_append]
      refine ⟨hn, List.nodup_singleton k, fun a ha b hb hab => ?_⟩
      rw [List.mem_singleton.1 hb] at hab
      -- a key that is there is found
      obtain ⟨e, he, rfl⟩ := List.mem_map.1 ha
      have hno := List.findIdx?_eq_none_iff.1 hnone e he
      rw [hab] at hno
      rw [hself _ List.mem_cons_self] at hno
      cases hno
    · exact hn.sublist ((List.eraseIdx_sublist _ _).map _)
    · exact hn

/-- The values afterwards are old ones and updated ones, each at most once. -/
theorem subperm_values_commit (g : Heap) (entries : List (Value × Value))
    (updates : List (Value × Option Value)) :
    ((g.commit entries updates).map (·.2)).Subperm
      (entries.map (·.2) ++ updates.filterMap (·.2)) := by
  -- every update puts in one value at most
  induction updates generalizing entries with
  | nil =>
    rw [Heap.commit, List.filterMap_nil, List.append_nil]
  | cons u rest ih =>
    obtain ⟨k, value⟩ := u
    unfold Heap.commit
    refine (ih _).trans ?_
    split
    · rename_i i v _
      have hcons : ((k, some v) :: rest).filterMap (·.2) = [v] ++ rest.filterMap (·.2) := rfl
      rw [map_snd_setValueAt, hcons, ← List.append_assoc]
      exact (List.subperm_append_right _).2 (subperm_set _ i v)
    · rename_i v _
      have hcons : ((k, some v) :: rest).filterMap (·.2) = [v] ++ rest.filterMap (·.2) := rfl
      rw [List.map_append, hcons, List.append_assoc]
      exact List.Subperm.refl _
    · exact (List.subperm_append_right _).2 ((List.eraseIdx_sublist _ _).map _).subperm
    · exact List.Subperm.refl _

/-- Whether updates were made by the checks of a map field. -/
structure CheckedUpdates (pools : Set Pool) (h h' : Heap) (f : FieldDescriptor)
    (updates : List (Value × Option Value)) : Prop extends
    Heap.AdoptsAs pools h h' (updates.filterMap (·.2)) where
  keys : ∀ key ∈ updates.map (·.1), h'.Normal f.keyKind key
  values : ∀ v ∈ updates.filterMap (·.2), h'.Normal f.valueKind v

theorem CheckedUpdates.nil (pools : Set Pool) (h : Heap) (f : FieldDescriptor) :
    CheckedUpdates pools h h f [] :=
  ⟨.nil pools h, fun _ hv => absurd hv List.not_mem_nil, fun _ hv => absurd hv List.not_mem_nil⟩

end Script

namespace Heap

variable {pools : Set Pool} {h mid : Heap}

/-- Cells made for what is then given up. -/
theorem AdoptsAs.drop {vs : List Value} (ha : AdoptsAs pools h mid vs) : AdoptsAs pools h mid [] :=
  ⟨ha.toAdopts, fun _ hv => absurd hv List.not_mem_nil, fun _ hv => absurd hv List.not_mem_nil,
    .nil⟩

/-- Values made after cells for others were made. -/
theorem Adopts.then {vs : List Value} {h' : Heap} (ha : h.Adopts pools mid)
    (hb : AdoptsAs pools mid h' vs) : AdoptsAs pools h h' vs :=
  ⟨ha.trans hb.toAdopts, fun v hv => (hb.new v hv).earlier fun _ => ha.grows.has, hb.within,
    hb.nodup⟩

/-- **A write to a map view.** -/
theorem change_setMap {r : Ref .map} {entries : List (Value × Value)}
    {updates : List (Value × Option Value)} (hc : h.Closed)
    (hr : h.Has ⟨.map, r⟩) (hfrozen : (h.cell r).frozen = false)
    (ha : Script.CheckedUpdates pools h mid (h.cell r).field updates)
    (hkeys : ∀ key ∈ entries.map (·.1),
      key ∈ (h.cell r).entries.map (·.1) ∨ key ∈ updates.map (·.1))
    (hsub : (entries.map (·.2)).Subperm
      ((h.cell r).entries.map (·.2) ++ updates.filterMap (·.2)))
    (hdistinct : (∀ u ∈ updates, mid.keysEqual u.1 u.1 = true) →
      ((h.cell r).entries.map (·.1)).Nodup → (entries.map (·.1)).Nodup) :
    mid.Change pools (mid.put r { h.cell r with entries := entries }) := by
  have hcell : mid.cell r = h.cell r := ha.grows.cell hr
  rw [← hcell]
  refine .setMap (ha.grows.has hr) (by rw [hcell]; exact hfrozen) (fun e he => ?_) (fun e he => ?_)
    (fun hn => ?_) ?_
  · rw [hcell]
    exact (hkeys e.1 (List.mem_map.2 ⟨e, he, rfl⟩)).imp_right (ha.keys e.1)
  · rw [hcell]
    rcases List.mem_append.1 (hsub.subset (List.mem_map.2 ⟨e, he, rfl⟩)) with hold | hnew
    · exact .inl hold
    · exact .inr ⟨ha.values e.2 hnew, ha.grows.fresh hc (ha.new e.2 hnew)⟩
  · rw [hcell] at hn
    refine nodup_refs_of_subperm hsub (nodup_refs_append (fun v hv => ?_) ha.new hn ha.nodup)
    obtain ⟨e, he, rfl⟩ := List.mem_map.1 hv
    exact (hc.mapEntries hr e he).2
  · rw [hcell]
    exact fun hself => hdistinct fun u hu => hself u.1 (ha.keys u.1 (List.mem_map.2 ⟨u, hu, rfl⟩))

/-- The view holds old values then, and new ones. -/
theorem plants_setMap {r : Ref .map} {entries : List (Value × Value)}
    {updates : List (Value × Option Value)} (hc : h.Closed) (hr : h.Has ⟨.map, r⟩)
    (ha : Script.CheckedUpdates pools h mid (h.cell r).field updates)
    (hsub : (entries.map (·.2)).Subperm
      ((h.cell r).entries.map (·.2) ++ updates.filterMap (·.2))) :
    h.Plants (mid.put r { h.cell r with entries := entries }) := by
  have halters := ha.grows.alters (alters_put mid r { h.cell r with entries := entries })
    fun p hp => hp ▸ hr
  refine halters.plants_view hc (.map r) rfl (by decide) fun w hw => ?_
  have hcell := cell_put_self mid r { h.cell r with entries := entries } (ha.grows.has hr)
  have hvalues : (mid.put r { h.cell r with entries := entries }).elements (.map r) =
      entries.map (·.2) := (congrArg (fun c : MapCell => c.entries.map Prod.snd) hcell :)
  rw [hvalues] at hw
  exact (List.mem_append.1 (hsub.subset hw)).imp_right (ha.new w)

end Heap

namespace Script

variable {pools : Set Pool} {h : Heap}

/-- **A checked pair** is one update. -/
theorem checkPair_runs {c : MapCell} {key value : Value} (hf : h.Knows pools c.field)
    (hk : key.Within h) (hv : value.Within h) :
    Runs pools ∅ h (checkPair c key value) fun h' u => CheckedUpdates pools h h' c.field [u] := by
  refine .bind (normalize_runs hf (.inr (.inl rfl)) hk) (fun mid k _ hg hk => ?_)
    fun _ hp => absurd hp id
  have hkey : mid.Normal c.field.keyKind k := hk.normal k List.mem_cons_self
  split
  · split
    · refine .pure ⟨hk.toAdoptsAs.drop, fun key hmem => ?_, fun _ hv => absurd hv List.not_mem_nil⟩
      rw [List.mem_singleton.1 hmem]
      exact hkey
    · exact .throw
  · refine .bind (normalize_runs (hf.grow hg) (.inr (.inr rfl)) (hv.grow hg))
      (fun mid' v _ hg' hv => .pure ?_) fun _ hp => absurd hp id
    refine ⟨hk.toAdopts.then hv.toAdoptsAs, fun key hmem => ?_, hv.normal⟩
    rw [List.mem_singleton.1 hmem]
    exact hkey.lasts hg'.lasts

/-- Checked pairs share nothing. -/
theorem checkPairs_runs {c : MapCell} {pairs : List (Value × Value)} (hf : h.Knows pools c.field)
    (hpairs : ∀ p ∈ pairs, p.1.Within h ∧ p.2.Within h) :
    Runs pools ∅ h (checkPairs c pairs) fun h' us => CheckedUpdates pools h h' c.field us := by
  unfold checkPairs
  induction pairs generalizing h with
  | nil =>
    rw [List.mapM_nil]
    exact .pure (.nil pools h c.field)
  | cons p rest ih =>
    rw [List.mapM_cons]
    have hp := hpairs p List.mem_cons_self
    refine .bind (checkPair_runs hf hp.1 hp.2) (fun mid u _ hg hu => ?_) fun _ hp => absurd hp id
    have hrest : ∀ p ∈ rest, p.1.Within mid ∧ p.2.Within mid := fun p hp =>
      ⟨(hpairs p (.tail _ hp)).1.grow hg, (hpairs p (.tail _ hp)).2.grow hg⟩
    refine .bind (ih (hf.grow hg) hrest) (fun h' us _ hg' hus => .pure ?_) fun _ hp => absurd hp id
    refine ⟨?_, fun key hk => ?_, fun v hv => ?_⟩
    · rcases hval : u.2 with _ | v
      · rw [List.filterMap_cons_none hval]
        exact hu.toAdopts.then hus.toAdoptsAs
      · rw [List.filterMap_cons_some hval]
        have hone : Heap.AdoptsAs pools h mid [v] := by
          have := hu.toAdoptsAs
          rwa [List.filterMap_cons_some hval] at this
        exact hone.cons hus.toAdoptsAs
    · rcases List.mem_cons.1 hk with rfl | hk
      · exact (hu.keys _ List.mem_cons_self).lasts hg'.lasts
      · exact hus.keys key hk
    · rcases List.mem_filterMap.1 hv with ⟨w, hw, hwv⟩
      rcases List.mem_cons.1 hw with rfl | hw
      · exact (hu.values v (List.mem_filterMap.2 ⟨w, List.mem_cons_self, hwv⟩)).lasts hg'.lasts
      · exact hus.values v (List.mem_filterMap.2 ⟨w, hw, hwv⟩)

section

variable {r : Ref .map} (hc : h.Closed) (hr : h.Has ⟨.map, r⟩)

include hc hr

/-- Validated updates, applied to a view. -/
theorem commit_runs {mid : Heap} {updates : List (Value × Option Value)}
    (hfrozen : (h.cell r).frozen = false)
    (ha : CheckedUpdates pools h mid (h.cell r).field updates) :
    Runs pools {⟨.map, r⟩} mid (commit r updates) (Planted h) := by
  refine .bind_get ?_
  have hcell : mid.cell r = h.cell r := ha.grows.cell hr
  simp only [hcell]
  exact (Runs.write (Heap.change_setMap hc hr hfrozen ha (fun key hk => mem_keys_commit mid hk)
    (subperm_values_commit mid _ updates) (nodup_keys_commit mid))).mono subset_rfl
    fun _ _ he => he ▸ Heap.plants_setMap hc hr ha (subperm_values_commit mid _ updates)

theorem mapSet_runs {key value : Value} (hk : key.Within h) (hv : value.Within h) :
    Runs pools {⟨.map, r⟩} h (mapSet r key value) (Planted h) := by
  refine .bind_cell (.bind_checkMutable fun hfrozen => ?_)
  refine .bind (checkPair_runs (.map hr) hk hv) (fun mid u _ _ hu => ?_) fun p hp => hp ▸ hr
  exact commit_runs hc hr hfrozen hu

theorem mapSetDefault_runs {key fallback : Value} (hk : key.Within h) (hv : fallback.Within h) :
    Runs pools {⟨.map, r⟩} h (mapSetDefault r key fallback) (Planted h) := by
  refine .bind_cell (.bind_checkMutable fun hfrozen => .bind_get ?_)
  split
  · exact .pure (.refl h)
  · refine .bind (checkPair_runs (.map hr) hk hv) (fun mid u _ hg hu => ?_) fun p hp => hp ▸ hr
    split
    · exact .andThen (commit_runs hc hr hfrozen hu) fun mid _ hmid => ⟨_, run_pure _ mid, hmid⟩
    · exact .pure (hg.plants hc)

theorem mapUpdate_runs {source : Option Value} {keywords : Keywords}
    (hs : ∀ v ∈ source, v.Within h) (hk : ∀ k ∈ keywords, k.2.Within h) :
    Runs pools {⟨.map, r⟩} h (mapUpdate r source keywords) (Planted h) := by
  refine .bind_cell (.bind_checkMutable fun hfrozen => ?_)
  have rest (pairs : List (Value × Value)) (hpairs : ∀ p ∈ pairs, p.1.Within h ∧ p.2.Within h) :
      Runs pools {⟨.map, r⟩} h (do
        let updates ← checkPairs (h.cell r) (pairs ++ keywords.map fun k => (.text k.1, k.2))
        commit r updates) (Planted h) := by
    refine .bind (checkPairs_runs (.map hr) fun p hp => ?_)
      (fun mid us _ _ hus => commit_runs hc hr hfrozen hus) fun p hp => hp ▸ hr
    rcases List.mem_append.1 hp with hp | hp
    · exact hpairs p hp
    · obtain ⟨k, hmem, rfl⟩ := List.mem_map.1 hp
      exact ⟨Value.within_of_place?_none (by simp) rfl, hk k hmem⟩
  split
  · exact .bind_pure (rest [] fun _ hp => absurd hp List.not_mem_nil)
  · exact .bind_reading fun pairs hp => rest pairs (hc.pairsOf (hs _ rfl) hp)

/-- A write to a map view that only takes entries out. -/
theorem dropEntries_runs {entries : List (Value × Value)} (hfrozen : (h.cell r).frozen = false)
    (hsub : entries.Sublist (h.cell r).entries) :
    Runs pools {⟨.map, r⟩} h (put r { h.cell r with entries := entries }) (Planted h) := by
  have hvalues : (entries.map (·.2)).Subperm
      ((h.cell r).entries.map (·.2) ++ ([] : List (Value × Option Value)).filterMap (·.2)) := by
    rw [List.filterMap_nil, List.append_nil]
    exact (hsub.map _).subperm
  refine (Runs.write (Heap.change_setMap hc hr hfrozen (.nil pools h _) (fun key hk => ?_) hvalues
    fun _ hn => hn.sublist (hsub.map _))).mono subset_rfl fun _ _ he => he ▸ ?_
  · exact .inl ((hsub.map _).subset hk)
  · exact Heap.plants_setMap hc hr (.nil pools h _) hvalues

theorem mapPop_runs {key : Value} {fallback : Option Value} :
    Runs pools {⟨.map, r⟩} h (mapPop r key fallback) (Planted h) := by
  refine .bind_cell (.bind_checkMutable fun hfrozen => .bind_get ?_)
  split
  · exact .andThen (dropEntries_runs hc hr hfrozen (List.eraseIdx_sublist _ _))
      fun mid _ hmid => ⟨_, run_pure _ mid, hmid⟩
  · exact .pure (.refl h)
  · exact .throw

theorem mapPopItem_runs : Runs pools {⟨.map, r⟩} h (mapPopItem r) (Planted h) := by
  refine .bind_cell (.bind_checkMutable fun hfrozen => ?_)
  split
  · exact .throw
  · rename_i key value rest heq
    refine .andThen (dropEntries_runs hc hr hfrozen ?_) fun mid _ hmid => ⟨_, run_pure _ mid, hmid⟩
    rw [heq]
    exact List.sublist_cons_self _ rest

theorem clearMap_runs : Runs pools {⟨.map, r⟩} h (clearMap r) (Planted h) :=
  .bind_cell (.bind_checkMutable fun hfrozen =>
    dropEntries_runs hc hr hfrozen (List.nil_sublist _))

end

theorem mapIndex_runs {r : Ref .map} {key : Value} : Runs pools ∅ h (mapIndex r key) Any := by
  refine .bind_get ?_
  split
  · exact .pure trivial
  · exact .throw

/-- **A view made from a mapping** is a new one of the field. -/
theorem mapOf_runs {field : FieldDescriptor} {value : Value} {config : Config} (hc : h.Closed)
    (hf : h.Knows pools field) (hv : value.Within h) :
    Runs pools ∅ h (mapOf field value config) fun h' q =>
      h'.Has ⟨.map, q⟩ ∧ (h'.cell q).field = field := by
  unfold mapOf
  split
  · exact .throw
  · refine .bind_get ?_
    split
    · exact .throw
    · rename_i entries hentries
      refine .bind (checkPairs_runs (c := { field := field, config := config }) hf
        (hc.mappingEntries hv hentries)) (fun mid us _ hg hus => .bind_get ?_) fun p hp => absurd hp id
      refine Runs.add rfl (.map rfl (hf.grow hg) (fun e he => ⟨?_, ?_⟩) fun hself => ?_)
        (mid.grows_alloc (s := .map) (by decide) _) ⟨mid.has_fresh_alloc .map _, ?_⟩
      · rcases mem_keys_commit mid (List.mem_map.2 ⟨e, he, rfl⟩) with hold | hnew
        · cases hold
        · exact hus.keys e.1 hnew
      · have hmem := (subperm_values_commit mid [] us).subset (List.mem_map.2 ⟨e, he, rfl⟩)
        exact hus.values e.2 (by simpa using hmem)
      · refine nodup_keys_commit mid (fun u hu => ?_) .nil
        exact hself u.1 (hus.keys u.1 (List.mem_map.2 ⟨u, hu, rfl⟩))
      · exact congrArg MapCell.field (mid.cell_alloc_self (s := .map) _)

end Script

end Protoscript
