import Protoscript.Proofs.Runs

/-!
# Lists and dicts

* `Script.push_runs`, `Script.setItem_runs`, … — each operation writes the list or dict it is given,
  at most;
* `Script.dictOf_runs` — making a dict alters nothing, even when a key has no hash;
* `Script.dictInsert_absent`, `Script.dictOf_pair` — a new key goes behind the others.
-/

namespace Protoscript.Script

variable {pools : Set Pool} {h : Heap}

/-! ## Lists -/

theorem newList_runs {items : List Value} (hi : ∀ v ∈ items, v.Within h) :
    Runs pools ∅ h (newList items) fun h' v => v.Within h' := by
  refine Runs.add rfl (.list hi) (h.grows_alloc (s := .list) (by decide) _) ?_
  exact Heap.within_of_ref? rfl (Heap.has_fresh_alloc h .list _)

theorem push_runs {r : Ref .list} {value : Value} (hc : h.Closed) (hr : h.Has ⟨.list, r⟩)
    (hv : value.Within h) : Runs pools {⟨.list, r⟩} h (push r value) Any := by
  refine .bind_cell (.bind_checkMutable fun hfrozen => ?_)
  refine (Runs.write (.setList hr hfrozen fun v hmem => ?_)).mono subset_rfl fun _ _ _ => trivial
  rcases List.mem_append.1 hmem with hold | hnew
  · exact hc.items hr v hold
  · rw [List.mem_singleton.1 hnew]
    exact hv

theorem setItem_runs {r : Ref .list} {position : Nat} {value : Value} (hc : h.Closed)
    (hr : h.Has ⟨.list, r⟩) (hv : value.Within h) :
    Runs pools {⟨.list, r⟩} h (setItem r position value) Any := by
  refine .bind_cell (.bind_checkMutable fun hfrozen => ?_)
  split
  · refine (Runs.write (.setList hr hfrozen fun v hmem => ?_)).mono subset_rfl fun _ _ _ => trivial
    rcases List.mem_or_eq_of_mem_set hmem with hold | rfl
    · exact hc.items hr v hold
    · exact hv
  · exact .throw

/-! ## Dicts -/

theorem mem_setValueAt {i : Nat} {value : Value} {entries : List (Value × Value)}
    {e : Value × Value} (he : e ∈ setValueAt i value entries) :
    e ∈ entries ∨ ∃ e' ∈ entries, e = (e'.1, value) := by
  unfold setValueAt at he
  obtain ⟨j, hj, rfl⟩ := List.mem_iff_getElem.1 he
  rw [List.getElem_modify]
  split
  · exact .inr ⟨_, List.getElem_mem _, rfl⟩
  · exact .inl (List.getElem_mem _)

theorem dictGet_runs {r : Ref .dict} {key : Value} (hc : h.Closed) (hr : h.Has ⟨.dict, r⟩) :
    Runs pools ∅ h (dictGet r key) fun h' v => ∀ w, v = some w → w.Within h' := by
  refine .bind_reading fun _ _ => .bind_get (.pure fun w hw => ?_)
  unfold Heap.lookup? at hw
  obtain ⟨e, he, rfl⟩ := Option.map_eq_some_iff.1 hw
  exact (hc.dictEntries hr e (List.mem_of_find?_eq_some he)).2

theorem dictInsert_runs {r : Ref .dict} {key value : Value} (hc : h.Closed)
    (hr : h.Has ⟨.dict, r⟩) (hk : key.Within h) (hv : value.Within h) :
    Runs pools {⟨.dict, r⟩} h (dictInsert r key value) Any := by
  refine .bind_cell (.bind_checkMutable fun hfrozen => .bind_reading fun _ _ => .bind_get ?_)
  split
  · refine (Runs.write (.setDict hr hfrozen fun e he => ?_)).mono subset_rfl fun _ _ _ => trivial
    rcases mem_setValueAt he with hold | ⟨e', hold, rfl⟩
    · exact hc.dictEntries hr e hold
    · exact ⟨(hc.dictEntries hr e' hold).1, hv⟩
  · refine (Runs.write (.setDict hr hfrozen fun e he => ?_)).mono subset_rfl fun _ _ _ => trivial
    rcases List.mem_append.1 he with hold | hnew
    · exact hc.dictEntries hr e hold
    · rw [List.mem_singleton.1 hnew]
      exact ⟨hk, hv⟩

theorem dictRemove_runs {r : Ref .dict} {key : Value} (hc : h.Closed) (hr : h.Has ⟨.dict, r⟩) :
    Runs pools {⟨.dict, r⟩} h (dictRemove r key) Any := by
  refine .bind_cell (.bind_checkMutable fun hfrozen => .bind_get ?_)
  split
  · refine Runs.andThen (Runs.write (.setDict hr hfrozen fun e he => ?_)) fun mid _ _ =>
      ⟨_, run_pure _ mid, trivial⟩
    exact hc.dictEntries hr e (List.mem_of_mem_eraseIdx he)
  · exact .pure trivial

/-- **Making a dict alters nothing.** The entries go into a new cell only, also when one of the keys
has no hash and the rest is given up. -/
theorem dictOf_runs {entries : List (Value × Value)} (hc : h.Closed)
    (he : ∀ e ∈ entries, e.1.Within h ∧ e.2.Within h) :
    Runs pools ∅ h (dictOf entries) fun h' v => v.Within h' := by
  let r := h.fresh .dict
  let start := h.alloc .dict {}
  have hnew : ¬ h.Has ⟨.dict, r⟩ := Nat.lt_irrefl _
  have hstart : h.Change pools start := .dict fun e he => absurd he List.not_mem_nil
  let I (g : Heap) : Prop := start.Changes pools g ∧ h.Grows g
  have hI : I start := ⟨.refl, h.grows_alloc (s := .dict) (by decide) {}⟩
  -- one entry: the dict that is written is new, so the old cells stay
  have hbody (e : Value × Value) (hmem : e ∈ entries) (u : PUnit) : Keeps I (do
      dictInsert r e.1 e.2
      pure (ForInStep.yield u)) := by
    refine Keeps.bind (fun g hg => ?_) fun _ => Keeps.pure _
    have hclosed : g.Closed := hg.1.closed (hstart.closed hc)
    have hr : g.Has ⟨.dict, r⟩ := hg.1.has (Heap.has_fresh_alloc h .dict {})
    have hrun : Runs pools _ g (dictInsert r e.1 e.2) _ :=
      dictInsert_runs hclosed hr ((he e hmem).1.grow hg.2) ((he e hmem).2.grow hg.2)
    refine ⟨hg.1.trans hrun.changes, ?_⟩
    rcases hres : (dictInsert r e.1 e.2).run g with ⟨e | a, g'⟩
    · exact hg.2.trans (hrun.error hres)
    · refine hg.2.of_alters (hrun.ok hres).1 (fun p hp => ?_) fun q hq => ?_
      · rw [hp]
        exact hnew
      · cases hq
  let loop : Script Value := do
    forIn entries PUnit.unit fun e _ => do
      dictInsert r e.1 e.2
      pure (ForInStep.yield PUnit.unit)
    pure (Value.dict r)
  have hloop : Keeps I loop :=
    Keeps.bind (Keeps.forIn (fun e hmem _ => hbody e hmem _) _) fun _ => Keeps.pure _
  have hend : I (loop.run start).2 := hloop start hI
  refine Runs.of_keeps (.head hstart hend.1) hend.2 fun a h' hrun => ?_
  have hrun : loop.run start = (.ok a, h') := hrun
  rw [hrun] at hend
  obtain ⟨_, mid, -, hpure⟩ := bind_ok.1 hrun
  cases hpure
  exact Heap.within_of_ref? rfl (hend.1.has (Heap.has_fresh_alloc h .dict {}))

/-- A key of which a dict has none is put behind the others. -/
theorem dictInsert_absent {h : Heap} {r : Ref .dict} {key value : Value} {bytes : List UInt8}
    (hmutable : (h.cell r).frozen = false) (hhash : h.hashBytes key = .ok bytes)
    (hnone : h.findKey? key (h.cell r).entries = none) :
    (dictInsert r key value).run h =
      (.ok (), h.put r { h.cell r with entries := (h.cell r).entries ++ [(key, value)] }) := by
  refine bind_ok.2 ⟨_, _, rfl, bind_ok.2 ⟨(), h, ?_, bind_ok.2 ⟨bytes, h, ?_,
    bind_ok.2 ⟨h, h, rfl, ?_⟩⟩⟩⟩
  · rw [checkMutable, hmutable]
    rfl
  · rw [hash, run_reading, hhash]
  · rw [hnone]
    rfl

/-- A dict of two entries whose keys differ. -/
theorem dictOf_pair {h : Heap} {e₁ e₂ : Value × Value} {hash₁ hash₂ : List UInt8}
    (h₁ : ∀ g : Heap, g.hashBytes e₁.1 = .ok hash₁) (h₂ : ∀ g : Heap, g.hashBytes e₂.1 = .ok hash₂)
    (hne : ∀ g : Heap, g.keysEqual e₁.1 e₂.1 = false) :
    (dictOf [e₁, e₂]).run h =
      (.ok (.dict (h.fresh .dict)), h.alloc .dict { entries := [e₁, e₂] }) := by
  let r := h.fresh .dict
  let first := h.alloc .dict { entries := [e₁] }
  have hempty : (h.alloc .dict {}).cell r = {} := Heap.cell_alloc_self h _
  have hcell : first.cell r = { entries := [e₁] } := Heap.cell_alloc_self h _
  have hinsert : (dictInsert r e₁.1 e₁.2).run (h.alloc .dict {}) = (.ok (), first) := by
    rw [dictInsert_absent (by rw [hempty]) (h₁ _) (by rw [hempty]; rfl), hempty, Heap.put_alloc]
    rfl
  have hnone : first.findKey? e₂.1 (first.cell r).entries = none := by
    rw [hcell, Heap.findKey?, List.findIdx?_cons, hne]
    rfl
  have hboth : (dictInsert r e₂.1 e₂.2).run first =
      (.ok (), h.alloc .dict { entries := [e₁, e₂] }) := by
    rw [dictInsert_absent (by rw [hcell]) (h₂ _) hnone, hcell, Heap.put_alloc]
    rfl
  refine bind_ok.2 ⟨_, _, rfl, bind_ok.2 ⟨_, _, rfl, bind_ok.2 ⟨⟨⟩, _, ?_, rfl⟩⟩⟩
  rw [List.forIn_cons]
  refine bind_ok.2 ⟨_, first, bind_ok.2 ⟨_, _, hinsert, rfl⟩, ?_⟩
  exact bind_ok.2 ⟨_, _, bind_ok.2 ⟨_, _, hboth, rfl⟩, rfl⟩

end Protoscript.Script
