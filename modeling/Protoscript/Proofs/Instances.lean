import Protoscript.Proofs.Views

/-!
# Messages

Reading a field keeps a view of what it stores; writing one stores what a value was converted to.

* `Script.readField_runs`, `Script.messageAttr_runs` — reading;
* `Script.storedFor_runs`, `Script.setField_runs` — writing;
* `Script.setField_ok` — what an assignment that succeeds writes;
* `Script.mergeMessage_runs`, … — the operations on whole messages;
* `Script.construct_runs` — a constructor call alters nothing, even when it is given up half way.
-/

namespace Protoscript

/-! ## Reading -/

/-- What reads as more than its default is stored. -/
theorem Message.contains_get {m n : Message} {f : FieldDescriptor}
    (hn : (m.get f).Contains n) :
    (∃ s, m.stored? f = some s ∧ s.Contains n) ∨
      m.stored? f = none ∧ f.isMap = false ∧ f.isList = false ∧ f.kind.isMessage = true := by
  unfold get at hn
  rcases hs : m.stored? f with _ | s
  · right
    rw [hs, Option.getD_none] at hn
    unfold Stored.defaultOf at hn
    by_cases hmap : f.isMap = true
    · rw [if_pos hmap] at hn
      cases hn with
      | map he => cases he
    by_cases hlist : f.isList = true
    · rw [if_neg hmap, if_pos hlist] at hn
      cases hn with
      | list hs => cases hs
    rw [if_neg hmap, if_neg hlist, Stored.singleDefault] at hn
    rcases hdefault : f.defaultScalar? with _ | x <;> rcases hkind : f.kind with t | d | e <;>
      rw [hdefault, hkind] at hn
    case none.message => exact ⟨rfl, by simpa using hmap, by simpa using hlist, rfl⟩
    all_goals
      cases hn
      try contradiction
  · rw [hs, Option.getD_some] at hn
    exact .inl ⟨s, rfl, hn⟩

namespace Script

variable {pools : Set Pool} {h : Heap}

/-- What reading a field gives: a new value that shows what the field stores. -/
structure ReadNew (pools : Set Pool) (h h' : Heap) (m : Message) (f : FieldDescriptor)
    (config : Config) (v : Value) : Prop extends Heap.Adopts pools h h' where
  reads : h'.Reads m f config v
  new : v.NewTo h
  newElements : ∀ w ∈ h'.elements v, w.NewTo h
  nodup : ((h'.elements v).filterMap Value.ref?).Nodup

section

variable {r : Ref .message} {f : FieldDescriptor} (hr : h.Has ⟨.message, r⟩)
  (hf : f ∈ (h.cell r).content.descriptor.fields)

include hr hf

/-- A message in a field of a message can be read into a new one. -/
theorem source_of_stored {s : Stored} {n : Message} (hs : (h.cell r).content.stored? f = some s)
    (hn : s.Contains n) {g : Heap} (hg : h.Grows g) : g.Source pools n := by
  have hcell : g.cell r = h.cell r := hg.cell hr
  exact .part (hg.has hr) (by rw [hcell]; exact hf) (by rw [hcell]; exact hs) hn

/-- The view of a map field. -/
theorem readMap_runs (hmap : f.isMap = true) :
    Runs pools ∅ h (do
      let entries ← match (h.cell r).content.get f with
        | .map entries => modifyGet (·.adoptEntries f.valueKind (h.cell r).config entries)
        | _ => pure []
      return .map (← newMap { field := f, entries := entries, config := (h.cell r).config }))
      fun h' v => ReadNew pools h h' (h.cell r).content f (h.cell r).config v := by
  -- the entries are those of the stored map; a field that stores none has none
  have finish {mid : Heap} (es : List (Value × Value)) (ha : Heap.AdoptsAs pools h mid (es.map (·.2)))
      (hes : List.Forall₂ (fun stored e => e.1 = stored.1.toValue ∧
        mid.Shows f.valueKind (h.cell r).config stored.2 e.2) ((h.cell r).content.entriesOf f) es) :
      Runs pools ∅ mid (do
        return .map (← newMap { field := f, entries := es, config := (h.cell r).config }))
        fun h' v => ReadNew pools h h' (h.cell r).content f (h.cell r).config v := by
    have hcell : mid.cell r = h.cell r := ha.grows.cell hr
    let c : MapCell := { field := f, entries := es, config := (h.cell r).config }
    have hread : c.ReadFrom mid (h.cell r).content f (h.cell r).config := ⟨hmap, rfl, rfl, hes⟩
    have hnew := mid.cell_alloc_self (s := .map) c
    have hchange : mid.Change pools (mid.alloc .map c) :=
      .readMap (r := r) rfl (ha.grows.has hr) (by rw [hcell]; exact hf) (by rw [hcell]; exact hread)
    have hgrows := mid.grows_alloc (s := .map) (by decide) c
    refine Runs.add rfl hchange hgrows ⟨ha.toAdopts.alloc hchange hgrows fun v hv => ?_, ?_, ?_, ?_, ?_⟩
    · obtain ⟨e, he, hv⟩ := List.mem_flatMap.1 hv
      rcases List.mem_pair.1 hv with rfl | rfl
      · obtain ⟨stored, -, hkey, -⟩ := exists_of_forall₂ hes he
        rw [hkey]
        exact MapKey.newTo_toValue h _
      · exact ha.new _ (List.mem_map.2 ⟨e, he, rfl⟩)
    · exact .map (mid.has_fresh_alloc .map c) (hread.lasts hgrows.lasts (by rw [hnew]))
    · exact Value.newTo_of_ref? rfl fun hhas => mid.not_has_fresh .map (ha.grows.has hhas)
    · intro w hw
      exact ha.new w (by rwa [Heap.elements, hnew] at hw)
    · rw [Heap.elements, hnew]
      exact ha.nodup
  split
  · rename_i entries heq
    obtain ⟨ha, hes⟩ := Heap.adoptEntries_shows pools h f.valueKind (h.cell r).config
      entries fun e he n hn g hg => by
        rcases Message.contains_get (m := (h.cell r).content) (f := f) (n := n)
          (by rw [heq]; exact .map he hn) with ⟨s, hs, hn⟩ | ⟨-, hno, -⟩
        · exact source_of_stored hr hf hs hn hg
        · rw [hmap] at hno
          cases hno
    refine .bind_modifyGet ha.changes ha.grows (finish _ ha ?_) fun p hp => absurd hp id
    unfold Message.entriesOf
    rw [heq]
    exact hes
  · rename_i hno
    refine .bind_pure (finish [] (.nil pools h) ?_)
    unfold Message.entriesOf
    split
    · rename_i entries heq
      exact absurd heq (hno entries)
    · exact .nil

/-- The view of a list field. -/
theorem readRepeated_runs (hmap : f.isMap = false) (hlist : f.isList = true) :
    Runs pools ∅ h (do
      let items ← match (h.cell r).content.get f with
        | .list items => modifyGet (·.adoptItems f.kind (h.cell r).config items)
        | _ => pure []
      return .repeated (← newRepeated { field := f, items := items, config := (h.cell r).config }))
      fun h' v => ReadNew pools h h' (h.cell r).content f (h.cell r).config v := by
  -- the items are read first, the view is made last
  have finish {mid : Heap} (vs : List Value) (ha : Heap.AdoptsAs pools h mid vs)
      (hvs : List.Forall₂ (mid.Shows f.kind (h.cell r).config) ((h.cell r).content.itemsOf f) vs) :
      Runs pools ∅ mid (do
        return .repeated (← newRepeated { field := f, items := vs, config := (h.cell r).config }))
        fun h' v => ReadNew pools h h' (h.cell r).content f (h.cell r).config v := by
    have hcell : mid.cell r = h.cell r := ha.grows.cell hr
    let c : RepeatedCell := { field := f, items := vs, config := (h.cell r).config }
    have hread : c.ReadFrom mid (h.cell r).content f (h.cell r).config :=
      ⟨hmap, hlist, rfl, rfl, hvs⟩
    have hnew := mid.cell_alloc_self (s := .repeated) c
    have hchange : mid.Change pools (mid.alloc .repeated c) :=
      .readRepeated (r := r) rfl (ha.grows.has hr) (by rw [hcell]; exact hf)
        (by rw [hcell]; exact hread)
    have hgrows := mid.grows_alloc (s := .repeated) (by decide) c
    refine Runs.add rfl hchange hgrows ⟨ha.toAdopts.alloc hchange hgrows ha.new, ?_, ?_, ?_, ?_⟩
    · exact .list (mid.has_fresh_alloc .repeated c) (hread.lasts hgrows.lasts (by rw [hnew]))
    · exact Value.newTo_of_ref? rfl fun hhas => mid.not_has_fresh .repeated (ha.grows.has hhas)
    · intro w hw
      exact ha.new w (by rwa [Heap.elements, hnew] at hw)
    · rw [Heap.elements, hnew]
      exact ha.nodup
  split
  · rename_i items heq
    obtain ⟨ha, hvs⟩ := Heap.adoptItems_shows pools h f.kind (h.cell r).config
      items fun s hs n hn g hg => by
        rcases Message.contains_get (m := (h.cell r).content) (f := f) (n := n)
          (by rw [heq]; exact .list hs hn) with ⟨s, hs, hn⟩ | ⟨-, -, hno, -⟩
        · exact source_of_stored hr hf hs hn hg
        · rw [hlist] at hno
          cases hno
    refine .bind_modifyGet ha.changes ha.grows (finish _ ha ?_) fun p hp => absurd hp id
    unfold Message.itemsOf
    rw [heq]
    exact hvs
  · rename_i hno
    refine .bind_pure (finish [] (.nil pools h) ?_)
    unfold Message.itemsOf
    split
    · rename_i items heq
      exact absurd heq (hno items)
    · exact .nil

/-- **Reading a field** makes new cells only, and gives a value that shows what the field stores. -/
theorem readField_runs : Runs pools ∅ h (readField (h.cell r).content f (h.cell r).config)
    fun h' v => ReadNew pools h h' (h.cell r).content f (h.cell r).config v := by
  unfold readField
  by_cases hmap : f.isMap = true
  · rw [if_pos hmap]
    exact readMap_runs hr hf hmap
  rw [if_neg hmap]
  by_cases hlist : f.isList = true
  · rw [if_pos hlist]
    exact readRepeated_runs hr hf (by simpa using hmap) hlist
  rw [if_neg hlist]
  have hmap : f.isMap = false := by simpa using hmap
  have hlist : f.isList = false := by simpa using hlist
  split
  · rename_i hunset
    rw [Bool.and_eq_true, Bool.not_eq_true'] at hunset
    refine .pure ⟨.refl pools h, .absent hmap hlist hunset.1 hunset.2, ?_, ?_, .nil⟩
    · exact Value.newTo_of_ref?_none (by simp) rfl
    · exact List.forall_mem_nil _
  · rename_i hset
    have hset := Bool.eq_false_iff.2 hset
    obtain ⟨ha, hs⟩ := Heap.adopt_shows pools h f.kind (h.cell r).config
      ((h.cell r).content.get f) fun n hn g hg => by
        rcases Message.contains_get hn with ⟨s, hs, hn⟩ | ⟨hnone, -, -, hkind⟩
        · exact source_of_stored hr hf hs hn hg
        · rw [Message.has, hnone, hkind] at hset
          simp at hset
    refine .of_keeps ha.changes ha.grows fun v h' hrun => ?_
    cases hrun
    -- only lists and maps are read as views, so there are no elements
    have hnoview : (h.adopt f.kind (h.cell r).config ((h.cell r).content.get f)).2.elements
        (h.adopt f.kind (h.cell r).config ((h.cell r).content.get f)).1 = [] := by
      cases hget : (h.cell r).content.get f with
      | scalar s =>
        have := s.ref?_toValue f.kind
        rw [Heap.adopt]
        cases hv : s.toValue f.kind <;> simp_all [Heap.elements, Value.ref?]
      | _ => rw [Heap.adopt]; rfl
    refine ⟨ha.toAdopts, .single hmap hlist hset hs, ha.new _ List.mem_cons_self, ?_, ?_⟩
    · rw [hnoview]
      exact List.forall_mem_nil _
    · rw [hnoview]
      exact .nil

end

/-- Freezing a new value leaves all that was there before as it was, if new cells hold new values. -/
theorem grows_freeze {mid : Heap} {v : Value} (hg : h.Grows mid)
    (hown : ∀ p, mid.Has p → ¬ h.Has p → ∀ w ∈ (mid.cell p.2).values, w.NewTo h) (hv : v.NewTo h) :
    h.Grows (mid.freeze v) := by
  have hlasts : mid.Lasts (mid.freeze v) := Heap.lasts_freezeAll mid [v]
  -- freezing does not leave the new cells
  have halters : mid.Alters {p | ¬ h.Has p} (mid.freeze v) := by
    refine Heap.alters_freezeAll_of mid [v] (fun w hw => ?_) fun p hp hhas w hw => hown p hhas hp w hw
    rw [List.mem_singleton.1 hw]
    exact hv
  refine Heap.Grows.of_alters hg halters (fun p hp => hp) fun q hq => ?_
  by_cases hhas : mid.Has ⟨.message, q⟩
  · rw [hlasts.views hhas]
    exact Heap.Alters.views hg hq
  · exact Heap.Alters.views halters hhas

/-- A value that was just read is new when it is frozen, too. -/
theorem ReadNew.freeze {mid : Heap} {m : Message} {f : FieldDescriptor} {config : Config} {v : Value}
    (hv : ReadNew pools h mid m f config v) : ReadNew pools h (mid.freeze v) m f config v := by
  have hwithin : v.Within mid := hv.reads.within
  have hlasts : mid.Lasts (mid.freeze v) := Heap.lasts_freezeAll mid [v]
  have hgrows : h.Grows (mid.freeze v) := grows_freeze hv.grows (fun _ hhas hp => hv.own hhas hp) hv.new
  refine ⟨⟨hv.changes.tail (.freeze hwithin), hgrows, fun {p} hp hnew w hw => ?_⟩,
    hv.reads.lasts hlasts, hv.new, ?_, ?_⟩
  · rw [Heap.freeze, Heap.values_cell_freezeAll] at hw
    exact hv.own (Heap.has_freezeAll.1 hp) hnew w hw
  · rw [hlasts.elements hwithin]
    exact hv.newElements
  · rw [hlasts.elements hwithin]
    exact hv.nodup

theorem mem_of_lookupName {α : Type} {name : String} {entries : List (String × α)} {a : α}
    (h : lookupName name entries = some a) : (name, a) ∈ entries := by
  obtain ⟨e, he, rfl⟩ := Option.map_eq_some_iff.1 h
  have hname := List.find?_some he
  rw [beq_iff_eq] at hname
  exact hname ▸ List.mem_of_find?_eq_some he

/-- A message that keeps what was just read keeps new things. -/
theorem ReadNew.plants {mid : Heap} {r : Ref .message} {name : String} {m : Message}
    {f : FieldDescriptor} {config : Config} {v : Value} {c : MessageCell}
    (hv : ReadNew pools h mid m f config v) (hc : h.Closed) (hr : h.Has ⟨.message, r⟩)
    (hviews : c.views = (h.cell r).views ++ [(name, v)]) : h.Plants (mid.put r c) := by
  have halters := hv.grows.alters (Heap.alters_put mid r c) fun p hp => hp ▸ hr
  refine halters.plants_message hc fun view hview => ?_
  rw [Heap.cell_put_self mid (s := .message) r c (hv.grows.has hr), hviews] at hview
  refine (List.mem_append.1 hview).imp_right fun hlast => ?_
  rw [List.mem_singleton.1 hlast]
  have hne : v.ref? ≠ some ⟨.message, r⟩ := fun he => hv.new.not_has he hr
  rw [Heap.elements_put mid (s := .message) r c hne]
  exact ⟨hv.new, hv.newElements⟩

/-- **Reading an attribute** of a message keeps what the field was read as. -/
theorem messageAttr_runs {r : Ref .message} {name : String} (hc : h.Closed)
    (hr : h.Has ⟨.message, r⟩) :
    Runs pools {⟨.message, r⟩} h (messageAttr r name) fun h' a =>
      (∀ v, a = some v → (name, v) ∈ (h'.cell r).views) ∧ h.Plants h' := by
  refine .bind_cell ?_
  split
  · rename_i v hv
    refine .pure ⟨fun w hw => ?_, .refl h⟩
    cases hw
    exact mem_of_lookupName hv
  · rename_i hnone
    split
    · refine .pure ⟨fun v hv => ?_, .refl h⟩
      cases hv
    · rename_i f hf
      have hread : Runs pools ∅ h (readField (h.cell r).content f (h.cell r).config) _ :=
        readField_runs hr (MessageDescriptor.field?_eq_some.1 hf).1
      -- the message keeps what was read
      have keep {mid : Heap} {v : Value}
          (hv : ReadNew pools h mid (h.cell r).content f (h.cell r).config v)
          (hfrozen : (h.cell r).frozen = true → ∀ p, v.ref? = some p → (mid.cell p.2).isFrozen = true) :
          Runs pools {⟨.message, r⟩} mid (do
            let c ← cell r
            put r { c with views := c.views ++ [(name, v)] }
            return some v) fun h' a =>
              (∀ v, a = some v → (name, v) ∈ (h'.cell r).views) ∧ h.Plants h' := by
        have hcell : mid.cell r = h.cell r := hv.grows.cell hr
        have hchange : mid.Change pools
            (mid.put r { mid.cell r with views := (mid.cell r).views ++ [(name, v)] }) := by
          have hafter : ∀ w ∈ v :: mid.elements v, ∀ q : Ref .message, w = .message q →
              r.index < q.index := by
            intro w hw q hq
            -- what was read is new, and so comes after the message
            have hnew : w.NewTo h := by
              rcases List.mem_cons.1 hw with rfl | hw
              · exact hv.new
              · exact hv.newElements w hw
            have hno : ¬ h.Has ⟨.message, q⟩ := hnew.not_has (by rw [hq]; rfl)
            exact Nat.lt_of_lt_of_le hr (Nat.le_of_not_lt hno)
          refine .keep (f := f) (hv.grows.has hr) ?_ ?_ ?_ ?_ (hv.grows.fresh hc hv.new)
            (fun w hw => hv.grows.fresh hc (hv.newElements w hw)) hv.nodup hafter <;> rw [hcell]
          · exact hnone
          · exact hf
          · exact hv.reads
          · exact hfrozen
        refine .bind_cell (.andThen (Runs.write hchange)
          fun h' _ he => ⟨_, run_pure _ h', fun w hw => ?_, ?_⟩)
        · cases hw
          rw [he, Heap.cell_put_self _ _ _ (hv.grows.has hr)]
          exact List.mem_append_right _ List.mem_cons_self
        · rw [he]
          exact hv.plants hc hr (by rw [hcell])
      -- a frozen message keeps a view that is frozen before
      rcases Bool.eq_false_or_eq_true (h.cell r).frozen with hyes | hno
      · simp only [hyes, if_true]
        have hfreeze := Runs.settle (g := fun v h => h.freeze v)
          (T := fun mid v => ReadNew pools h mid (h.cell r).content f (h.cell r).config v ∧
            mid.Frozen v) hread
          fun mid v _ hv => ⟨hv.freeze.changes, hv.freeze.grows, hv.freeze, mid.frozen_freeze v⟩
        refine (Runs.bind hfreeze (fun mid v _ _ hv => keep hv.1 fun _ p hp =>
          hv.2.isFrozen hp (hv.1.reads.within.has (Value.place?_of_ref? hp))) fun p hp => hp ▸ hr).congr ?_
        simp only [bind_assoc, pure_bind]
        rfl
      · simp only [hno]
        exact .bind hread (fun mid v _ _ hv => keep hv fun hyes =>
          absurd (hno ▸ hyes) Bool.false_ne_true)
          fun p hp => hp ▸ hr

/-! ## Writing -/

section

variable {f : FieldDescriptor} {v : Value} {config : Config}

/-- A view made from a mapping. -/
theorem mapOf_of_some {entries : List (Value × Value)} (hmap : f.isMap = true)
    (hentries : h.mappingEntries? v = some entries) :
    (mapOf f v config).run h = Script.run (do
      let updates ← checkPairs { field := f, config := config } entries
      newMap { field := f, entries := (← get).commit [] updates, config := config }) h := by
  unfold mapOf
  simp only [FieldDescriptor.isMessage_of_isMap hmap, Bool.not_true, Bool.false_eq_true, if_false]
  rw [run_bind, run_get]
  simp only [hentries]

/-- What is no mapping makes no view. -/
theorem mapOf_of_none (hmap : f.isMap = true) (hentries : h.mappingEntries? v = none) :
    (mapOf f v config).run h =
      (.error (.typeMismatch v ({ field := f, config := config } : MapCell).typeName), h) := by
  unfold mapOf
  simp only [FieldDescriptor.isMessage_of_isMap hmap, Bool.not_true, Bool.false_eq_true, if_false]
  rw [run_bind, run_get]
  simp only [hentries]
  rfl

/-- What a list field is set to is what a view of it would store. -/
theorem storedFor_of_isList (hlist : f.isList = true) : storedFor f v config = (do
    let view ← repeatedOf f v config
    return some (← reading (·.repeatedContents view))) := by
  unfold storedFor
  rw [if_neg (by rw [FieldDescriptor.isMap_of_isList hlist]; exact nofun), if_pos hlist]
  cases v <;> rfl

/-- So is what a map field is set to. -/
theorem storedFor_of_isMap (hmap : f.isMap = true) :
    (storedFor f v config).run h = Script.run (do
      let view ← mapOf f v config
      return some (← reading (·.mapContents view))) h := by
  unfold storedFor
  rw [if_pos hmap]
  by_cases habsent : v = .absent
  · subst habsent
    rw [run_bind, mapOf_of_none hmap rfl]
    rfl
  · cases v <;> first | rfl | exact absurd rfl habsent

/-- Any other field is set to what a single value is stored as. -/
theorem storedFor_single (hmap : f.isMap = false) (hlist : f.isList = false) :
    storedFor f v config = scalarFor f v config := by
  unfold storedFor
  rw [hmap, hlist]
  rfl

theorem scalarFor_of_ne (hv : v ≠ .absent) :
    scalarFor f v config = (do return some (← reading (·.toStored f.kind v config))) := by
  cases v <;> first | rfl | exact absurd rfl hv

end

/-- **What a field is set to** is converted from a value, and converting only makes cells. -/
theorem storedFor_runs {f : FieldDescriptor} {value : Value} {config : Config} (hc : h.Closed)
    (hf : h.Knows pools f) (hv : value.Within h) :
    Runs pools ∅ h (storedFor f value config) fun h' stored => h'.Assigns f config stored := by
  unfold storedFor
  by_cases hmap : f.isMap = true
  · rw [if_pos hmap]
    split
    · exact .throw
    · refine .bind (mapOf_runs hc hf hv) (fun mid q _ _ hq => ?_) fun p hp => absurd hp id
      exact .bind_reading fun s hs => .pure (.map hmap hq.1 hq.2 hs)
  rw [if_neg hmap]
  have hmap : f.isMap = false := by simpa using hmap
  by_cases hlist : f.isList = true
  · rw [if_pos hlist]
    split
    · exact .throw
    · refine .bind (repeatedOf_runs hc hf hv) (fun mid q _ _ hq => ?_) fun p hp => absurd hp id
      exact .bind_reading fun s hs => .pure (.list hmap hlist hq.1 hq.2 hs)
  rw [if_neg hlist]
  have hlist : f.isList = false := by simpa using hlist
  unfold scalarFor
  split
  · split
    · exact .pure .unset
    · exact .throw
  · exact .bind_reading fun s hs => .pure (.single hmap hlist hv hs)

section

variable {h' : Heap} {r : Ref .message} {name : String} {v : Value}

/-- Only a field that is declared is assigned, and only in a message that is not frozen. -/
theorem field_of_setField (hrun : (setField r name v).run h = (.ok (), h')) :
    (h.cell r).frozen = false ∧ ∃ f, (h.cell r).content.descriptor.field? name = some f := by
  unfold setField at hrun
  obtain ⟨c, _, hcell, hrun⟩ := bind_ok.1 hrun
  cases hcell
  obtain ⟨_, _, hmutable, hrun⟩ := bind_ok.1 hrun
  obtain ⟨hthawed, rfl⟩ := checkMutable_ok.1 hmutable
  split at hrun
  · cases hrun
  · exact ⟨hthawed, _, by assumption⟩

/-- An assignment succeeds if the value can be converted. -/
theorem setField_ok {f : FieldDescriptor} (hf : (h.cell r).content.descriptor.field? name = some f)
    (hthawed : (h.cell r).frozen = false) :
    (setField r name v).run h = (.ok (), h') ↔ ∃ stored mid,
      (storedFor f v (h.cell r).config).run h = (.ok stored, mid) ∧
      h' = mid.put r { h.cell r with
        content := stored.elim ((h.cell r).content.clear f) ((h.cell r).content.set f)
        views := keptViews f (h.cell r).views } := by
  have hrun : (setField r name v).run h = Script.run (do
      let stored ← storedFor f v (h.cell r).config
      put r { h.cell r with
        content := stored.elim ((h.cell r).content.clear f) ((h.cell r).content.set f)
        views := keptViews f (h.cell r).views }) h := by
    unfold setField
    rw [run_bind, run_cell]
    simp only [hf, hthawed, checkMutable, Bool.false_eq_true, if_false, pure_bind]
    rw [run_bind, run_bind]
    rcases (storedFor f v (h.cell r).config).run h with ⟨e | stored, mid⟩
    · rfl
    · cases stored <;> rfl
  rw [hrun, bind_ok]
  refine exists_congr fun stored => exists_congr fun mid => and_congr_right fun _ => ?_
  rw [run_put, Prod.mk.injEq]
  exact ⟨fun he => he.2.symm, fun he => ⟨rfl, he.symm⟩⟩

end

/-- **Writing a field** alters the message only, and keeps no view that was not there, and none of the
field. -/
theorem setField_runs {r : Ref .message} {name : String} {value : Value} (hc : h.Closed)
    (hr : h.Has ⟨.message, r⟩) (hv : value.Within h) :
    Runs pools {⟨.message, r⟩} h (setField r name value) fun h' _ =>
      (h'.cell r).views ⊆ (h.cell r).views ∧ ∀ v, (name, v) ∉ (h'.cell r).views := by
  refine .bind_cell (.bind_checkMutable fun hfrozen => ?_)
  split
  · exact .throw
  · rename_i f hf
    have hknown : h.Knows pools f := .message hr (MessageDescriptor.field?_eq_some.1 hf).1
    refine .bind (storedFor_runs hc hknown hv) (fun mid stored _ hg hs => ?_) fun p hp => hp ▸ hr
    have hcell : mid.cell r = h.cell r := hg.cell hr
    have hchange : mid.Change pools (mid.put r { mid.cell r with
        content := stored.elim ((mid.cell r).content.clear f) ((mid.cell r).content.set f)
        views := keptViews f (mid.cell r).views }) := by
      have hf : (mid.cell r).content.descriptor.field? name = some f := by rw [hcell]; exact hf
      refine .assign (hg.has hr) ?_ hf ?_ <;> rw [hcell]
      · exact hfrozen
      · exact hs
    rw [hcell] at hchange
    have hviews (g : Heap) (c : MessageCell) (hc : c.views = keptViews f (h.cell r).views)
        (he : g = mid.put r c) :
        (g.cell r).views ⊆ (h.cell r).views ∧ ∀ v, (name, v) ∉ (g.cell r).views := by
      rw [he, Heap.cell_put_self _ _ _ (hg.has hr), hc]
      refine ⟨List.filter_subset_self _, fun v hv => ?_⟩
      have hkept := (List.mem_filter.1 hv).2
      rw [(MessageDescriptor.field?_eq_some.1 hf).2] at hkept
      simp at hkept
    cases stored with
    | none => exact (Runs.write hchange).mono subset_rfl fun g _ he => hviews g _ rfl he
    | some s => exact (Runs.write hchange).mono subset_rfl fun g _ he => hviews g _ rfl he

/-! ## Whole messages -/

/-- Writing a message that keeps no other views then plants nothing. -/
theorem Runs.planted {r : Ref .message} {α : Type} {s : Script α} {Q : Heap → α → Prop}
    (hs : Runs pools {⟨.message, r⟩} h s Q) (hc : h.Closed)
    (hQ : ∀ h' a, Q h' a → (h'.cell r).views ⊆ (h.cell r).views) :
    Runs pools {⟨.message, r⟩} h s (Planted h) :=
  ⟨hs.changes, fun hrun => ⟨(hs.ok hrun).1, (hs.ok hrun).1.plants_message hc
    fun _ hview => .inl (hQ _ _ (hs.ok hrun).2 hview)⟩, hs.error⟩

section

variable {r : Ref .message} (hr : h.Has ⟨.message, r⟩)

include hr

theorem replace_runs {m : Message} (hfrozen : (h.cell r).frozen = false) (hm : h.Replaces r m) :
    Runs pools {⟨.message, r⟩} h (replace r m) fun h' _ => (h'.cell r).views = [] :=
  .bind_cell ((Runs.write (.replace hr hfrozen hm)).mono subset_rfl fun _ _ he => by
    rw [he, Heap.cell_put_self _ _ _ hr])

theorem clearMessage_runs :
    Runs pools {⟨.message, r⟩} h (clearMessage r) fun h' _ => (h'.cell r).views = [] :=
  .bind_cell (.bind_checkMutable fun hfrozen => replace_runs hr hfrozen .cleared)

theorem fillDefaults_runs :
    Runs pools {⟨.message, r⟩} h (fillDefaults r) fun h' _ => (h'.cell r).views = [] :=
  .bind_cell (.bind_checkMutable fun hfrozen =>
    .bind_reading fun _ hm => replace_runs hr hfrozen (.filled hm))

theorem mergeMessage_runs {src : Ref .message} (hsrc : h.Has ⟨.message, src⟩) :
    Runs pools {⟨.message, r⟩} h (mergeMessage r src) fun h' _ => (h'.cell r).views = [] := by
  refine .bind_cell (.bind_checkMutable fun hfrozen => .bind_get ?_)
  split
  · exact .throw
  · rename_i hname
    refine .bind_reading fun n hn => .bind_reading fun m hm => ?_
    exact replace_runs hr hfrozen (.merged hsrc (by simpa using hname) hm hn)

end

/-- The postcondition that the result is a new message. -/
def MessageMade (h : Heap) : Heap → Value → Prop := fun h' v =>
  ∃ q : Ref .message, v = .message q ∧ ¬ h.Has ⟨.message, q⟩ ∧ h'.Has ⟨.message, q⟩

/-- A new message. -/
theorem newMessage_runs {m : Message} {config : Config} (hm : h.Source pools m) :
    Runs pools ∅ h (newMessage m config) (MessageMade h) :=
  Runs.add rfl (.message hm) (h.grows_alloc_message rfl)
    ⟨_, rfl, h.not_has_fresh .message, h.has_fresh_alloc .message _⟩

theorem cloneMessage_runs {r : Ref .message} (hr : h.Has ⟨.message, r⟩) :
    Runs pools ∅ h (cloneMessage r) (MessageMade h) :=
  .bind_reading fun _ hm => .bind_cell (newMessage_runs (.contents hr hm))

/-! ## Constructors -/

/-- What a heap is like while a constructor fills in a new message: nothing old has been altered. -/
structure Filling (pools : Set Pool) (h : Heap) (r : Ref .message) (h' : Heap) : Prop where
  changes : h.Changes pools h'
  grows : h.Grows h'
  has : h'.Has ⟨.message, r⟩

/-- Writing a field of a new message alters nothing old. -/
theorem keeps_setField {r : Ref .message} {name : String} {value : Value} (hc : h.Closed)
    (hr : ¬ h.Has ⟨.message, r⟩) (hv : value.Within h) :
    Keeps (Filling pools h r) (setField r name value) := by
  intro g hI
  have hruns : Runs pools _ g (setField r name value) _ :=
    setField_runs (hI.changes.closed hc) hI.has (hv.grow hI.grows)
  refine ⟨hI.changes.trans hruns.changes, ?_, hruns.changes.has hI.has⟩
  rcases hrun : (setField r name value).run g with ⟨e | a, g'⟩
  · exact hI.grows.trans (hruns.error hrun)
  · obtain ⟨halters, hviews⟩ := hruns.ok hrun
    refine .of_alters hI.grows halters (fun p hp => hp ▸ hr) fun q hq => ?_
    cases hq
    exact List.eq_nil_of_subset_nil (Heap.Alters.views hI.grows hr ▸ hviews.1)

/-- So does filling in what a keyword gives. -/
theorem keeps_given {t : MessageType} {r : Ref .message} {keyword : String × Value} (hc : h.Closed)
    (hr : ¬ h.Has ⟨.message, r⟩) (hv : keyword.2.Within h) : Keeps (Filling pools h r) (do
      if (t.descriptor.field? keyword.1).isNone then
        throw (.unexpectedKeyword t.descriptor.fullName keyword.1)
      setField r keyword.1 keyword.2
      return ForInStep.yield PUnit.unit) := by
  have hbody : Keeps (Filling pools h r) (do
      setField r keyword.1 keyword.2
      return ForInStep.yield PUnit.unit) :=
    .bind (keeps_setField hc hr hv) fun _ => .pure _
  dsimp only
  split
  · exact .bind (.throw _) fun _ => hbody
  · exact hbody

/-- **A constructor call** alters nothing old, even when it is given up half way. -/
theorem construct_runs {t : MessageType} {args : List Value} {keywords : Keywords} (hc : h.Closed)
    (ht : t.descriptor.Among pools) (hk : ∀ k ∈ keywords, k.2.Within h) :
    Runs pools ∅ h (construct t args keywords) (MessageMade h) := by
  unfold construct
  split
  · exact .throw
  · refine .bind_get ?_
    have hnew := h.not_has_fresh .message
    have hfilling : Filling pools h (h.fresh .message)
        (h.alloc .message { content := .empty t.descriptor, config := t.config }) :=
      ⟨.single (.message (.empty ht)), h.grows_alloc_message rfl, h.has_fresh_alloc .message _⟩
    have hkeeps : Keeps (Filling pools h (h.fresh .message)) (do
        for keyword in keywords do
          if (t.descriptor.field? keyword.1).isNone then
            throw (.unexpectedKeyword t.descriptor.fullName keyword.1)
          setField (h.fresh .message) keyword.1 keyword.2
        return Value.message (h.fresh .message)) :=
      .bind (.forIn (fun keyword hx _ => keeps_given hc hnew (hk keyword hx)) _) fun _ => .pure _
    have hend := hkeeps _ hfilling
    refine .of_keeps hend.changes hend.grows fun v h' hrun => ⟨_, ?_, hnew, ?_⟩
    · obtain ⟨new, mid, hmade, hloop⟩ := bind_ok.1 hrun
      obtain ⟨_, _, -, hreturn⟩ := bind_ok.1 hloop
      cases hmade
      cases hreturn
      rfl
    · obtain rfl : _ = h' := congrArg Prod.snd hrun
      exact hend.has

end Script

end Protoscript
