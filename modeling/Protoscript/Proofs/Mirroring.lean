import Protoscript.Proofs.Unseen

/-!
# Computations that do not see the legacy switch

A computation mirrors another one if it does on the heap with the switch blurred what the other one does
on the heap as it is. The switch is looked at where the absent value meets a field, and nowhere else.

* `FieldDescriptor.IgnoresSwitch` — whether the switch makes no difference for a field;
* `Script.Mirrors` — whether one computation mirrors another; `Script.Mirrors.bind`, `Script.Mirrors.mapM`
  — it is enough that the steps do;
* `bindArguments_blurred` — the arguments of a call;
* `Script.callRepeated_mirrors`, `Script.callMap_mirrors` — the methods of views.
-/

namespace Protoscript

/-- Whether the legacy switch makes no difference for a field, if it is as it is in some settings. -/
def FieldDescriptor.IgnoresSwitch (f : FieldDescriptor) (config : Config) : Prop :=
  f.isLegacy config.blurred = f.isLegacy config

/-! ## Arguments -/

/-- Bound arguments with the switch blurred. -/
def BoundArguments.blurred (b : BoundArguments) : BoundArguments :=
  ⟨b.values.map (Option.map Value.blurred)⟩

namespace BoundArguments

@[simp] theorem value?_blurred (b : BoundArguments) (i : Nat) :
    b.blurred.value? i = (b.value? i).map Value.blurred := by
  simp only [value?, takeOption, blurred, List.getElem?_map]
  rcases b.values[i]? with _ | _ | v <;> rfl

@[simp] theorem value_blurred (b : BoundArguments) (i : Nat) :
    b.blurred.value i = (b.value i).blurred := by
  have hvalue (b : BoundArguments) : b.value i = (b.value? i).getD .absent := rfl
  rw [hvalue, hvalue, value?_blurred]
  cases b.value? i <;> rfl

end BoundArguments

theorem bindPositional_blurred (count : Nat) (args : List Value) :
    bindPositional count (args.map Value.blurred) =
      (bindPositional count args).map (Option.map Value.blurred) := by
  induction count generalizing args with
  | zero => rfl
  | succ count ih =>
    cases args with
    | nil => exact congrArg (none :: ·) (ih [])
    | cons v rest => exact congrArg (some v.blurred :: ·) (ih rest)

theorem bindKeywords_blurred (callee : String) (params : List String) (values : List (Option Value))
    (keywords : Keywords) : bindKeywords callee params (values.map (Option.map Value.blurred))
      (keywords.map Value.blurredNamed) =
        Except.blurred (List.map (Option.map Value.blurred))
          (bindKeywords callee params values keywords) := by
  induction keywords generalizing values with
  | nil => rfl
  | cons keyword rest ih =>
    obtain ⟨name, v⟩ := keyword
    simp only [List.map_cons, Value.blurredNamed, bindKeywords]
    cases params.findIdx? (· == name) with
    | none => rfl
    | some i =>
      have hjoin : ((values.map (Option.map Value.blurred))[i]?).join.isSome = (values[i]?).join.isSome := by
        rw [List.getElem?_map]
        rcases values[i]? with _ | _ | _ <;> rfl
      dsimp only
      rw [hjoin]
      split
      · rfl
      · rw [← ih, List.map_set]
        rfl

theorem firstMissing?_blurred (required : Nat) (params : List String) (values : List (Option Value)) :
    firstMissing? required params (values.map (Option.map Value.blurred)) =
      firstMissing? required params values := by
  induction required generalizing params values with
  | zero => rfl
  | succ required ih =>
    rcases params with _ | ⟨name, params⟩
    · rfl
    · rcases values with _ | ⟨_ | v, values⟩
      · rfl
      · rfl
      · exact ih params values

theorem bindArguments_blurred (callee : String) (args : List Value) (keywords : Keywords)
    (params : List String) (required : Nat) :
    bindArguments callee (args.map Value.blurred) (keywords.map Value.blurredNamed) params required =
      Except.blurred BoundArguments.blurred (bindArguments callee args keywords params required) := by
  unfold bindArguments
  rw [List.length_map, bindPositional_blurred, bindKeywords_blurred]
  split
  · rfl
  · cases bindKeywords callee params (bindPositional params.length args) keywords with
    | error e => rfl
    | ok values =>
      dsimp only [Except.blurred_ok]
      rw [firstMissing?_blurred]
      cases firstMissing? required params values <;> rfl

namespace Script

/-- Whether a computation does on a heap with the switch blurred what another one does on the heap as it
is; `k` says what becomes of the result. -/
def Mirrors {α β : Type} (k : α → β) (h : Heap) (s : Script α) (t : Script β) : Prop :=
  t.run h.blurred = (Except.blurred k (s.run h).1, (s.run h).2.blurred)

namespace Mirrors

variable {α β γ δ : Type} {k : α → β} {l : γ → δ} {h : Heap} {s : Script α} {t : Script β}
  {f : α → Script γ} {g : β → Script δ}

theorem pure {a : α} {b : β} (hab : k a = b) : Mirrors k h (pure a) (pure b) := by
  subst hab
  rfl

theorem throw {e e' : Error} (he : e.blurred = e') : Mirrors k h (throw e) (throw e') := by
  subst he
  rfl

theorem congr {s' : Script α} {t' : Script β} (hst : Mirrors k h s t) (hs : s'.run h = s.run h)
    (ht : t'.run h.blurred = t.run h.blurred) : Mirrors k h s' t' := by
  unfold Mirrors
  rw [ht, hs]
  exact hst

theorem bind (hs : Mirrors k h s t)
    (hf : ∀ a mid, s.run h = (.ok a, mid) → Mirrors l mid (f a) (g (k a))) :
    Mirrors l h (s >>= f) (t >>= g) := by
  unfold Mirrors at hs ⊢
  rw [run_bind, run_bind, hs]
  rcases hrun : s.run h with ⟨e | a, mid⟩
  · rfl
  · exact hf a mid hrun

theorem reading {r : Heap → Except Error α} {r' : Heap → Except Error β}
    (hr : r' h.blurred = Except.blurred k (r h)) : Mirrors k h (reading r) (reading r') := by
  unfold Mirrors
  rw [run_reading, run_reading, hr]

theorem ofExcept {r : Except Error α} {r' : Except Error β} (hr : r' = Except.blurred k r) :
    Mirrors k h (ofExcept r) (ofExcept r') := by
  unfold Mirrors
  rw [run_ofExcept, run_ofExcept, hr]

theorem modifyGet {r : Heap → α × Heap} {r' : Heap → β × Heap}
    (hr : r' h.blurred = Heap.blurredStep k (r h)) : Mirrors k h (modifyGet r) (modifyGet r') := by
  unfold Mirrors
  rw [run_modifyGet, run_modifyGet, hr]
  rfl

theorem put {s : Shelf} {r : Ref s} {c c' : Cell s} (hc : Cell.blurred c = c') :
    Mirrors id h (put r c) (put r c') := by
  subst hc
  unfold Mirrors
  rw [run_put, run_put, Heap.put_blurred]
  rfl

theorem bind_cell {s : Shelf} {r : Ref s} {f : Cell s → Script γ} {g : Cell s → Script δ}
    (hf : Mirrors l h (f (h.cell r)) (g (Cell.blurred (h.cell r)))) :
    Mirrors l h (cell r >>= f) (cell r >>= g) := by
  refine bind (k := Cell.blurred) ?_ fun c mid hrun => ?_
  · unfold Mirrors
    rw [run_cell, run_cell, Heap.cell_blurred]
    rfl
  · cases hrun
    exact hf

theorem bind_get {f : Heap → Script γ} {g : Heap → Script δ} (hf : Mirrors l h (f h) (g h.blurred)) :
    Mirrors l h (get >>= f) (get >>= g) := by
  refine bind (k := Heap.blurred) rfl fun h' mid hrun => ?_
  cases hrun
  exact hf

theorem bind_checkMutable {frozen : Bool} {verb target : String} {f : Unit → Script γ}
    {g : Unit → Script δ} (hf : frozen = false → Mirrors l h (f ()) (g ())) :
    Mirrors l h (checkMutable frozen verb target >>= f) (checkMutable frozen verb target >>= g) := by
  refine bind (k := id) ?_ fun u mid hrun => ?_
  · cases frozen
    · exact pure rfl
    · exact throw rfl
  · obtain ⟨hno, rfl⟩ := checkMutable_ok.1 hrun
    exact hf hno

theorem bind_ofExcept {r : Except Error α} {r' : Except Error β} (hr : r' = Except.blurred k r)
    (hf : ∀ a, r = .ok a → Mirrors l h (f a) (g (k a))) :
    Mirrors l h (Script.ofExcept r >>= f) (Script.ofExcept r' >>= g) := by
  refine bind (ofExcept hr) fun a mid hrun => ?_
  obtain ⟨ha, rfl⟩ := Prod.mk.inj hrun
  exact hf a ha

theorem bind_reading {r : Heap → Except Error α} {r' : Heap → Except Error β}
    (hr : r' h.blurred = Except.blurred k (r h))
    (hf : ∀ a, r h = .ok a → Mirrors l h (f a) (g (k a))) :
    Mirrors l h (Script.reading r >>= f) (Script.reading r' >>= g) := by
  refine bind (reading hr) fun a mid hrun => ?_
  obtain ⟨ha, rfl⟩ := Prod.mk.inj hrun
  exact hf a ha

theorem mapM {xs : List α} {f : α → Script γ} {g : β → Script δ}
    (hf : ∀ x ∈ xs, ∀ h, Mirrors l h (f x) (g (k x))) :
    Mirrors (List.map l) h (xs.mapM f) ((xs.map k).mapM g) := by
  induction xs generalizing h with
  | nil => exact pure rfl
  | cons x rest ih =>
    rw [List.map_cons, List.mapM_cons, List.mapM_cons]
    refine bind (hf x List.mem_cons_self h) fun y mid _ => ?_
    exact bind (ih fun z hz => hf z (List.mem_cons_of_mem _ hz)) fun ys _ _ => pure rfl

/-- A computation whose result is not used. -/
theorem ignore {c : γ} {d : δ} (hs : Mirrors k h s t) (hcd : l c = d := by rfl) :
    Mirrors l h (do let _ ← s; return c) (do let _ ← t; return d) :=
  bind hs fun _ _ _ => pure hcd

/-- Calls bind their arguments first. -/
theorem bind_bound {callee : String} {args : List Value} {keywords : Keywords} {params : List String}
    {required : Nat} {f : BoundArguments → Script γ} {g : BoundArguments → Script δ}
    (hf : ∀ b, Mirrors l h (f b) (g b.blurred)) :
    Mirrors l h (Script.ofExcept (bindArguments callee args keywords params required) >>= f)
      (Script.ofExcept (bindArguments callee (args.map Value.blurred) (keywords.map Value.blurredNamed) params
        required) >>= g) :=
  bind_ofExcept (bindArguments_blurred callee args keywords params required) fun b _ => hf b

end Mirrors

variable {h : Heap} {kind : Kind} {config : Config} {v : Value}

/-! ## Checks -/

theorem normalize_mirrors (kind : Kind) (v : Value) (config : Config) (h : Heap) :
    Mirrors Value.blurred h (normalize kind v config) (normalize kind v.blurred config.blurred) := by
  have check (w : Value) : Mirrors Value.blurred h (do
      let stored ← reading (·.toStored kind w config)
      modifyGet (·.adopt kind config stored)) (do
      let stored ← reading (·.toStored kind w.blurred config.blurred)
      modifyGet (·.adopt kind config.blurred stored)) :=
    .bind (.reading (k := id) (h.toStored_blurred kind w config)) fun s mid _ =>
      .modifyGet (mid.adopt_blurred kind config s)
  cases v with
  | absent => exact .throw rfl
  | tuple items => exact check (.tuple items)
  | _ => exact check _

theorem normalizeAll_mirrors (kind : Kind) (values : List Value) (config : Config) (h : Heap) :
    Mirrors (List.map Value.blurred) h (normalizeAll kind values config)
      (normalizeAll kind (values.map Value.blurred) config.blurred) :=
  .mapM fun v _ h => normalize_mirrors kind v config h

theorem indexOf_mirrors (v : Value) (items : List Value) (h : Heap) :
    Mirrors id h (indexOf v items) (indexOf v.blurred (items.map Value.blurred)) :=
  .reading (h.indexFrom_blurred v 0 items)

theorem resolveIndex_blurred (index : Int) (length : Nat) :
    resolveIndex index length = Except.blurred id (resolveIndex index length) := by
  simp only [resolveIndex]
  split <;> split <;> rfl

theorem resolveIndex_mirrors (index : Int) (length : Nat) (h : Heap) :
    Mirrors id h (ofExcept (resolveIndex index length)) (ofExcept (resolveIndex index length)) :=
  .ofExcept (resolveIndex_blurred index length)

/-! ## Views of repeated fields -/

section

variable (r : Ref .repeated) (v : Value) (h : Heap)

theorem append_mirrors : Mirrors id h (append r v) (append r v.blurred) :=
  .bind_cell (.bind_checkMutable fun _ => .bind (normalize_mirrors _ v _ h) fun w mid _ =>
    .put (by simp [Cell.blurred]))

theorem extend_mirrors : Mirrors id h (extend r v) (extend r v.blurred) :=
  .bind_cell (.bind_checkMutable fun _ => .bind (.reading (h.iterate_blurred v)) fun items mid _ =>
    .bind (normalizeAll_mirrors _ items _ mid) fun checked _ _ => .put (by simp [Cell.blurred]))

theorem setAt_mirrors (index : Int) : Mirrors id h (setAt r index v) (setAt r index v.blurred) := by
  refine .bind_cell (.bind_checkMutable fun _ => .bind (normalize_mirrors _ v _ h) fun w mid _ => ?_)
  have hlen : (Cell.blurred (h.cell r)).items.length = (h.cell r).items.length := List.length_map _
  rw [hlen]
  exact .bind (resolveIndex_mirrors _ _ mid) fun i _ _ => .put (by simp [Cell.blurred, List.map_set])

theorem insert_mirrors (index : Int) : Mirrors id h (insert r index v) (insert r index v.blurred) :=
  .bind_cell (.bind_checkMutable fun _ => .bind (normalize_mirrors _ v _ h) fun w mid _ =>
    .put (by simp [Cell.blurred, List.map_take, List.map_drop]))

theorem remove_mirrors : Mirrors id h (remove r v) (remove r v.blurred) :=
  .bind_cell (.bind_checkMutable fun _ => .bind (indexOf_mirrors v _ h) fun i _ _ =>
    .put (by simp [Cell.blurred, List.eraseIdx_map]))

theorem pop_mirrors (index : Option Int) : Mirrors Value.blurred h (pop r index) (pop r index) := by
  refine .bind_cell (.bind_checkMutable fun _ => ?_)
  have hlen : (Cell.blurred (h.cell r)).items.length = (h.cell r).items.length := List.length_map _
  rw [hlen]
  refine .bind (resolveIndex_mirrors _ _ h) fun i mid _ => ?_
  refine .bind (.put (by simp [Cell.blurred, List.eraseIdx_map])) fun _ _ _ => .pure ?_
  exact (List.getD_map ..).symm

theorem clearRepeated_mirrors : Mirrors id h (clearRepeated r) (clearRepeated r) :=
  .bind_cell (.bind_checkMutable fun _ => .put rfl)

theorem newRepeated_mirrors (c : RepeatedCell) :
    Mirrors id h (newRepeated c) (newRepeated (Cell.blurred (s := .repeated) c)) := by
  unfold Mirrors
  exact Prod.ext (congrArg Except.ok (h.fresh_blurred .repeated)) (h.alloc_blurred (s := .repeated) c).symm

theorem concat_mirrors : Mirrors Value.blurred h (concat r v) (concat r v.blurred) := by
  refine .bind_cell (.bind (.reading (h.iterate_blurred v)) fun items mid _ =>
    .bind (normalizeAll_mirrors _ items _ mid) fun checked mid' _ => ?_)
  refine .bind (k := id) (.congr (newRepeated_mirrors mid'
    { field := (h.cell r).field, items := (h.cell r).items ++ checked, config := (h.cell r).config })
      rfl ?_) fun q _ _ => .pure rfl
  simp [Cell.blurred]

theorem repeatedOf_mirrors (field : FieldDescriptor) (config : Config) :
    Mirrors id h (repeatedOf field v config) (repeatedOf field v.blurred config.blurred) := by
  have sequence : Mirrors id h (do
      let incoming ← reading (·.iterate v)
      let checked ← normalizeAll field.kind incoming config
      newRepeated { field := field, items := checked, config := config }) (do
      let incoming ← reading (·.iterate v.blurred)
      let checked ← normalizeAll field.kind incoming config.blurred
      newRepeated { field := field, items := checked, config := config.blurred }) :=
    .bind (.reading (h.iterate_blurred v)) fun items mid _ =>
      .bind (normalizeAll_mirrors _ items config mid) fun checked mid' _ =>
        newRepeated_mirrors mid' { field := field, items := checked, config := config }
  cases v with
  | list | tuple | «repeated» => exact sequence
  | _ => exact .throw rfl

theorem intArgument_mirrors (callee param : String) :
    Mirrors id h (intArgument callee param v) (intArgument callee param v.blurred) := by
  have refused := h.typeName_blurred v
  cases v with
  | int n => exact .pure rfl
  | _ => exact .bind_get (.throw (by rw [refused]; rfl))

theorem callRepeated_mirrors (receiver : String) (method : RepeatedMethod) (args : List Value)
    (keywords : Keywords) : Mirrors Value.blurred h (callRepeated r receiver method args keywords)
      (callRepeated r receiver method (args.map Value.blurred) (keywords.map Value.blurredNamed)) := by
  unfold callRepeated
  cases method with
  | append =>
    refine .bind_bound fun b => ?_
    rw [b.value_blurred]
    exact (append_mirrors r _ h).ignore
  | extend =>
    refine .bind_bound fun b => ?_
    rw [b.value_blurred]
    exact (extend_mirrors r _ h).ignore
  | clear => exact .bind_bound fun _ => (clearRepeated_mirrors r h).ignore
  | index =>
    refine .bind_bound fun b => .bind_cell ?_
    rw [b.value_blurred]
    exact .bind (indexOf_mirrors _ _ h) fun _ _ _ => .pure rfl
  | insert =>
    refine .bind_bound fun b => ?_
    rw [b.value_blurred, b.value_blurred]
    exact .bind (intArgument_mirrors _ h _ _) fun i mid _ => (insert_mirrors r _ mid i).ignore
  | pop =>
    refine .bind_bound fun b => ?_
    rw [b.value?_blurred]
    cases b.value? 0 with
    | none => exact pop_mirrors r h none
    | some v => exact .bind (intArgument_mirrors v h _ _) fun i mid _ => pop_mirrors r mid (some i)
  | remove =>
    refine .bind_bound fun b => ?_
    rw [b.value_blurred]
    exact (remove_mirrors r _ h).ignore

end

/-! ## Views of map fields -/

/-- The update that a pair makes, if the switch makes no difference for the field. -/
theorem checkPair_mirrors {c : MapCell} (hc : c.field.IgnoresSwitch c.config) (key v : Value) (h : Heap) :
    Mirrors Value.blurredUpdate h (checkPair c key v)
      (checkPair (Cell.blurred (s := .map) c) key.blurred v.blurred) := by
  refine .bind (normalize_mirrors _ key _ h) fun w mid _ => ?_
  have value (v : Value) : Mirrors Value.blurredUpdate mid
      (do return (w, some (← normalize c.field.valueKind v c.config)))
      (do return (w.blurred, some (← normalize c.field.valueKind v.blurred c.config.blurred))) :=
    .bind (normalize_mirrors _ v _ mid) fun x _ _ => .pure rfl
  cases v with
  | absent =>
    have hsame : (Cell.blurred (s := .map) c).field.isLegacy (Cell.blurred (s := .map) c).config =
        c.field.isLegacy c.config := hc
    dsimp only [Value.blurred]
    rw [hsame]
    split
    · exact .pure rfl
    · exact .throw rfl
  | tuple items => exact value (.tuple items)
  | _ => exact value _

theorem checkPairs_mirrors {c : MapCell} (hc : c.field.IgnoresSwitch c.config)
    (pairs : List (Value × Value)) (h : Heap) :
    Mirrors (List.map Value.blurredUpdate) h (checkPairs c pairs)
      (checkPairs (Cell.blurred (s := .map) c) (pairs.map Value.blurredEntry)) :=
  .mapM fun e _ h => checkPair_mirrors hc e.1 e.2 h

theorem newMap_mirrors (h : Heap) (c : MapCell) :
    Mirrors id h (newMap c) (newMap (Cell.blurred (s := .map) c)) :=
  Prod.ext (congrArg Except.ok (h.fresh_blurred .map)) (h.alloc_blurred (s := .map) c).symm

/-- A view made from a mapping. -/
theorem mapOf_mirrors {field : FieldDescriptor} {config : Config} (hf : field.IgnoresSwitch config)
    (v : Value) (h : Heap) :
    Mirrors id h (mapOf field v config) (mapOf field v.blurred config.blurred) := by
  unfold mapOf
  dsimp only
  split
  · exact .throw rfl
  · refine .bind_get ?_
    rw [Heap.mappingEntries?_blurred]
    cases h.mappingEntries? v with
    | none => exact .throw rfl
    | some entries =>
      refine .bind (checkPairs_mirrors (c := { field := field, config := config }) hf entries h)
        fun us mid _ => .bind_get ?_
      rw [show (mid.blurred.commit [] (us.map Value.blurredUpdate)) =
        (mid.commit [] us).map Value.blurredEntry from mid.commit_blurred [] us]
      exact newMap_mirrors mid { field := field, entries := mid.commit [] us, config := config }

section

variable (r : Ref .map) (h : Heap)

theorem commit_mirrors (updates : List (Value × Option Value)) :
    Mirrors id h (commit r updates) (commit r (updates.map Value.blurredUpdate)) := by
  refine .bind_get (.put ?_)
  rw [Heap.cell_blurred]
  simp only [Cell.blurred]
  rw [Heap.commit_blurred]

theorem clearMap_mirrors : Mirrors id h (clearMap r) (clearMap r) :=
  .bind_cell (.bind_checkMutable fun _ => .put rfl)

theorem mapIndex_mirrors (key : Value) :
    Mirrors Value.blurred h (mapIndex r key) (mapIndex r key.blurred) := by
  refine .bind_get ?_
  have hfind := h.lookup?_blurred key (h.cell r).entries
  rw [show (h.blurred.cell r).entries = (h.cell r).entries.map Value.blurredEntry by
    rw [Heap.cell_blurred]; rfl, hfind]
  cases h.lookup? key (h.cell r).entries with
  | none => exact .throw rfl
  | some v => exact .pure rfl

theorem mapPop_mirrors (key : Value) (fallback : Option Value) :
    Mirrors Value.blurred h (mapPop r key fallback)
      (mapPop r key.blurred (fallback.map Value.blurred)) := by
  refine .bind_cell (.bind_checkMutable fun _ => .bind_get ?_)
  rw [show (Cell.blurred (h.cell r)).entries = (h.cell r).entries.map Value.blurredEntry from rfl,
    Heap.findKey?_blurred]
  cases h.findKey? key (h.cell r).entries with
  | some i =>
    refine .bind (k := id) (.put (by simp [Cell.blurred, List.eraseIdx_map])) fun _ _ _ => .pure ?_
    rw [List.getElem?_map]
    cases (h.cell r).entries[i]? <;> rfl
  | none =>
    cases fallback with
    | some v => exact .pure rfl
    | none => exact .throw rfl

theorem mapPopItem_mirrors : Mirrors Value.blurred h (mapPopItem r) (mapPopItem r) := by
  refine .bind_cell (.bind_checkMutable fun _ => ?_)
  rw [show (Cell.blurred (h.cell r)).entries = (h.cell r).entries.map Value.blurredEntry from rfl]
  cases (h.cell r).entries with
  | nil => exact .throw rfl
  | cons e rest =>
    refine .bind (k := id) (.put rfl) fun _ _ _ => .pure ?_
    simp

section

variable (hr : (h.cell r).field.IgnoresSwitch (h.cell r).config)

include hr

theorem mapSet_mirrors (key v : Value) :
    Mirrors id h (mapSet r key v) (mapSet r key.blurred v.blurred) :=
  .bind_cell (.bind_checkMutable fun _ => .bind (checkPair_mirrors hr key v h) fun u mid _ =>
    commit_mirrors r mid [u])

theorem mapSetDefault_mirrors (key fallback : Value) :
    Mirrors Value.blurred h (mapSetDefault r key fallback)
      (mapSetDefault r key.blurred fallback.blurred) := by
  refine .bind_cell (.bind_checkMutable fun _ => .bind_get ?_)
  rw [show (Cell.blurred (h.cell r)).entries = (h.cell r).entries.map Value.blurredEntry from rfl,
    Heap.lookup?_blurred]
  cases h.lookup? key (h.cell r).entries with
  | some v => exact .pure rfl
  | none =>
    refine .bind (checkPair_mirrors hr key fallback h) fun u mid _ => ?_
    obtain ⟨k, _ | v⟩ := u
    · exact .pure rfl
    · exact .bind (commit_mirrors r mid [(k, some v)]) fun _ _ _ => .pure rfl

theorem mapUpdate_mirrors (source : Option Value) (keywords : Keywords) :
    Mirrors id h (mapUpdate r source keywords)
      (mapUpdate r (source.map Value.blurred) (keywords.map Value.blurredNamed)) := by
  have named : (keywords.map Value.blurredNamed).map (fun k => (Value.text k.1, k.2)) =
      (keywords.map fun k => (Value.text k.1, k.2)).map Value.blurredEntry := by
    simp [Value.blurredNamed, Value.blurredEntry, Function.comp_def, Value.blurred]
  have checked (pairs : List (Value × Value)) : Mirrors id h (do
      let updates ← checkPairs (h.cell r) (pairs ++ keywords.map fun k => (.text k.1, k.2))
      commit r updates) (do
      let updates ← checkPairs (Cell.blurred (h.cell r)) (pairs.map Value.blurredEntry ++
        (keywords.map Value.blurredNamed).map fun k => (.text k.1, k.2))
      commit r updates) := by
    rw [named, ← List.map_append]
    exact .bind (checkPairs_mirrors hr _ h) fun us mid _ => commit_mirrors r mid us
  refine .bind_cell (.bind_checkMutable fun _ => ?_)
  cases source with
  | none => exact checked []
  | some source => exact .bind_reading (h.pairsOf_blurred source) fun pairs _ => checked pairs

end

theorem newList_mirrors (items : List Value) (h : Heap) :
    Mirrors Value.blurred h (newList items) (newList (items.map Value.blurred)) :=
  .modifyGet (r := (·.newList items)) (h.newList_blurred items)

theorem callMap_mirrors (hr : (h.cell r).field.IgnoresSwitch (h.cell r).config) (receiver : String)
    (method : MapMethod) (args : List Value) (keywords : Keywords) :
    Mirrors Value.blurred h (callMap r receiver method args keywords)
      (callMap r receiver method (args.map Value.blurred) (keywords.map Value.blurredNamed)) := by
  have hentries : (Cell.blurred (h.cell r)).entries = (h.cell r).entries.map Value.blurredEntry := rfl
  have parts (k : Value × Value → Value) (hk : ∀ e, k (Value.blurredEntry e) = (k e).blurred) :
      Mirrors Value.blurred h (do newList ((← cell r).entries.map k))
        (do newList ((← cell r).entries.map k)) := by
    refine .bind_cell ?_
    have hmap : (Cell.blurred (h.cell r)).entries.map k =
        ((h.cell r).entries.map k).map Value.blurred := by
      rw [hentries, List.map_map, List.map_map]
      exact List.map_congr_left fun e _ => hk e
    rw [hmap]
    exact newList_mirrors _ h
  unfold callMap
  cases method with
  | clear => exact .bind_bound fun _ => (clearMap_mirrors r h).ignore
  | get =>
    refine .bind_bound fun b => .bind_get ?_
    rw [b.value_blurred, b.value_blurred, Heap.cell_blurred, hentries, Heap.lookup?_blurred]
    cases h.lookup? (b.value 0) (h.cell r).entries <;> exact .pure rfl
  | items => exact .bind_bound fun _ => parts _ fun e => by simp [Value.blurredEntry]
  | keys => exact .bind_bound fun _ => parts _ fun _ => rfl
  | values => exact .bind_bound fun _ => parts _ fun _ => rfl
  | pop =>
    refine .bind_bound fun b => ?_
    rw [b.value_blurred, b.value?_blurred]
    exact mapPop_mirrors r h _ _
  | popitem => exact .bind_bound fun _ => mapPopItem_mirrors r h
  | setdefault =>
    refine .bind_bound fun b => ?_
    rw [b.value_blurred, b.value_blurred]
    exact mapSetDefault_mirrors r h hr _ _
  | update =>
    dsimp only
    rw [List.length_map, List.head?_map]
    split
    · exact .throw rfl
    · exact (mapUpdate_mirrors r h hr _ keywords).ignore

end

end Script

end Protoscript
