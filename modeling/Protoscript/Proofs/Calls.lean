import Protoscript.Proofs.Containers
import Protoscript.Proofs.Instances

/-!
# Methods and functions

Calls bind their arguments first, which fails or leaves the heap alone; what is bound was given.

* `BoundArguments.value_of_given` — bound arguments are given ones;
* `Script.callRepeated_runs`, `Script.callMap_runs` — the methods of views;
* `Script.callFunction_runs` — the functions of the `proto` library.
-/

namespace Protoscript

/-! ## Bound arguments -/

variable {P : Value → Prop}

theorem bindPositional_given {args : List Value} (ha : ∀ v ∈ args, P v) (count : Nat) :
    ∀ v, some v ∈ bindPositional count args → P v := by
  induction count generalizing args with
  | zero => nofun
  | succ count ih =>
    cases args with
    | nil =>
      intro v hv
      rcases List.mem_cons.1 hv with hv | hv
      · cases hv
      · exact ih ha v hv
    | cons x rest =>
      intro v hv
      rcases List.mem_cons.1 hv with hv | hv
      · cases hv
        exact ha x List.mem_cons_self
      · exact ih (fun w hw => ha w (List.mem_cons_of_mem _ hw)) v hv

theorem bindKeywords_given {callee : String} {params : List String} {values out : List (Option Value)}
    {keywords : Keywords} (hv : ∀ v, some v ∈ values → P v) (hk : ∀ k ∈ keywords, P k.2)
    (hout : bindKeywords callee params values keywords = .ok out) : ∀ v, some v ∈ out → P v := by
  induction keywords generalizing values with
  | nil =>
    cases hout
    exact hv
  | cons k rest ih =>
    obtain ⟨name, x⟩ := k
    rw [bindKeywords] at hout
    split at hout
    · cases hout
    · split at hout
      · cases hout
      · refine ih (fun v hmem => ?_) (fun k hmem => hk k (List.mem_cons_of_mem _ hmem)) hout
        rcases List.mem_or_eq_of_mem_set hmem with hold | hnew
        · exact hv v hold
        · cases hnew
          exact hk _ List.mem_cons_self

/-- **Bound arguments were given**, so they have what all given ones have. -/
theorem BoundArguments.value_of_given {callee : String} {args : List Value} {keywords : Keywords}
    {params : List String} {required : Nat} {b : BoundArguments}
    (hb : bindArguments callee args keywords params required = .ok b) (hargs : ∀ v ∈ args, P v)
    (hkeywords : ∀ k ∈ keywords, P k.2) (habsent : P .absent) (index : Nat) : P (b.value index) := by
  have hall : ∀ v, some v ∈ b.values → P v := by
    unfold bindArguments at hb
    split at hb
    · cases hb
    · split at hb
      · cases hb
      · rename_i values hvalues
        split at hb
        · cases hb
        · cases hb
          exact bindKeywords_given (bindPositional_given hargs _) hkeywords hvalues
  unfold BoundArguments.value BoundArguments.take BoundArguments.takeOption
  rcases hv : (b.values[index]?).join with _ | v
  · simpa [hv] using habsent
  · rw [Option.join_eq_some_iff] at hv
    simpa [hv] using hall v (List.mem_of_getElem? hv)

/-- The pool of a type is one of the pools that a value is from. -/
theorem Value.From.pool {pools : Set Pool} {v : Value} (hv : v.From pools) {p : Pool}
    (hp : v.pool? = some p) : p ∈ pools := by
  refine ((Value.all_iff fun items e => ?_).1 hv).1 p hp
  rw [e] at hp
  cases hp

/-- A type is one of the pools that it is from. -/
theorem Value.From.type {pools : Set Pool} {t : MessageType} (ht : (Value.messageType t).From pools) :
    t.descriptor.Among pools :=
  ((Value.all_iff fun _ e => by cases e).1 ht).2 t rfl

/-- A type that was found by name is one of the pool. -/
theorem Pool.among_of_message? {pools : Set Pool} {p : Pool} (hp : p ∈ pools) {name : String}
    {d : MessageDescriptor} (hd : p.message? name = some d) : d.Among pools := by
  obtain ⟨i, hi, rfl⟩ := Option.map_eq_some_iff.1 hd
  exact ⟨hp, (List.findIdx?_eq_some_iff_findIdx_eq.1 hi).1⟩

namespace Script

variable {pools : Set Pool} {h : Heap}

/-- A computation whose result is not used. -/
theorem Runs.ignore {W : Set Place} {h₀ : Heap} {α β : Type} {s : Script α} {b : β}
    (hs : Runs pools W h s (Planted h₀)) : Runs pools W h (do
      let _ ← s
      return b) (Planted h₀) :=
  .andThen hs fun mid _ hmid => ⟨b, run_pure b mid, hmid⟩

/-- What only makes cells plants nothing, and may be done where something may be altered. -/
theorem Runs.only {W : Set Place} {α : Type} {s : Script α} {Q : Heap → α → Prop}
    (hs : Runs pools ∅ h s Q) (hc : h.Closed) : Runs pools W h s (Planted h) :=
  ⟨hs.changes, fun hrun => ⟨(hs.ok hrun).1.mono (Set.empty_subset W),
    Heap.Grows.plants (hs.ok hrun).1 hc⟩, hs.error⟩

/-! ## Methods -/

theorem indexOf_runs {value : Value} {items : List Value} :
    Runs pools ∅ h (indexOf value items) Any := .reading fun _ _ => trivial

theorem intArgument_runs {callee param : String} {value : Value} {W : Set Place} :
    Runs pools W h (intArgument callee param value) fun h' _ => h' = h := by
  unfold intArgument
  split
  · exact .pure rfl
  · exact .bind_get .throw

/-- **A method of a list view** alters the view at most. -/
theorem callRepeated_runs {r : Ref .repeated} {receiver : String} {method : RepeatedMethod}
    {args : List Value} {keywords : Keywords} (hc : h.Closed) (hr : h.Has ⟨.repeated, r⟩)
    (hargs : ∀ v ∈ args, v.Within h) (hkeywords : ∀ k ∈ keywords, k.2.Within h) :
    Runs pools {⟨.repeated, r⟩} h (callRepeated r receiver method args keywords) (Planted h) := by
  have has : ∀ p ∈ ({⟨.repeated, r⟩} : Set Place), h.Has p := fun p hp => hp ▸ hr
  have given {callee : String} {params : List String} {required : Nat} {b : BoundArguments}
      (hb : bindArguments callee args keywords params required = .ok b) (i : Nat) :
      (b.value i).Within h :=
    BoundArguments.value_of_given hb hargs hkeywords (Value.within_of_place?_none (by simp) rfl) i
  unfold callRepeated
  cases method with
  | append => exact .bind_ofExcept fun _ hb => (append_runs hc hr (given hb 0)).ignore
  | clear => exact .bind_ofExcept fun _ _ => (clearRepeated_runs hc hr).ignore
  | extend => exact .bind_ofExcept fun _ hb => (extend_runs hc hr (given hb 0)).ignore
  | index =>
    refine .bind_ofExcept fun _ _ => .bind_cell ?_
    exact .bind indexOf_runs (fun mid _ _ hg _ => .pure (hg.plants hc)) has
  | insert =>
    refine .bind_ofExcept fun _ hb => .bind intArgument_runs (fun mid _ _ _ he => ?_) has
    rw [he]
    exact (insert_runs hc hr (given hb 1)).ignore
  | pop =>
    refine .bind_ofExcept fun _ _ => ?_
    split
    · refine .bind intArgument_runs (fun mid _ _ _ he => ?_) has
      rw [he]
      exact pop_runs hc hr
    · exact pop_runs hc hr
  | remove => exact .bind_ofExcept fun _ _ => (remove_runs hc hr).ignore

/-- **A method of a map view** alters the view at most. -/
theorem callMap_runs {r : Ref .map} {receiver : String} {method : MapMethod} {args : List Value}
    {keywords : Keywords} (hc : h.Closed) (hr : h.Has ⟨.map, r⟩) (hargs : ∀ v ∈ args, v.Within h)
    (hkeywords : ∀ k ∈ keywords, k.2.Within h) :
    Runs pools {⟨.map, r⟩} h (callMap r receiver method args keywords) (Planted h) := by
  have hentries := hc.mapEntries hr
  have given {callee : String} {params : List String} {required : Nat} {b : BoundArguments}
      (hb : bindArguments callee args keywords params required = .ok b) (i : Nat) :
      (b.value i).Within h :=
    BoundArguments.value_of_given hb hargs hkeywords (Value.within_of_place?_none (by simp) rfl) i
  unfold callMap
  cases method with
  | clear => exact .bind_ofExcept fun _ _ => (clearMap_runs hc hr).ignore
  | get =>
    refine .bind_ofExcept fun _ _ => .bind_get ?_
    split
    · exact .pure (.refl h)
    · exact .pure (.refl h)
  | items =>
    refine .bind_ofExcept fun _ _ => .bind_cell ?_
    refine (newList_runs fun v hv => ?_).only hc
    obtain ⟨e, he, rfl⟩ := List.mem_map.1 hv
    refine Value.within_tuple.2 fun v hv => ?_
    rcases List.mem_pair.1 hv with rfl | rfl
    · exact (hentries e he).1
    · exact (hentries e he).2
  | keys =>
    refine .bind_ofExcept fun _ _ => .bind_cell ?_
    refine (newList_runs fun v hv => ?_).only hc
    obtain ⟨e, he, rfl⟩ := List.mem_map.1 hv
    exact (hentries e he).1
  | values =>
    refine .bind_ofExcept fun _ _ => .bind_cell ?_
    refine (newList_runs fun v hv => ?_).only hc
    obtain ⟨e, he, rfl⟩ := List.mem_map.1 hv
    exact (hentries e he).2
  | pop => exact .bind_ofExcept fun _ _ => mapPop_runs hc hr
  | popitem => exact .bind_ofExcept fun _ _ => mapPopItem_runs hc hr
  | setdefault => exact .bind_ofExcept fun _ hb => mapSetDefault_runs hc hr (given hb 0) (given hb 1)
  | update =>
    dsimp only
    split
    · exact .throw
    · exact (mapUpdate_runs hc hr (fun v hv => hargs v (List.mem_of_mem_head? hv)) hkeywords).ignore

/-! ## Functions -/

/-- Whether a value can be given to an operation. -/
structure Given (pools : Set Pool) (h : Heap) (v : Value) : Prop where
  within : v.Within h
  typed : v.From pools

theorem Given.absent (pools : Set Pool) (h : Heap) : Given pools h .absent :=
  ⟨Value.within_of_place?_none (by simp) rfl, (Value.all_iff (by simp)).2 ⟨nofun, nofun⟩⟩

variable {callee param : String} {value : Value}

theorem messageArgument_runs (hv : Given pools h value) :
    Runs pools ∅ h (messageArgument callee param value) fun h' r =>
      h' = h ∧ h.Has ⟨.message, r⟩ ∧ value = .message r := by
  unfold messageArgument
  split
  · exact .pure ⟨rfl, hv.within.has rfl, rfl⟩
  · exact .bind_get .throw

theorem typeArgument_runs (hv : Given pools h value) :
    Runs pools ∅ h (typeArgument callee param value) fun h' t =>
      h' = h ∧ t.descriptor.Among pools := by
  unfold typeArgument
  split
  · exact .pure ⟨rfl, hv.typed.type⟩
  · exact .bind_get .throw

theorem textArgument_runs :
    Runs pools ∅ h (textArgument callee param value) fun h' _ => h' = h := by
  unfold textArgument
  split
  · exact .pure rfl
  · exact .bind_get .throw

theorem flagArgument_runs {flag : Option Value} :
    Runs pools ∅ h (flagArgument callee param flag) fun h' _ => h' = h := by
  unfold flagArgument
  split
  · exact .pure rfl
  · exact .pure rfl
  · exact .bind_get .throw

theorem jsonOf_runs {m : Message} : Runs pools ∅ h (jsonOf m) fun h' _ => h' = h := by
  unfold jsonOf
  split
  · exact .pure rfl
  · exact .throw

theorem messageOfJson_runs {t : MessageType} {j : Json} (ht : t.descriptor.Among pools) :
    Runs pools ∅ h (messageOfJson t j) (MessageMade h) := by
  unfold messageOfJson
  split
  · rename_i m hm
    exact newMessage_runs (.json ht hm)
  · exact .throw

theorem encodeJson_runs {r : Ref .message} {compact : Bool} :
    Runs pools ∅ h (encodeJson r compact) Any := by
  refine .bind_reading fun m _ => .bind jsonOf_runs (fun mid j _ _ _ => ?_) fun p hp => absurd hp id
  split
  · exact .pure trivial
  · exact .bind_cell (.pure trivial)

theorem decodeJson_runs {t : MessageType} {s : String} (ht : t.descriptor.Among pools) :
    Runs pools ∅ h (decodeJson t s) (MessageMade h) := by
  unfold decodeJson
  split
  · exact messageOfJson_runs ht
  · exact .throw

theorem encodeText_runs {r : Ref .message} {compact : Bool} :
    Runs pools ∅ h (encodeText r compact) Any :=
  .bind_reading fun _ _ => .pure trivial

theorem decodeText_runs {t : MessageType} {s : String} (ht : t.descriptor.Among pools) :
    Runs pools ∅ h (decodeText t s) (MessageMade h) := by
  unfold decodeText
  split
  · rename_i m hm
    exact newMessage_runs (.text ht hm)
  · exact .throw

theorem encodeYaml_runs {r : Ref .message} : Runs pools ∅ h (encodeYaml r) Any :=
  .bind_reading fun _ _ => .bind jsonOf_runs (fun _ _ _ _ _ => .pure trivial)
    fun _ hp => absurd hp id

theorem decodeYaml_runs {t : MessageType} {s : String} (ht : t.descriptor.Among pools) :
    Runs pools ∅ h (decodeYaml t s) (MessageMade h) := by
  unfold decodeYaml
  split
  · exact messageOfJson_runs ht
  · exact .throw

/-- A message that is unpacked was read from bytes, as a type of the pool. -/
theorem unpack_source {m n : Message} {pool : Pool} (hpool : pool ∈ pools)
    (hn : m.unpack pool = .ok n) : h.Source pools n := by
  unfold Message.unpack at hn
  split at hn
  · cases hn
  · split at hn
    · cases hn
    · rename_i d hd
      split at hn
      · rename_i payload hwire
        cases hn
        exact .wire (Pool.among_of_message? hpool hd) hwire
      · cases hn

/-- **A function of the library** alters its target at most. -/
theorem callFunction_runs {l : Library} {f : Function} {args : List Value} {keywords : Keywords}
    (hc : h.Closed) (hl : l.loader.pool ∈ pools) (hargs : ∀ v ∈ args, Given pools h v)
    (hkeywords : ∀ k ∈ keywords, Given pools h k.2) :
    Runs pools {p | ∃ v, f.target? args keywords = some v ∧ v.place? = some p} h
      (callFunction l f args keywords) (Planted h) := by
  let callee := "proto." ++ f.name
  have given {params : List String} {required : Nat} {b : BoundArguments}
      (hb : bindArguments callee args keywords params required = .ok b) (i : Nat) :
      Given pools h (b.value i) :=
    BoundArguments.value_of_given hb hargs hkeywords (.absent pools h) i
  -- the three ways in which the functions take their arguments
  have single {param : String} : Runs pools ∅ h (do
      let bound ← ofExcept (bindArguments callee args keywords [param] 1)
      messageArgument callee param (bound.value 0))
      fun h' r => h' = h ∧ h.Has ⟨.message, r⟩ ∧ ∃ bound,
        bindArguments callee args keywords [param] 1 = .ok bound ∧ bound.value 0 = .message r :=
    .bind_ofExcept fun b hb => (messageArgument_runs (given hb 0)).mono subset_rfl
      fun _ _ hr => ⟨hr.1, hr.2.1, b, hb, hr.2.2⟩
  have written : Runs pools ∅ h (do
      let bound ← ofExcept (bindArguments callee args keywords ["msg", "compact"] 1)
      let r ← messageArgument callee "msg" (bound.value 0)
      let compact ← flagArgument callee "compact" (bound.value? 1)
      return (r, compact)) fun h' _ => h' = h := by
    refine .bind_ofExcept fun b hb => .bind (messageArgument_runs (given hb 0)) ?_ fun p hp => absurd hp id
    rintro mid r - - ⟨rfl, -⟩
    exact .bind flagArgument_runs (fun _ _ _ _ he => .pure he) fun p hp => absurd hp id
  have read : Runs pools ∅ h (do
      let bound ← ofExcept (bindArguments callee args keywords ["type", "value"] 2)
      let t ← typeArgument callee "type" (bound.value 0)
      let s ← textArgument callee "value" (bound.value 1)
      return (t, s)) fun h' x => h' = h ∧ x.1.descriptor.Among pools := by
    refine .bind_ofExcept fun b hb => .bind (typeArgument_runs (given hb 0)) ?_ fun p hp => absurd hp id
    rintro mid t - - ⟨rfl, ht⟩
    exact .bind textArgument_runs (fun _ _ _ _ he => .pure ⟨he, ht⟩) fun p hp => absurd hp id
  have none : ∀ p ∈ (∅ : Set Place), h.Has p := fun p hp => absurd hp id
  have has : ∀ p ∈ {p | ∃ v, f.target? args keywords = some v ∧ v.place? = some p}, h.Has p := by
    rintro p ⟨v, hv, hp⟩
    obtain ⟨params, bound, -, hb, rfl⟩ := Function.target?_eq_some.1 hv
    exact (given hb 0).within.has hp
  -- a message that is altered is the target
  have altered {r : Ref .message} {s : Script Unit} {params : List String} {b : BoundArguments}
      (hparams : f.altering? = some params)
      (hb : bindArguments callee args keywords params params.length = .ok b)
      (hr : b.value 0 = .message r) (hs : Runs pools {⟨.message, r⟩} h s fun h' _ => (h'.cell r).views = []) :
      Runs pools {p | ∃ v, f.target? args keywords = some v ∧ v.place? = some p} h (do
        s
        return Value.message r) (Planted h) := by
    refine ((hs.planted hc fun h' _ he => ?_).ignore).mono (Set.singleton_subset_iff.2 ?_) fun _ _ hq => hq
    · rw [he]
      exact List.nil_subset _
    · exact ⟨_, Function.target?_eq_some.2 ⟨params, b, hparams, hb, rfl⟩, by rw [hr]; rfl⟩
  unfold callFunction
  cases f with
  | package =>
    exact Runs.only (Q := Any)
      (.bind_ofExcept fun _ _ => .bind textArgument_runs (fun _ _ _ _ _ => .bind_ofExcept fun _ _ => .pure trivial) none) hc
  | clear =>
    refine .bind single ?_ has
    rintro mid r - - ⟨rfl, hr, b, hb, hmsg⟩
    exact altered rfl hb hmsg (clearMessage_runs hr)
  | clone =>
    refine .bind single ?_ has
    rintro mid r - - ⟨rfl, hr, -⟩
    exact (cloneMessage_runs hr).only hc
  | merge =>
    refine .bind_ofExcept fun b hb => .bind (messageArgument_runs (given hb 0)) ?_ has
    rintro mid dst - - ⟨rfl, hdst, hmsg⟩
    refine .bind (messageArgument_runs (given hb 1)) ?_ has
    rintro mid src - - ⟨rfl, hsrc, -⟩
    exact altered rfl hb hmsg (mergeMessage_runs hdst hsrc)
  | setDefaults =>
    refine .bind single ?_ has
    rintro mid r - - ⟨rfl, hr, b, hb, hmsg⟩
    exact altered rfl hb hmsg (fillDefaults_runs hr)
  | encodeAny =>
    refine .bind single ?_ has
    rintro mid r - - ⟨rfl, hr, -⟩
    exact Runs.only (.bind_cell (.bind_reading fun m hm => .bind_ofExcept fun n hn =>
      newMessage_runs (.packed hr hm hn))) hc
  | decodeAny =>
    refine .bind_ofExcept fun b hb => .bind (messageArgument_runs (given hb 0)) ?_ has
    rintro mid r - - ⟨rfl, hr, -⟩
    exact Runs.only (.bind_cell (.bind_reading fun m hm => .bind_ofExcept fun n hn =>
      newMessage_runs (unpack_source hl hn))) hc
  | encodeJson =>
    refine .bind written ?_ has
    rintro mid ⟨r, compact⟩ - - rfl
    exact encodeJson_runs.only hc
  | decodeJson =>
    refine .bind read ?_ has
    rintro mid ⟨t, s⟩ - - ⟨rfl, ht⟩
    exact (decodeJson_runs ht).only hc
  | encodeText =>
    refine .bind written ?_ has
    rintro mid ⟨r, compact⟩ - - rfl
    exact encodeText_runs.only hc
  | decodeText =>
    refine .bind read ?_ has
    rintro mid ⟨t, s⟩ - - ⟨rfl, ht⟩
    exact (decodeText_runs ht).only hc
  | encodeYaml =>
    refine .bind single ?_ has
    rintro mid r - - ⟨rfl, hr, -⟩
    exact encodeYaml_runs.only hc
  | decodeYaml =>
    refine .bind read ?_ has
    rintro mid ⟨t, s⟩ - - ⟨rfl, ht⟩
    exact (decodeYaml_runs ht).only hc

end Script

end Protoscript
