import Protoscript.Proofs.Computation
import Mathlib.Data.List.Induction
import Mathlib.Data.List.Nodup

/-!
# What arguments are bound to

The arguments of a call give each parameter at most one value: the positional one in its place, or else
that of the keyword with its name. Binding finds just these values, or the first thing that is wrong.

* `argumentAt` — the value that the arguments give to a parameter;
* `ArgumentsFit`, `KeywordsFit` — whether arguments can be bound, and whether keywords go with the
  positional ones;
* `BindingFault`, `KeywordFault` — what is wrong with a call, and with a keyword;
* `Binds` — whether a list holds what the arguments give, which each keyword keeps (`Binds.keyword`) and
  so a whole call does (`bindKeywords_append`);
* `bindArguments_exact` — arguments are bound exactly.
-/

namespace Protoscript

variable {callee : String} {args : List Value} {keywords before : Keywords} {params : List String}
  {values : List (Option Value)} {required i : Nat} {name : String} {v : Value}

/-- The value that arguments give to the parameter at a position. -/
def argumentAt (args : List Value) (keywords : Keywords) (params : List String) (i : Nat) : Option Value :=
  (args[i]?).or ((params[i]?).bind fun name => lookupName name keywords)

/-- Whether every keyword names a parameter that gets no value from elsewhere. -/
structure KeywordsFit (args : List Value) (params : List String) (keywords : Keywords) : Prop where
  /-- keywords are parameters -/
  known : ∀ k ∈ keywords, k.1 ∈ params
  /-- no keyword is there twice -/
  once : (keywords.map (·.1)).Nodup
  /-- none names a parameter that has a positional value -/
  free : ∀ k ∈ keywords, k.1 ∉ params.take args.length

/-- What is wrong with a keyword that comes after others. -/
inductive KeywordFault (callee : String) (args : List Value) (params : List String) (before : Keywords)
    (name : String) : Error → Prop
  /-- it names no parameter -/
  | unexpected (hname : name ∉ params) :
    KeywordFault callee args params before name (.unexpectedKeyword callee name)
  /-- it names a parameter that has a value, from its place or from an earlier keyword -/
  | duplicate (hname : name ∈ params)
    (htaken : name ∈ params.take args.length ∨ name ∈ before.map (·.1)) :
    KeywordFault callee args params before name (.duplicateArgument callee name)

/-- Whether arguments can be bound to parameters, the first few of which are required. -/
structure ArgumentsFit (args : List Value) (keywords : Keywords) (params : List String) (required : Nat) :
    Prop where
  /-- there are not more positional arguments than parameters -/
  count : args.length ≤ params.length
  /-- the keywords go with them -/
  fit : KeywordsFit args params keywords
  /-- each required parameter gets a value -/
  given : ∀ i < required, i < params.length → (argumentAt args keywords params i).isSome

/-- What is wrong with a call: the first of the things that can be. -/
inductive BindingFault (callee : String) (args : List Value) (keywords : Keywords) (params : List String)
    (required : Nat) : Error → Prop
  /-- there are more positional arguments than parameters -/
  | tooMany (hcount : params.length < args.length) :
    BindingFault callee args keywords params required
      (.tooManyArguments callee params.length args.length)
  /-- the leftmost keyword with a fault -/
  | keyword {before after : Keywords} {name : String} {v : Value} {e : Error}
    (hcount : args.length ≤ params.length) (hsplit : keywords = before ++ (name, v) :: after)
    (hfit : KeywordsFit args params before) (hfault : KeywordFault callee args params before name e) :
    BindingFault callee args keywords params required e
  /-- the lowest required parameter without a value -/
  | missing {i : Nat} {name : String} (hcount : args.length ≤ params.length)
    (hfit : KeywordsFit args params keywords) (hi : i < required) (hname : params[i]? = some name)
    (hnone : argumentAt args keywords params i = none)
    (hlower : ∀ j < i, (argumentAt args keywords params j).isSome) :
    BindingFault callee args keywords params required (.missingArgument callee name)

/-- The bound arguments after the values of some parameters were taken, one after the other. -/
def BoundArguments.afterTaking (b : BoundArguments) (taken : List Nat) : BoundArguments :=
  taken.foldl (fun b i => (b.takeOption i).2) b

/-! ## Values of parameters -/

theorem lookupName_append {α : Type} {xs ys : List (String × α)} :
    lookupName name (xs ++ ys) = (lookupName name xs).or (lookupName name ys) := by
  rw [lookupName, List.find?_append, Option.map_or]
  rfl

theorem lookupName_isSome {α : Type} {entries : List (String × α)} :
    (lookupName name entries).isSome ↔ name ∈ entries.map (·.1) := by
  simp [lookupName]

/-- A parameter has a positional value just if its name is among the first ones. -/
theorem getElem?_isSome_iff (hparams : params.Nodup) (hname : params[i]? = some name) :
    (args[i]?).isSome ↔ name ∈ params.take args.length := by
  obtain ⟨hi, rfl⟩ := List.getElem?_eq_some_iff.1 hname
  rw [isSome_getElem?, List.mem_take_iff_getElem]
  constructor
  · intro hlt
    exact ⟨i, by omega, rfl⟩
  · rintro ⟨j, hj, hsame⟩
    have hij := (List.Nodup.getElem_inj_iff hparams).1 hsame
    omega

/-- A parameter has a value just if it has a positional one or is named by a keyword. -/
theorem argumentAt_isSome (hparams : params.Nodup) (hname : params[i]? = some name) :
    (argumentAt args keywords params i).isSome ↔
      name ∈ params.take args.length ∨ name ∈ keywords.map (·.1) := by
  rw [argumentAt, hname, Option.bind_some, Option.isSome_or, Bool.or_eq_true,
    getElem?_isSome_iff hparams hname, lookupName_isSome]

/-- One more keyword, for a parameter without a value, gives a value to it and to no other. -/
theorem argumentAt_append (hparams : params.Nodup) (hname : params[i]? = some name)
    (hnone : argumentAt args before params i = none) (j : Nat) :
    argumentAt args (before ++ [(name, v)]) params j =
      if j = i then some v else argumentAt args before params j := by
  split
  · rename_i hij
    subst hij
    rw [argumentAt, hname, Option.bind_some, Option.or_eq_none_iff] at hnone
    rw [argumentAt, hname, Option.bind_some, hnone.1, Option.none_or, lookupName_append, hnone.2,
      Option.none_or]
    simp [lookupName]
  · rename_i hij
    unfold argumentAt
    cases hother : params[j]? with
    | none => rfl
    | some other =>
      have hne : name ≠ other := by
        rintro rfl
        obtain ⟨hi, hi'⟩ := List.getElem?_eq_some_iff.1 hname
        obtain ⟨hj, hj'⟩ := List.getElem?_eq_some_iff.1 hother
        exact hij ((List.Nodup.getElem_inj_iff hparams).1 (hj'.trans hi'.symm))
      have hskip : lookupName other [(name, v)] = none := by simp [lookupName, hne]
      rw [Option.bind_some, Option.bind_some, lookupName_append, hskip, Option.or_none]

/-! ## Faults of keywords -/

theorem KeywordsFit.append (hfit : KeywordsFit args params before) (hmem : name ∈ params)
    (hplace : name ∉ params.take args.length) (honce : name ∉ before.map (·.1)) :
    KeywordsFit args params (before ++ [(name, v)]) := by
  refine ⟨List.forall_mem_append.2 ⟨hfit.known, List.forall_mem_singleton.2 hmem⟩, ?_,
    List.forall_mem_append.2 ⟨hfit.free, List.forall_mem_singleton.2 hplace⟩⟩
  rw [List.map_append, List.nodup_append]
  refine ⟨hfit.once, List.nodup_singleton _, fun a ha b hb => ?_⟩
  rw [List.map_singleton, List.mem_singleton] at hb
  rintro rfl
  have hname : a = name := hb
  exact honce (hname ▸ ha)

/-- Keywords that fit have no fault. -/
theorem KeywordsFit.not_fault {after : Keywords} {e : Error}
    (hfit : KeywordsFit args params (before ++ (name, v) :: after)) :
    ¬ KeywordFault callee args params before name e := by
  have hmem : (name, v) ∈ before ++ (name, v) :: after := List.mem_append_right _ List.mem_cons_self
  rintro (hname | ⟨-, hplace | hearlier⟩)
  · exact hname (hfit.known _ hmem)
  · exact hfit.free _ hmem hplace
  · have honce := hfit.once
    rw [List.map_append, List.nodup_append] at honce
    exact honce.2.2 name hearlier name List.mem_cons_self rfl

theorem KeywordFault.unique {e e' : Error} (h : KeywordFault callee args params before name e)
    (h' : KeywordFault callee args params before name e') : e = e' := by
  cases h with
  | unexpected hname =>
    cases h' with
    | unexpected => rfl
    | duplicate hmem => exact absurd hmem hname
  | duplicate hmem =>
    cases h' with
    | unexpected hname => exact absurd hmem hname
    | duplicate => rfl

/-- **A call has at most one fault** that comes first. -/
theorem BindingFault.unique {e e' : Error} (h : BindingFault callee args keywords params required e)
    (h' : BindingFault callee args keywords params required e') : e = e' := by
  cases h with
  | tooMany hcount =>
    cases h' with
    | tooMany => rfl
    | keyword hcount' => omega
    | missing hcount' => omega
  | keyword hcount hsplit hfit hfault =>
    cases h' with
    | tooMany hcount' => omega
    | keyword _ hsplit' hfit' hfault' =>
      rw [hsplit] at hsplit'
      -- of two different places, the one further left would stand among keywords that fit
      rcases List.append_eq_append_iff.1 hsplit' with ⟨more, rfl, hmore⟩ | ⟨more, rfl, hmore⟩
      · cases more with
        | nil =>
          cases hmore
          rw [List.append_nil] at hfault'
          exact hfault.unique hfault'
        | cons k more =>
          cases hmore
          exact absurd hfault hfit'.not_fault
      · cases more with
        | nil =>
          cases hmore
          rw [List.append_nil] at hfault
          exact hfault.unique hfault'
        | cons k more =>
          cases hmore
          exact absurd hfault' hfit.not_fault
    | missing _ hfit' => exact absurd hfault (hsplit ▸ hfit').not_fault
  | @missing i _ hcount hfit hi hname hnone hlower =>
    cases h' with
    | tooMany hcount' => omega
    | keyword _ hsplit' _ hfault' => exact absurd hfault' (hsplit' ▸ hfit).not_fault
    | @missing j _ _ _ _ hname' hnone' hlower' =>
      rcases Nat.lt_trichotomy i j with hij | rfl | hij
      · exact absurd (hlower' _ hij) (by simp [hnone])
      · cases hname.symm.trans hname'
        rfl
      · exact absurd (hlower _ hij) (by simp [hnone'])

/-- A call with a fault does not fit. -/
theorem BindingFault.not_fit {e : Error} (h : BindingFault callee args keywords params required e) :
    ¬ ArgumentsFit args keywords params required := by
  rintro ⟨hcount, hfit, hgiven⟩
  cases h with
  | tooMany hcount' => omega
  | keyword _ hsplit _ hfault => exact absurd hfault (hsplit ▸ hfit).not_fault
  | missing _ _ hi hname hnone =>
    obtain ⟨hlt, -⟩ := List.getElem?_eq_some_iff.1 hname
    exact absurd (hgiven _ hi hlt) (by simp [hnone])

/-! ## Keywords, one after the other -/

/-- Whether a list holds, for each parameter, the value that arguments give to it. -/
structure Binds (args : List Value) (keywords : Keywords) (params : List String)
    (values : List (Option Value)) : Prop where
  /-- there is a place for each parameter -/
  length_eq : values.length = params.length
  /-- each place holds the value of its parameter -/
  get : ∀ i < params.length, values[i]? = some (argumentAt args keywords params i)

theorem Binds.join_eq (hb : Binds args keywords params values) (hi : i < params.length) :
    (values[i]?).join = argumentAt args keywords params i := by
  rw [hb.get i hi]
  rfl

theorem bindPositional_eq (count : Nat) (args : List Value) :
    bindPositional count args = (List.range count).map fun i => args[i]? := by
  induction count generalizing args with
  | zero => rfl
  | succ count ih =>
    rw [List.range_succ_eq_map, List.map_cons, List.map_map]
    cases args with
    | nil => exact congrArg (none :: ·) (ih [])
    | cons a rest => exact congrArg (some a :: ·) (ih rest)

/-- Without keywords, the parameters have the positional arguments. -/
theorem binds_bindPositional (args : List Value) (params : List String) :
    Binds args [] params (bindPositional params.length args) := by
  have hvalue (i : Nat) : argumentAt args [] params i = args[i]? := by
    have hnone (name : String) : lookupName name ([] : Keywords) = none := rfl
    simp [argumentAt, hnone]
  constructor
  · rw [bindPositional_eq, List.length_map, List.length_range]
  · intro i hi
    rw [bindPositional_eq, List.getElem?_map, List.getElem?_range hi, Option.map_some, hvalue]

/-- **One keyword.** It has a fault, or its value goes to the parameter of its name. -/
theorem Binds.keyword (hb : Binds args before params values) (hparams : params.Nodup) (name : String)
    (v : Value) :
    (∃ e, KeywordFault callee args params before name e ∧
      bindKeywords callee params values [(name, v)] = .error e) ∨
    (name ∈ params ∧ name ∉ params.take args.length ∧ name ∉ before.map (·.1) ∧
      ∃ values', bindKeywords callee params values [(name, v)] = .ok values' ∧
        Binds args (before ++ [(name, v)]) params values') := by
  rw [bindKeywords]
  split
  · rename_i hnone
    have hname : name ∉ params := fun hmem => by
      simpa using List.findIdx?_eq_none_iff.1 hnone name hmem
    exact .inl ⟨_, .unexpected hname, rfl⟩
  · rename_i i hi
    obtain ⟨hlt, hfound, -⟩ := List.findIdx?_eq_some_iff_getElem.1 hi
    have hname : params[i]? = some name := by
      rw [List.getElem?_eq_getElem hlt, eq_of_beq hfound]
    have hmem := List.mem_of_getElem? hname
    rw [hb.join_eq hlt]
    split
    · rename_i htaken
      exact .inl ⟨_, .duplicate hmem ((argumentAt_isSome hparams hname).1 htaken), rfl⟩
    · rename_i hfree
      have hnot := (argumentAt_isSome hparams hname).not.1 hfree
      refine .inr ⟨hmem, fun h => hnot (.inl h), fun h => hnot (.inr h), _, rfl, ?_, fun j hj => ?_⟩
      · rw [List.length_set, hb.length_eq]
      · have hnone : argumentAt args before params i = none := by simpa using hfree
        rw [List.getElem?_set, argumentAt_append hparams hname hnone, hb.length_eq]
        by_cases hij : i = j
        · subst hij
          rw [if_pos rfl, if_pos hlt, if_pos rfl]
        · rw [if_neg hij, if_neg (Ne.symm hij)]
          exact hb.get j hj

theorem bindKeywords_append (xs ys : Keywords) :
    bindKeywords callee params values (xs ++ ys) =
      (bindKeywords callee params values xs).bind fun out => bindKeywords callee params out ys := by
  induction xs generalizing values with
  | nil => rfl
  | cons k rest ih =>
    rw [List.cons_append, bindKeywords, bindKeywords]
    split
    · rfl
    · split
      · rfl
      · exact ih

/-- **All keywords.** All fit and the list holds their values, or the leftmost one with a fault gives the
error. -/
theorem bindKeywords_cases (hparams : params.Nodup) (callee : String) (args : List Value)
    (keywords : Keywords) :
    (KeywordsFit args params keywords ∧ ∃ values, Binds args keywords params values ∧
      bindKeywords callee params (bindPositional params.length args) keywords = .ok values) ∨
    (∃ before name v after e, keywords = before ++ (name, v) :: after ∧ KeywordsFit args params before ∧
      KeywordFault callee args params before name e ∧
      bindKeywords callee params (bindPositional params.length args) keywords = .error e) := by
  -- from the first keyword on: the first fault is reported
  induction keywords using List.reverseRecOn with
  | nil =>
    exact .inl ⟨⟨nofun, .nil, nofun⟩, _, binds_bindPositional args params, rfl⟩
  | append_singleton xs k ih =>
    obtain ⟨name, v⟩ := k
    rw [bindKeywords_append]
    rcases ih with ⟨hfit, values, hb, hrun⟩ | ⟨before, other, w, after, e, rfl, hfit, hfault, hrun⟩
    · rw [hrun]
      rcases hb.keyword hparams name v with ⟨e, hfault, hrun⟩ | ⟨hmem, hplace, honce, values', hrun, hb'⟩
      · exact .inr ⟨xs, name, v, [], e, rfl, hfit, hfault, hrun⟩
      · exact .inl ⟨hfit.append hmem hplace honce, values', hb', hrun⟩
    · rw [hrun]
      exact .inr ⟨before, other, w, after ++ [(name, v)], e, by simp, hfit, hfault, rfl⟩

/-! ## Calls -/

/-- The lowest required parameter without a value. -/
theorem firstMissing?_eq_some (hlength : values.length = params.length) :
    firstMissing? required params values = some name ↔
      ∃ i < required, params[i]? = some name ∧ (values[i]?).join = none ∧
        ∀ j < i, ((values[j]?).join).isSome := by
  -- on the parameters; the first of them decides if its argument is missing
  induction params generalizing required values with
  | nil => cases required <;> simp [firstMissing?]
  | cons p params ih =>
    obtain ⟨o, values, rfl⟩ := List.exists_cons_of_length_eq_add_one hlength
    cases required with
    | zero => simp [firstMissing?]
    | succ required =>
      cases o with
      | none =>
        rw [firstMissing?]
        constructor
        · rintro ⟨⟩
          exact ⟨0, by omega, rfl, rfl, nofun⟩
        · rintro ⟨i, -, hname, -, hlower⟩
          cases i with
          | zero => exact hname
          | succ i => exact absurd (hlower 0 (by omega)) (by simp)
      | some v =>
        rw [firstMissing?, ih (by simpa using hlength)]
        constructor
        · rintro ⟨i, hi, hname, hnone, hlower⟩
          refine ⟨i + 1, by omega, hname, hnone, fun j hj => ?_⟩
          cases j with
          | zero => rfl
          | succ j => exact hlower j (by omega)
        · rintro ⟨i, hi, hname, hnone, hlower⟩
          cases i with
          | zero => cases hnone
          | succ i => exact ⟨i, by omega, hname, hnone, fun j hj => hlower (j + 1) (by omega)⟩

/-- A call binds what its arguments give, or fails with its fault. -/
theorem bindArguments_cases (hparams : params.Nodup) (callee : String) (args : List Value)
    (keywords : Keywords) (required : Nat) :
    (ArgumentsFit args keywords params required ∧ ∃ b,
      bindArguments callee args keywords params required = .ok b ∧
        Binds args keywords params b.values) ∨
    (∃ e, BindingFault callee args keywords params required e ∧
      bindArguments callee args keywords params required = .error e) := by
  unfold bindArguments
  split
  · rename_i hcount
    exact .inr ⟨_, .tooMany hcount, rfl⟩
  · rename_i hcount
    have hcount : args.length ≤ params.length := Nat.le_of_not_lt hcount
    rcases bindKeywords_cases hparams callee args keywords with
      ⟨hfit, values, hb, hrun⟩ | ⟨before, name, v, after, e, hsplit, hfit, hfault, hrun⟩
    · simp only [hrun]
      cases hmissing : firstMissing? required params values with
      | some name =>
        obtain ⟨i, hi, hname, hnone, hlower⟩ := (firstMissing?_eq_some hb.length_eq).1 hmissing
        obtain ⟨hlt, -⟩ := List.getElem?_eq_some_iff.1 hname
        refine .inr ⟨_, .missing hcount hfit hi hname (hb.join_eq hlt ▸ hnone) fun j hj => ?_, rfl⟩
        exact hb.join_eq (Nat.lt_trans hj hlt) ▸ hlower j hj
      | none =>
        refine .inl ⟨⟨hcount, hfit, fun i => ?_⟩, ⟨values⟩, rfl, hb⟩
        -- were an argument missing, the first such one would have been found
        induction i using Nat.strongRecOn with
        | ind i ih =>
          intro hi hlt
          by_contra hnone
          have hname : params[i]? = some params[i] := List.getElem?_eq_getElem hlt
          have hfound := (firstMissing?_eq_some hb.length_eq).2 ⟨i, hi, hname, ?_, fun j hj => ?_⟩
          · rw [hmissing] at hfound
            cases hfound
          · rw [hb.join_eq hlt]
            simpa using hnone
          · rw [hb.join_eq (Nat.lt_trans hj hlt)]
            exact ih j hj (Nat.lt_trans hj hi) (Nat.lt_trans hj hlt)
    · simp only [hrun]
      exact .inr ⟨e, .keyword hcount hsplit hfit hfault, rfl⟩

namespace BoundArguments

variable {b : BoundArguments}

/-- Taking the value of a parameter leaves nothing there, and the other values as they are. -/
theorem takeOption_takeOption (b : BoundArguments) (i j : Nat) :
    ((b.takeOption i).2.takeOption j).1 = if j = i then none else (b.takeOption j).1 := by
  simp only [takeOption, List.getElem?_set]
  by_cases hij : i = j
  · subst hij
    rw [if_pos rfl, if_pos rfl]
    split <;> rfl
  · rw [if_neg hij, if_neg (Ne.symm hij)]

/-- **Each value is there once**, whatever was taken before it. -/
theorem takeOption_afterTaking (b : BoundArguments) (taken : List Nat) (i : Nat) :
    ((b.afterTaking taken).takeOption i).1 = if i ∈ taken then none else (b.takeOption i).1 := by
  induction taken generalizing b with
  | nil => rw [if_neg List.not_mem_nil]; rfl
  | cons j rest ih =>
    rw [afterTaking, List.foldl_cons, ← afterTaking, ih, takeOption_takeOption]
    by_cases hrest : i ∈ rest
    · rw [if_pos hrest, if_pos (List.mem_cons_of_mem _ hrest)]
    · by_cases hij : i = j
      · rw [if_neg hrest, if_pos hij, if_pos (hij ▸ List.mem_cons_self)]
      · rw [if_neg hrest, if_neg hij, if_neg (by simp [hij, hrest])]

end BoundArguments

theorem Binds.takeOption_eq {b : BoundArguments} (hb : Binds args keywords params b.values)
    (hcount : args.length ≤ params.length) (i : Nat) :
    (b.takeOption i).1 = argumentAt args keywords params i := by
  by_cases hi : i < params.length
  · exact hb.join_eq hi
  · have hbeyond : b.values[i]? = none := List.getElem?_eq_none (by rw [hb.length_eq]; omega)
    have hargs : args[i]? = none := List.getElem?_eq_none (by omega)
    have hparam : params[i]? = none := List.getElem?_eq_none (by omega)
    rw [BoundArguments.takeOption, argumentAt, hbeyond, hargs, hparam]
    rfl

/-- **Arguments are bound exactly.** A call is bound just if there are not more positional arguments than
parameters, the keywords fit, and each required parameter gets a value. Then there is a place for each
parameter, and whichever were taken before, the value that the arguments give to a parameter is taken out
once, and nothing after that. Otherwise the error is that of the fault that comes first. -/
theorem bindArguments_exact (callee : String) (args : List Value) (keywords : Keywords)
    (hparams : params.Nodup) (required : Nat) :
    ((∃ b, bindArguments callee args keywords params required = .ok b) ↔
      ArgumentsFit args keywords params required) ∧
    (∀ b, bindArguments callee args keywords params required = .ok b →
      b.values.length = params.length ∧ ∀ taken i,
        ((b.afterTaking taken).takeOption i).1 =
          (if i ∈ taken then none else argumentAt args keywords params i) ∧
        ((b.afterTaking taken).take i).1 =
          (if i ∈ taken then .absent else (argumentAt args keywords params i).getD .absent)) ∧
    ∀ e, bindArguments callee args keywords params required = .error e ↔
      BindingFault callee args keywords params required e := by
  -- the arguments fit, or there is exactly one fault to report
  rcases bindArguments_cases hparams callee args keywords required with
    ⟨hfit, b, hrun, hb⟩ | ⟨e, hfault, hrun⟩
  · refine ⟨⟨fun _ => hfit, fun _ => ⟨b, hrun⟩⟩, fun b' hrun' => ?_, fun e => ?_⟩
    · cases hrun.symm.trans hrun'
      refine ⟨hb.length_eq, fun taken i => ?_⟩
      have htaken : ((b.afterTaking taken).takeOption i).1 =
          if i ∈ taken then none else argumentAt args keywords params i := by
        rw [b.takeOption_afterTaking, hb.takeOption_eq hfit.count]
      refine ⟨htaken, ?_⟩
      rw [BoundArguments.take, htaken]
      split <;> rfl
    · rw [hrun]
      exact ⟨nofun, fun hfault => absurd hfit hfault.not_fit⟩
  · refine ⟨⟨?_, fun hfit => absurd hfit hfault.not_fit⟩, fun b hrun' => ?_, fun e' => ?_⟩
    · rintro ⟨b, hrun'⟩
      cases hrun.symm.trans hrun'
    · cases hrun.symm.trans hrun'
    · rw [hrun]
      constructor
      · rintro ⟨⟩
        exact hfault
      · intro hfault'
        rw [hfault.unique hfault']

namespace Sample

/-- A flag is given by keyword. It is there after the message was taken, and only once. -/
theorem compact_bound : ["msg", "compact"].Nodup ∧
    ∃ b, bindArguments "proto.encode_json" [.int 1] [("compact", .bool false)] ["msg", "compact"] 1 = .ok b ∧
      ((b.afterTaking [0]).takeOption 1).1 = some (.bool false) ∧
      ((b.afterTaking [1, 0]).takeOption 1).1 = none := by
  have hparams : ["msg", "compact"].Nodup := by decide
  obtain ⟨hbound, htaken, -⟩ :=
    bindArguments_exact "proto.encode_json" [.int 1] [("compact", .bool false)] hparams 1
  obtain ⟨b, hb⟩ := hbound.2 ⟨by decide, ⟨by simp, by simp, by simp⟩, fun i hi _ => by
    obtain rfl : i = 0 := by omega
    rfl⟩
  obtain ⟨-, hvalues⟩ := htaken b hb
  exact ⟨hparams, b, hb, (hvalues [0] 1).1, (hvalues [1, 0] 1).1⟩

/-- The second of three keywords names a parameter that has a value, so the third one is not looked at. -/
example : bindArguments "f" [.int 1] [("b", .absent), ("a", .absent), ("z", .absent)] ["a", "b"] 2 =
    .error (.duplicateArgument "f" "a") := rfl

end Sample

end Protoscript
