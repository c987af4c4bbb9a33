import Protoscript.Proofs.Acceptance
import Protoscript.Proofs.Rebuilding
import Protoscript.Proofs.Standing
import Protoscript.Proofs.Transfer

/-!
# Edits of views of list fields

A view of a list field that is not frozen behaves as a plain list: what goes into it is checked and
brought into the form that the field's type reads back as, and then each operation is that of a list. An
operation that fails changes nothing.

* `ListEdit`, `ListEdit.perform` — operations, and what they do to a plain list;
* `ListEdit.normalized`, `ListEdit.expected` — the same with what goes into a view;
* `ListEdit.meets` — one operation on a view; `ListEdit.Ran.cell` — any number of them;
* `ListEdit.Fails` — when an operation fails, and how;
* `Heap.Reachable.repeated_list` — views are lists.
-/

namespace Protoscript

variable {pools : Set Pool} {h g : Heap} {r : Ref .repeated}

/-! ## Operations on lists -/

/-- An operation on a list. What goes into the list is one value, or several values, which `σ` gives. -/
inductive ListEdit (σ : Type) where
  /-- adds an element at the end -/
  | append (x : Value)
  /-- adds several elements at the end -/
  | extend (source : σ)
  /-- adds an element in front of an index -/
  | insert (index : Int) (x : Value)
  /-- replaces the element at an index -/
  | set (index : Int) (x : Value)
  /-- takes out the element at an index, or the last one -/
  | pop (index : Option Int)
  /-- takes out the first element that equals a value -/
  | remove (x : Value)
  /-- takes out all elements -/
  | clear
  /-- makes another list, with more elements at the end -/
  | plus (other : σ)

/-- A list without the first element that equals a value. -/
def Heap.removeFirst (h : Heap) (x : Value) : List Value → Except Error (List Value)
  | [] => .error (.elementNotFound x)
  | item :: rest =>
    match h.equals item x with
    | .ok true => .ok rest
    | .ok false => (h.removeFirst x rest).map (item :: ·)
    | .error e => .error e

namespace ListEdit

/-- What an operation gives. -/
inductive Yield where
  | nothing
  | element (x : Value)
  | list (xs : List Value)

/-- The position that an index names in a list. A negative one counts from the end. -/
def place (index : Int) (items : List Value) : Except Error Nat :=
  if -items.length ≤ index ∧ index < items.length then .ok (index % items.length).toNat
  else .error (.indexOutOfRange (reportedIndex index) items.length)

/-- How many elements of a list are in front of an index. One outside of the list is moved into it. -/
def cut (index : Int) (items : List Value) : Nat :=
  (max 0 (min (if index < 0 then index + items.length else index) items.length)).toNat

/-- **What operations do to a plain list**, and what they give. -/
def perform (h : Heap) (items : List Value) :
    ListEdit (List Value) → Except Error (List Value × Yield)
  | append x => .ok (items ++ [x], .nothing)
  | extend xs => .ok (items ++ xs, .nothing)
  | insert index x => .ok (items.insertIdx (cut index items) x, .nothing)
  | set index x => (place index items).map fun i => (items.set i x, .nothing)
  | pop index => (place (index.getD (-1)) items).map fun i =>
      (items.eraseIdx i, .element (items.getD i .absent))
  | remove x => (h.removeFirst x items).map (·, .nothing)
  | clear => .ok ([], .nothing)
  | plus xs => .ok (items, .list (items ++ xs))

end ListEdit

/-! ## Operations on views -/

namespace Heap

/-- The form in which a view holds a value. -/
def form (h : Heap) (kind : Kind) (config : Config) (v : Value) : Except Error Value :=
  (h.check kind config v).map fun s => (h.adopt kind config s).1

/-- The forms in which a view holds several values. -/
def forms (h : Heap) (kind : Kind) (config : Config) (vs : List Value) : Except Error (List Value) :=
  (vs.mapM (h.check kind config)).map fun ss => (h.makeAll (·.adopt kind config) ss).1

/-- The elements of what is added to a view by an operator, a list or a view of a list field. -/
def summands (h : Heap) (c : RepeatedCell) (other : Value) : Except Error (List Value) :=
  match other with
  | .list _ | .repeated _ => h.iterate other
  | other => .error (.unsupportedOperation "+" (c.typeName ++ " and " ++ h.typeName other))

end Heap

namespace ListEdit

/-- What a script does to a view. -/
def script (r : Ref .repeated) : ListEdit Value → Script Value
  | append x => do
    Script.append r x
    return .absent
  | extend source => do
    Script.extend r source
    return .absent
  | insert index x => do
    Script.insert r index x
    return .absent
  | set index x => do
    Script.setAt r index x
    return .absent
  | pop index => Script.pop r index
  | remove x => do
    Script.remove r x
    return .absent
  | clear => do
    Script.clearRepeated r
    return .absent
  | plus other => Script.add (.repeated r) other

/-- The values that an operation is given. -/
def values : ListEdit Value → List Value
  | append x | insert _ x | set _ x | remove x => [x]
  | extend source => [source]
  | plus other => [other]
  | pop _ | clear => []

/-- Whether the values that an operation is given are of a heap and of its pools. -/
def Within (pools : Set Pool) (h : Heap) (edit : ListEdit Value) : Prop :=
  ∀ v ∈ edit.values, v.Within h ∧ v.From pools

/-- The values that go into the list, if the operation succeeds. -/
def incoming (h : Heap) (c : RepeatedCell) : ListEdit Value → Except Error (List Value)
  | append x | insert _ x | set _ x => .ok [x]
  | extend source => h.iterate source
  | plus other => h.summands c other
  | pop _ | remove _ | clear => .ok []

/-- An operation with the form that a view holds it in for each value that goes into the list. -/
def normalized (h : Heap) (c : RepeatedCell) :
    ListEdit Value → Except Error (ListEdit (List Value))
  | append x => (h.form c.kind c.config x).map append
  | extend source => do return extend (← h.forms c.kind c.config (← h.iterate source))
  | insert index x => (h.form c.kind c.config x).map (insert index)
  | set index x => (h.form c.kind c.config x).map (set index)
  | pop index => .ok (pop index)
  | remove x => .ok (remove x)
  | clear => .ok clear
  | plus other => do return plus (← h.forms c.kind c.config (← h.summands c other))

/-- What an operation should do to the items of a view, and give. -/
def expected (h : Heap) (c : RepeatedCell) (edit : ListEdit Value) :
    Except Error (List Value × Yield) := do
  perform h c.items (← edit.normalized h c)

/-- A view after an operation that did what it should. -/
def after (h : Heap) (c : RepeatedCell) (edit : ListEdit Value) : RepeatedCell :=
  match edit.expected h c with
  | .ok (items, _) => { c with items := items }
  | .error _ => c

/-- Whether a value is what an operation on a view should give. Another list is a view of the same
field. -/
def Yield.Gives (g : Heap) (c : RepeatedCell) : Yield → Value → Prop
  | nothing, v => v = .absent
  | element x, v => v = x
  | list xs, v => ∃ q, v = .repeated q ∧ g.cell q = { c with items := xs }

/-- Whether an operation does what it should, on one heap and to one view. -/
structure Meets (edit : ListEdit Value) (h : Heap) (r : Ref .repeated) : Prop where
  ok {items : List Value} {y : Yield} (hexpected : edit.expected h (h.cell r) = .ok (items, y)) :
    ∃ v g, (edit.script r).run h = (.ok v, g) ∧ y.Gives g (h.cell r) v ∧
      g.cell r = { h.cell r with items := items }
  error {e : Error} (hexpected : edit.expected h (h.cell r) = .error e) :
    ∃ g, (edit.script r).run h = (.error e, g) ∧ g.cell r = h.cell r

/-- Operations on one view, one after another, each with the heap that it was run on. -/
inductive Ran (pools : Set Pool) (r : Ref .repeated) (h : Heap) :
    List (Heap × ListEdit Value) → Heap → Prop
  | start : Ran pools r h [] h
  | step {history : List (Heap × ListEdit Value)} {g : Heap} {edit : ListEdit Value}
    (hran : Ran pools r h history g) (hedit : edit.Within pools g) :
    Ran pools r h (history ++ [(g, edit)]) ((edit.script r).run g).2

/-- **When an operation on a view fails, and with which error.** -/
inductive Fails (h : Heap) (c : RepeatedCell) : ListEdit Value → Error → Prop
  /-- what should go into the list has no elements -/
  | operand {edit : ListEdit Value} {e : Error} (he : edit.incoming h c = .error e) : Fails h c edit e
  /-- an element that should go into the list is refused, and those before it are not -/
  | element {edit : ListEdit Value} {before after : List Value} {x : Value} {e : Error}
    (hincoming : edit.incoming h c = .ok (before ++ x :: after))
    (hbefore : ∀ y ∈ before, ∃ s, h.check c.kind c.config y = .ok s)
    (he : h.check c.kind c.config x = .error e) : Fails h c edit e
  | setOutside {index : Int} {x : Value} {s : Stored} (hx : h.check c.kind c.config x = .ok s)
    (hindex : ¬(-c.items.length ≤ index ∧ index < c.items.length)) :
    Fails h c (.set index x) (.indexOutOfRange (reportedIndex index) c.items.length)
  | popOutside {index : Option Int}
    (hindex : ¬(-c.items.length ≤ index.getD (-1) ∧ index.getD (-1) < c.items.length)) :
    Fails h c (.pop index) (.indexOutOfRange (reportedIndex (index.getD (-1))) c.items.length)
  | notFound {x : Value} (hitems : ∀ item ∈ c.items, h.equals item x = .ok false) :
    Fails h c (.remove x) (.elementNotFound x)
  /-- an element cannot be compared, and those before it are not equal -/
  | notCompared {before after : List Value} {item x : Value} {e : Error}
    (hitems : c.items = before ++ item :: after) (hbefore : ∀ y ∈ before, h.equals y x = .ok false)
    (he : h.equals item x = .error e) : Fails h c (.remove x) e

/-! ## One operation -/

/-- Positions as views resolve them. -/
theorem resolveIndex_eq (index : Int) (items : List Value) :
    resolveIndex index items.length = place index items := by
  simp only [resolveIndex, place]
  by_cases hindex : -items.length ≤ index ∧ index < items.length
  · rw [if_pos hindex]
    by_cases hnegative : index < 0
    · have hmod : index % items.length = index + items.length := by
        rw [← Int.add_emod_right, Int.emod_eq_of_lt] <;> omega
      rw [if_pos hnegative, if_neg (by omega), hmod]
    · have hmod : index % items.length = index := Int.emod_eq_of_lt (by omega) hindex.2
      rw [if_neg hnegative, if_neg (by omega), hmod]
  · rw [if_neg hindex, if_pos]
    split <;> omega

theorem sliceBounds_eq (index : Int) (items : List Value) :
    (sliceBounds (some index) none items.length).1 = cut index items := by
  simp only [sliceBounds, clampBound, cut, Option.elim_some]
  split <;> omega

theorem cut_le (index : Int) (items : List Value) : cut index items ≤ items.length := by
  simp only [cut]
  omega

theorem insertIdx_eq {items : List Value} {i : Nat} (hi : i ≤ items.length) (x : Value) :
    items.insertIdx i x = items.take i ++ x :: items.drop i := by
  induction items generalizing i with
  | nil =>
    obtain rfl : i = 0 := Nat.le_zero.1 hi
    rfl
  | cons item rest ih =>
    cases i with
    | zero => rfl
    | succ i => simp [ih (Nat.le_of_succ_le_succ hi)]

/-- Removing the first equal element is looking for its position and erasing what is there. -/
theorem removeFirst_eq (h : Heap) (x : Value) (items : List Value) (position : Nat) :
    h.indexFrom x position items = (h.indexFrom x 0 items).map (· + position) ∧
      h.removeFirst x items = (h.indexFrom x 0 items).map items.eraseIdx := by
  induction items generalizing position with
  | nil => exact ⟨rfl, rfl⟩
  | cons item rest ih =>
    simp only [Heap.indexFrom, Heap.removeFirst]
    rcases h.equals item x with e | _ | _
    · exact ⟨rfl, rfl⟩
    · simp only [(ih (position + 1)).1, (ih (0 + 1)).1, (ih 0).2]
      rcases h.indexFrom x 0 rest with e | i
      · exact ⟨rfl, rfl⟩
      · exact ⟨congrArg Except.ok (Nat.add_right_comm i 1 position).symm, rfl⟩
    · exact ⟨congrArg Except.ok (Nat.zero_add position).symm, rfl⟩

section

variable {kind : Kind} {config : Config} {x : Value} {edit : ListEdit Value}

theorem form_ok {s : Stored} (hs : h.check kind config x = .ok s) :
    h.form kind config x = .ok (h.adopt kind config s).1 := by
  rw [Heap.form, hs]
  rfl

theorem forms_ok {vs : List Value} {ss : List Stored} (hs : vs.mapM (h.check kind config) = .ok ss) :
    h.forms kind config vs = .ok (h.makeAll (·.adopt kind config) ss).1 := by
  rw [Heap.forms, hs]
  rfl

theorem Meets.of_ok {items : List Value} {y : Yield} {v : Value}
    (hexpected : edit.expected h (h.cell r) = .ok (items, y))
    (hrun : (edit.script r).run h = (.ok v, g)) (hy : y.Gives g (h.cell r) v) (hcell : g.cell r = { h.cell r with items := items }) :
    edit.Meets h r := by
  constructor
  · intro items' y' hexpected'
    rw [hexpected] at hexpected'
    cases hexpected'
    exact ⟨v, g, hrun, hy, hcell⟩
  · intro e he
    rw [hexpected] at he
    cases he

theorem Meets.of_error {e : Error} (hexpected : edit.expected h (h.cell r) = .error e)
    (hrun : (edit.script r).run h = (.error e, g)) (hcell : g.cell r = h.cell r) : edit.Meets h r := by
  constructor
  · intro items y hok
    rw [hexpected] at hok
    cases hok
  · intro e' he'
    rw [hexpected] at he'
    cases he'
    exact ⟨g, hrun, hcell⟩

end

section

open Script

variable (hthawed : (h.cell r).frozen = false)

include hthawed in
/-- What is done to a view that is not frozen. -/
theorem run_thawed {α : Type} (verb : String) (body : RepeatedCell → Script α) :
    Script.run (do
      let c ← cell r
      checkMutable c.frozen verb "list"
      body c) h = (body (h.cell r)).run h := by
  rw [run_bind, run_cell]
  simp only [hthawed]
  rfl

variable (hc : h.Closed) (hr : h.Has ⟨.repeated, r⟩) {x : Value}

include hc hr

/-- An operation that checks one value and then overwrites the items, or fails. -/
theorem meets_of_check {edit : ListEdit Value} {s : Script Unit} (build : Value → ListEdit (List Value))
    (finish : Value → Except Error (List Value)) (hx : x.Within h)
    (hscript : edit.script r = do s; return .absent)
    (hrun : s.run h = Script.run (do
      let v ← normalize (h.cell r).kind x (h.cell r).config
      let items ← Script.ofExcept (finish v)
      put r { h.cell r with items := items }) h)
    (hnormalized : edit.normalized h (h.cell r) =
      (h.form (h.cell r).kind (h.cell r).config x).map build)
    (hperform : ∀ v, perform h (h.cell r).items (build v) = (finish v).map (·, .nothing)) :
    edit.Meets h r := by
  have hexpected : edit.expected h (h.cell r) = (do
      let v ← h.form (h.cell r).kind (h.cell r).config x
      (finish v).map (·, .nothing)) := by
    rw [expected, hnormalized]
    rcases h.form (h.cell r).kind (h.cell r).config x with e | v
    · rfl
    · exact hperform v
  have hperforms : Performs h (normalize (h.cell r).kind x (h.cell r).config) _ _ :=
    normalize_performs hc hx
  -- the check may fail, and so may what comes after it
  rcases hcheck : h.check (h.cell r).kind (h.cell r).config x with e | t
  · rw [Heap.form, Except.map_error.2 hcheck] at hexpected
    obtain ⟨g, hg, he⟩ := hperforms.run_error (.refl ∅ h) hcheck
    apply Meets.of_error hexpected _ (hg.cell hr)
    rw [hscript]
    exact bind_error.2 (.inl (hrun.trans he))
  · rw [form_ok hcheck] at hexpected
    obtain ⟨-, hg⟩ := hperforms.ok (.refl ∅ h) hcheck
    rw [hperforms.run_ok (.refl ∅ h) hcheck] at hrun
    rcases hfinish : finish (h.adopt (h.cell r).kind (h.cell r).config t).1 with e | items
    · rw [hfinish] at hrun
      apply Meets.of_error (hexpected.trans (congrArg (Except.map _) hfinish)) _ (hg.cell hr)
      rw [hscript]
      exact bind_error.2 (.inl hrun)
    · rw [hfinish] at hrun
      apply Meets.of_ok (hexpected.trans (congrArg (Except.map _) hfinish)) _
        (rfl : Yield.nothing.Gives _ _ .absent)
      · exact Heap.cell_put_self _ r _ (hg.has hr)
      · rw [hscript]
        exact bind_ok.2 ⟨(), _, hrun, rfl⟩

include hthawed

theorem meets_append (hx : x.Within h) : (append x).Meets h r := by
  apply meets_of_check hc hr append (fun v => .ok ((h.cell r).items ++ [v])) hx rfl
  · exact run_thawed hthawed "append to" _
  · rfl
  · exact fun v => rfl

theorem meets_insert {index : Int} (hx : x.Within h) : (insert index x).Meets h r := by
  apply meets_of_check hc hr (insert index)
    (fun v => .ok ((h.cell r).items.take (cut index (h.cell r).items) ++
      v :: (h.cell r).items.drop (cut index (h.cell r).items))) hx rfl
  · rw [← sliceBounds_eq]
    exact run_thawed hthawed "insert into" _
  · rfl
  · intro v
    rw [← insertIdx_eq (cut_le ..)]
    rfl

theorem meets_set {index : Int} (hx : x.Within h) : (set index x).Meets h r := by
  apply meets_of_check hc hr (set index)
    (fun v => (place index (h.cell r).items).map fun i => (h.cell r).items.set i v) hx rfl
  · refine (run_thawed hthawed "set item of" _).trans ?_
    rw [run_bind, run_bind]
    rcases (normalize (h.cell r).kind x (h.cell r).config).run h with ⟨_ | v, g⟩
    · rfl
    · simp only [run_bind, run_ofExcept, ← resolveIndex_eq]
      rcases resolveIndex index (h.cell r).items.length with e | i <;> rfl
  · rfl
  · intro v
    rw [perform]
    rcases place index (h.cell r).items with e | i <;> rfl

omit hthawed in
/-- An operation that checks several values and then cannot fail. -/
theorem meets_of_checks {edit : ListEdit Value} {source : Value}
    (build : List Value → ListEdit (List Value)) (finish : List Value → Script Value) (hsource : source.Within h)
    (hrun : (edit.script r).run h = Script.run (do
      let incoming ← reading (·.iterate source)
      let vs ← normalizeAll (h.cell r).kind incoming (h.cell r).config
      finish vs) h)
    (hnormalized : edit.normalized h (h.cell r) = (do
      return build (← h.forms (h.cell r).kind (h.cell r).config (← h.iterate source))))
    (hfinish : ∀ vs g, h.Grows g → ∃ items y v g',
      perform h (h.cell r).items (build vs) = .ok (items, y) ∧ (finish vs).run g = (.ok v, g') ∧
        y.Gives g' (h.cell r) v ∧ g'.cell r = { h.cell r with items := items }) : edit.Meets h r := by
  -- the source may be no sequence, and its items may fail their checks
  rcases hincoming : h.iterate source with e | incoming
  · have hexpected : edit.expected h (h.cell r) = .error e := by
      rw [expected, hnormalized, hincoming]
      rfl
    apply Meets.of_error hexpected _ rfl
    exact hrun.trans (bind_error.2 (.inl (Prod.ext hincoming rfl)))
  have hperforms : Performs h (normalizeAll (h.cell r).kind incoming (h.cell r).config) _ _ :=
    normalizeAll_performs hc (hc.iterate hsource hincoming)
  have hread : (edit.script r).run h = Script.run (do
      let vs ← normalizeAll (h.cell r).kind incoming (h.cell r).config
      finish vs) h := by
    rw [hrun, run_bind, run_reading, hincoming]
  have hchecks : edit.expected h (h.cell r) = (do
      let vs ← h.forms (h.cell r).kind (h.cell r).config incoming
      perform h (h.cell r).items (build vs)) := by
    rw [expected, hnormalized, hincoming]
    exact bind_assoc (h.forms (h.cell r).kind (h.cell r).config incoming) _ _
  rcases hchecked : incoming.mapM (h.check (h.cell r).kind (h.cell r).config) with e | checked
  · have hexpected : edit.expected h (h.cell r) = .error e := by
      rw [hchecks, Heap.forms, Except.map_error.2 hchecked]
      rfl
    obtain ⟨g, hg, he⟩ := hperforms.run_error (.refl ∅ h) hchecked
    exact .of_error hexpected (hread.trans he) (hg.cell hr)
  · obtain ⟨-, hg⟩ := hperforms.ok (.refl ∅ h) hchecked
    obtain ⟨items, y, v, g, hperform, hdone, hy, hcell⟩ := hfinish _ _ hg
    apply Meets.of_ok _ (hread.trans ((hperforms.run_ok (.refl ∅ h) hchecked).trans hdone)) hy hcell
    rw [hchecks, forms_ok hchecked, ← hperform]
    rfl

theorem meets_extend {source : Value} (hsource : source.Within h) : (extend source).Meets h r := by
  apply meets_of_checks hc hr extend (fun vs => do
    put r { h.cell r with items := (h.cell r).items ++ vs }
    return .absent) hsource
  · have hrun : (Script.extend r source).run h = Script.run (do
        let incoming ← reading (·.iterate source)
        let vs ← normalizeAll (h.cell r).kind incoming (h.cell r).config
        put r { h.cell r with items := (h.cell r).items ++ vs }) h := run_thawed hthawed "extend" _
    rw [script, run_bind, hrun, run_bind, run_bind, run_reading]
    rcases h.iterate source with e | incoming
    · rfl
    · simp only [run_bind]
      rcases (normalizeAll (h.cell r).kind incoming (h.cell r).config).run h with ⟨_ | vs, g⟩ <;> rfl
  · rfl
  · intro vs g hg
    exact ⟨_, _, _, _, rfl, rfl, rfl, Heap.cell_put_self g r _ (hg.has hr)⟩

theorem meets_plus {other : Value} (hother : other.Within h) : (plus other).Meets h r := by
  have refused (hadd : (Script.add (.repeated r) other).run h =
      (.error (.unsupportedOperation "+" ((h.cell r).typeName ++ " and " ++ h.typeName other)), h))
      (hsummands : h.summands (h.cell r) other =
        .error (.unsupportedOperation "+" ((h.cell r).typeName ++ " and " ++ h.typeName other))) :
      (plus other).Meets h r := by
    refine .of_error ?_ hadd rfl
    rw [expected, normalized, hsummands]
    rfl
  have joined (hadd : (Script.add (.repeated r) other).run h = (concat r other).run h)
      (hsummands : h.summands (h.cell r) other = h.iterate other) : (plus other).Meets h r := by
    apply meets_of_checks hc hr plus (fun vs => do
      let new ← newRepeated
        { field := (h.cell r).field, items := (h.cell r).items ++ vs, config := (h.cell r).config }
      return .repeated new) hother
    · exact hadd
    · rw [normalized, hsummands]
    · intro vs g hg
      refine ⟨_, _, _, _, rfl, rfl, ⟨_, rfl, ?_⟩, ?_⟩
      · refine (Heap.cell_alloc_self ..).trans ?_
        rw [← hthawed]
      · exact (Heap.cell_alloc_of_has _ _ (hg.has hr)).trans (hg.cell hr)
  cases other with
  | list q => exact joined rfl rfl
  | repeated q => exact joined rfl rfl
  | _ => exact refused rfl rfl

omit hc in
theorem meets_pop {index : Option Int} : (pop index).Meets h r := by
  have hrun : (Script.pop r index).run h = Script.run (do
      let i ← Script.ofExcept (place (index.getD (-1)) (h.cell r).items)
      put r { h.cell r with items := (h.cell r).items.eraseIdx i }
      return (h.cell r).items.getD i .absent) h := by
    rw [← resolveIndex_eq]
    exact run_thawed hthawed "pop from" _
  have hexpected : (pop index).expected h (h.cell r) =
      (place (index.getD (-1)) (h.cell r).items).map fun i =>
        ((h.cell r).items.eraseIdx i, .element ((h.cell r).items.getD i .absent)) := rfl
  rcases hplace : place (index.getD (-1)) (h.cell r).items with e | i
  · rw [hplace] at hrun hexpected
    exact .of_error hexpected hrun rfl
  · rw [hplace] at hrun hexpected
    exact .of_ok hexpected hrun rfl (Heap.cell_put_self h r _ hr)

omit hc in
theorem meets_remove : (remove x).Meets h r := by
  have hrun : (Script.remove r x).run h = Script.run (do
      let i ← indexOf x (h.cell r).items
      put r { h.cell r with items := (h.cell r).items.eraseIdx i }) h :=
    run_thawed hthawed "remove from" _
  have hexpected : (remove x).expected h (h.cell r) =
      (h.removeFirst x (h.cell r).items).map (·, .nothing) := rfl
  rw [(removeFirst_eq h x (h.cell r).items 0).2] at hexpected
  rw [run_bind, indexOf, run_reading] at hrun
  rcases hindex : h.indexFrom x 0 (h.cell r).items with e | i
  · rw [hindex] at hrun hexpected
    exact .of_error hexpected (bind_error.2 (.inl hrun)) rfl
  · rw [hindex] at hrun hexpected
    exact .of_ok hexpected (bind_ok.2 ⟨(), _, hrun, rfl⟩) rfl (Heap.cell_put_self h r _ hr)

omit hc in
theorem meets_clear : clear.Meets h r := by
  have hrun : (clearRepeated r).run h = (.ok (), h.put r { h.cell r with items := [] }) :=
    run_thawed hthawed "clear" _
  have hexpected : clear.expected h (h.cell r) = .ok ([], .nothing) := rfl
  exact .of_ok hexpected (bind_ok.2 ⟨(), _, hrun, rfl⟩) rfl (Heap.cell_put_self h r _ hr)

end

/-- **An operation does what it should** to a view that is not frozen. -/
theorem meets (hc : h.Closed) (hr : h.Has ⟨.repeated, r⟩) (hthawed : (h.cell r).frozen = false)
    {edit : ListEdit Value} (hedit : edit.Within pools h) : edit.Meets h r := by
  cases edit with
  | append x => exact meets_append hthawed hc hr (hedit x (.head _)).1
  | extend source => exact meets_extend hthawed hc hr (hedit source (.head _)).1
  | insert index x => exact meets_insert hthawed hc hr (hedit x (.head _)).1
  | set index x => exact meets_set hthawed hc hr (hedit x (.head _)).1
  | pop index => exact meets_pop hthawed hr
  | remove x => exact meets_remove hthawed hr
  | clear => exact meets_clear hthawed hr
  | plus other => exact meets_plus hthawed hc hr (hedit other (.head _)).1

/-- What an operation that does what it should leaves of a view. -/
theorem Meets.cell {edit : ListEdit Value} (hmeets : edit.Meets h r) :
    ((edit.script r).run h).2.cell r = edit.after h (h.cell r) := by
  rw [after]
  rcases hexpected : edit.expected h (h.cell r) with e | ⟨items, y⟩
  · obtain ⟨g, hrun, hcell⟩ := hmeets.error hexpected
    rw [hrun]
    exact hcell
  · obtain ⟨v, g, hrun, -, hcell⟩ := hmeets.ok hexpected
    rw [hrun]
    exact hcell

theorem Meets.error_iff {edit : ListEdit Value} (hmeets : edit.Meets h r) {e : Error} :
    ((edit.script r).run h).1 = .error e ↔ edit.expected h (h.cell r) = .error e := by
  constructor
  · intro herror
    rcases hexpected : edit.expected h (h.cell r) with e' | ⟨items, y⟩
    · obtain ⟨g, hrun, -⟩ := hmeets.error hexpected
      rw [hrun] at herror
      cases herror
      rfl
    · obtain ⟨v, g, hrun, -⟩ := hmeets.ok hexpected
      rw [hrun] at herror
      cases herror
  · intro hexpected
    obtain ⟨g, hrun, -⟩ := hmeets.error hexpected
    rw [hrun]

/-! ## Failures -/

/-- What goes into the list is refused as the first of its elements that is. -/
theorem normalized_error {c : RepeatedCell} {edit : ListEdit Value} {e : Error} :
    edit.normalized h c = .error e ↔ edit.incoming h c = .error e ∨
      ∃ vs, edit.incoming h c = .ok vs ∧ vs.mapM (h.check c.kind c.config) = .error e := by
  have one {x : Value} (build : Value → ListEdit (List Value)) :
      (h.form c.kind c.config x).map build = .error e ↔
        [x].mapM (h.check c.kind c.config) = .error e := by
    rw [Except.map_error, Heap.form, Except.map_error, List.mapM_cons, List.mapM_nil, Except.bind_error]
    exact ⟨.inl, fun he => he.resolve_right nofun⟩
  have several {vs : List Value} (build : List Value → ListEdit (List Value)) :
      (do return build (← h.forms c.kind c.config vs)) = .error e ↔
        vs.mapM (h.check c.kind c.config) = .error e := by
    rw [Except.bind_error, Heap.forms, Except.map_error]
    exact ⟨fun he => he.resolve_right nofun, .inl⟩
  cases edit with
  | append x => simp [normalized, incoming, one]
  | insert index x => simp [normalized, incoming, one]
  | set index x => simp [normalized, incoming, one]
  | extend source =>
    exact Except.bind_error.trans (or_congr_right (exists_congr fun vs => and_congr_right fun _ =>
      several extend))
  | plus other =>
    exact Except.bind_error.trans (or_congr_right (exists_congr fun vs => and_congr_right fun _ =>
      several plus))
  | _ => simp [normalized, incoming, pure, Except.pure]

theorem place_error {index : Int} {items : List Value} {e : Error} :
    place index items = .error e ↔ ¬(-items.length ≤ index ∧ index < items.length) ∧
      e = .indexOutOfRange (reportedIndex index) items.length := by
  rw [place]
  by_cases hindex : -items.length ≤ index ∧ index < items.length
  · rw [if_pos hindex]
    exact ⟨nofun, fun he => absurd hindex he.1⟩
  · rw [if_neg hindex]
    exact ⟨fun he => ⟨hindex, (Except.error.inj he).symm⟩, fun he => he.2 ▸ rfl⟩

theorem removeFirst_error {x : Value} {items : List Value} {e : Error} :
    h.removeFirst x items = .error e ↔
      (∀ item ∈ items, h.equals item x = .ok false) ∧ e = .elementNotFound x ∨
      ∃ before item after, items = before ++ item :: after ∧
        (∀ y ∈ before, h.equals y x = .ok false) ∧ h.equals item x = .error e := by
  constructor
  · intro he
    induction items with
    | nil => exact .inl ⟨nofun, (Except.error.inj he).symm⟩
    | cons item rest ih =>
      rw [Heap.removeFirst] at he
      rcases hitem : h.equals item x with e' | _ | _
      · rw [hitem] at he
        cases he
        exact .inr ⟨[], item, rest, rfl, nofun, hitem⟩
      · rw [hitem] at he
        rcases ih (Except.map_error.1 he) with ⟨hrest, rfl⟩ | ⟨before, item', after, rfl, hbefore, he⟩
        · exact .inl ⟨List.forall_mem_cons.2 ⟨hitem, hrest⟩, rfl⟩
        · exact .inr ⟨item :: before, item', after, rfl, List.forall_mem_cons.2 ⟨hitem, hbefore⟩, he⟩
      · rw [hitem] at he
        cases he
  · -- items that are unequal are passed over
    have skip {before rest : List Value} (hbefore : ∀ y ∈ before, h.equals y x = .ok false)
        (hrest : h.removeFirst x rest = .error e) : h.removeFirst x (before ++ rest) = .error e := by
      induction before with
      | nil => exact hrest
      | cons item before ih =>
        obtain ⟨hitem, hbefore⟩ := List.forall_mem_cons.1 hbefore
        rw [List.cons_append, Heap.removeFirst, hitem]
        exact Except.map_error.2 (ih hbefore)
    rintro (⟨hitems, rfl⟩ | ⟨before, item, after, rfl, hbefore, he⟩)
    · have hnone : h.removeFirst x [] = .error (.elementNotFound x) := rfl
      simpa using skip hitems hnone
    · apply skip hbefore
      rw [Heap.removeFirst, he]

/-- **Operations fail just when, and as, they should.** -/
theorem expected_error {c : RepeatedCell} {edit : ListEdit Value} {e : Error} :
    edit.expected h c = .error e ↔ edit.Fails h c e := by
  constructor
  · intro he
    rcases Except.bind_error.1 he with hnormalized | ⟨plain, hplain, he⟩
    · rcases normalized_error.1 hnormalized with hincoming | ⟨vs, hvs, he⟩
      · exact .operand hincoming
      · obtain ⟨before, x, after, rfl, hbefore, hx⟩ := Except.mapM_error.1 he
        exact .element hvs hbefore hx
    -- after the checks, only a place or an item can be missing
    cases edit with
    | set index x =>
      obtain ⟨v, hv, rfl⟩ := Except.map_ok.1 hplain
      obtain ⟨s, hs, rfl⟩ := Except.map_ok.1 hv
      obtain ⟨hindex, rfl⟩ := place_error.1 (Except.map_error.1 he)
      exact .setOutside hs hindex
    | pop index =>
      cases hplain
      obtain ⟨hindex, rfl⟩ := place_error.1 (Except.map_error.1 he)
      exact .popOutside hindex
    | remove x =>
      cases hplain
      rcases removeFirst_error.1 (Except.map_error.1 he) with
        ⟨hitems, rfl⟩ | ⟨before, item, after, hitems, hbefore, he⟩
      · exact .notFound hitems
      · exact .notCompared hitems hbefore he
    | append x =>
      obtain ⟨v, -, rfl⟩ := Except.map_ok.1 hplain
      cases he
    | insert index x =>
      obtain ⟨v, -, rfl⟩ := Except.map_ok.1 hplain
      cases he
    | extend source =>
      obtain ⟨vs, -, hplain⟩ := Except.bind_ok.1 hplain
      obtain ⟨ws, -, hplain⟩ := Except.bind_ok.1 hplain
      cases hplain
      cases he
    | plus other =>
      obtain ⟨vs, -, hplain⟩ := Except.bind_ok.1 hplain
      obtain ⟨ws, -, hplain⟩ := Except.bind_ok.1 hplain
      cases hplain
      cases he
    | clear =>
      cases hplain
      cases he
  · rintro (hincoming | ⟨hincoming, hbefore, hx⟩ | ⟨hs, hindex⟩ | hindex | hitems |
      ⟨hitems, hbefore, he⟩)
    · exact Except.bind_error.2 (.inl (normalized_error.2 (.inl hincoming)))
    · refine Except.bind_error.2 (.inl (normalized_error.2 (.inr ⟨_, hincoming, ?_⟩)))
      exact Except.mapM_error_of_append hbefore hx
    · refine Except.bind_error.2 (.inr ⟨_, congrArg (Except.map _) (form_ok hs), ?_⟩)
      exact Except.map_error.2 (place_error.2 ⟨hindex, rfl⟩)
    · exact Except.map_error.2 (place_error.2 ⟨hindex, rfl⟩)
    · exact Except.map_error.2 (removeFirst_error.2 (.inl ⟨hitems, rfl⟩))
    · exact Except.map_error.2 (removeFirst_error.2 (.inr ⟨_, _, _, hitems, hbefore, he⟩))

/-! ## Any number of operations -/

open Sample (given within_of_given) in
/-- **An operation is a step of a run.** -/
theorem isStep (hr : h.Has ⟨.repeated, r⟩) {edit : ListEdit Value} (hedit : edit.Within pools h) :
    Heap.Step pools h ((edit.script r).run h).2 := by
  have call (m : RepeatedMethod) (args : List Value) (hargs : ∀ v ∈ args, v.Within h ∧ v.From pools)
      (hrun : (Script.callRepeated r "" m args []).run h = (edit.script r).run h) :
      Heap.Step pools h ((edit.script r).run h).2 := by
    rw [← hrun]
    refine .operation (.call (.callable (.repeated 0 "" r m)) args []) (within_of_given ?_ trivial)
    have hview := given pools h (.callable (.repeated 0 "" r m)) nofun
      (fun q hq => by cases hq; exact hr) rfl nofun
    exact List.forall_mem_cons.2 ⟨hview, by simpa using hargs⟩
  have hview := given pools h (.repeated r) nofun (fun q hq => by cases hq; exact hr) rfl nofun
  have hnumber (n : Int) := given pools h (.int n) nofun nofun rfl nofun
  cases edit with
  | append x => exact call .append [x] hedit rfl
  | extend source => exact call .extend [source] hedit rfl
  | insert index x =>
    exact call .insert [.int index, x] (List.forall_mem_cons.2 ⟨hnumber index, hedit⟩) rfl
  | set index x =>
    have hrun : ((script r (.set index x)).run h).2 = ((Script.setAt r index x).run h).2 := by
      rw [script, Script.run_bind]
      rcases (Script.setAt r index x).run h with ⟨_ | _, _⟩ <;> rfl
    rw [hrun]
    refine .operation (.setIndex (.repeated r) (.int index) x) (within_of_given ?_ trivial)
    exact List.forall_mem_cons.2 ⟨hview, List.forall_mem_cons.2 ⟨hnumber index, hedit⟩⟩
  | pop index =>
    cases index with
    | none => exact call .pop [] nofun rfl
    | some n => exact call .pop [.int n] (List.forall_mem_singleton.2 (hnumber n)) rfl
  | remove x => exact call .remove [x] hedit rfl
  | clear => exact call .clear [] nofun rfl
  | plus other =>
    refine .operation (.add (.repeated r) other) (within_of_given ?_ trivial)
    exact List.forall_mem_cons.2 ⟨hview, hedit⟩

theorem frozen_after (c : RepeatedCell) (edit : ListEdit Value) :
    (edit.after h c).frozen = c.frozen := by
  rw [after]
  rcases edit.expected h c with e | ⟨items, y⟩ <;> rfl

namespace Ran

variable {history : List (Heap × ListEdit Value)}

/-- **After any number of operations, a view is what a plain list would be.** -/
theorem reachable (hran : Ran pools r h history g) (hh : Heap.Reachable pools h)
    (hr : h.Has ⟨.repeated, r⟩) (hthawed : (h.cell r).frozen = false) :
    Heap.Reachable pools g ∧ g.Has ⟨.repeated, r⟩ ∧ (g.cell r).frozen = false ∧
      g.cell r = history.foldl (fun c step => step.2.after step.1 c) (h.cell r) := by
  induction hran with
  | start => exact ⟨hh, hr, hthawed, rfl⟩
  | @step history g edit hran hedit ih =>
    obtain ⟨hg, hgr, hgthawed, hcell⟩ := ih
    have hstep := isStep hgr hedit
    have hafter := (meets hg.closed hgr hgthawed hedit).cell
    refine ⟨hg.tail hstep, (hstep.changes hg.closed).has hgr, ?_, ?_⟩
    · rw [hafter, frozen_after, hgthawed]
    · rw [hafter, List.foldl_append, ← hcell]
      rfl

end Ran

end ListEdit

namespace Heap

/-- An item of a view can be compared with every value, if messages can be flushed. -/
theorem Reachable.exists_equals {p : Pool} (hh : Reachable {p} h) (hkeys : p.PlainKeys) {kind : Kind}
    {item x : Value} (hfits : h.Fits kind item) (hitem : item.Within h) (hx : x.Within h) :
    ∃ b, h.equals item x = .ok b := by
  rw [hfits.equals_eq]
  by_cases hmessages : ∃ a b, item = .message a ∧ x = .message b
  · obtain ⟨a, b, rfl, rfl⟩ := hmessages
    obtain ⟨m, hm, -⟩ := hh.exists_contents hkeys (hitem.has rfl : h.Has ⟨.message, a⟩)
    obtain ⟨n, hn, -⟩ := hh.exists_contents hkeys (hx.has rfl : h.Has ⟨.message, b⟩)
    simp only [flatEquals, hm, hn]
    split_ifs <;> exact ⟨_, rfl⟩
  · cases item <;> cases x <;> first
      | exact ⟨_, rfl⟩
      | exact absurd ⟨_, _, rfl, rfl⟩ hmessages

/-- **A view of a list field that is not frozen is a list**, after every sequence of operations on it.
It holds what a plain list would, had the same operations been run on it with the form of each value
that goes into the list. Every further operation does what it should, or fails and leaves the view as
it was. It fails just if what should go in has no elements, or one that is refused, the first of which
gives the error; if an index is outside of the list; or if no element equals a value, or one cannot be
compared before one that does. Where the keys of maps are integers, booleans and texts, all elements
can be compared, and those that do not fit are refused. -/
theorem Reachable.repeated_list {history : List (Heap × ListEdit Value)} (hh : Reachable pools h)
    (hr : h.Has ⟨.repeated, r⟩) (hthawed : (h.cell r).frozen = false)
    (hran : ListEdit.Ran pools r h history g) :
    g.cell r = history.foldl (fun c step => step.2.after step.1 c) (h.cell r) ∧
      (∀ edit : ListEdit Value, edit.Within pools g → edit.Meets g r) ∧
      (∀ (edit : ListEdit Value) e, edit.Within pools g →
        (((edit.script r).run g).1 = .error e ↔ edit.Fails g (g.cell r) e)) ∧
      ∀ p, pools = {p} → p.PlainKeys → ∀ x : Value, x.Within g →
        (∀ item ∈ (g.cell r).items, ∃ b, g.equals item x = .ok b) ∧
        ((∃ s, g.check (g.cell r).kind (g.cell r).config x = .ok s) ↔
          g.accepts (g.cell r).kind (g.cell r).config x = true) := by
  obtain ⟨hg, hgr, hgthawed, hcell⟩ := hran.reachable hh hr hthawed
  have hmeets (edit : ListEdit Value) (hedit : edit.Within pools g) : edit.Meets g r :=
    ListEdit.meets hg.closed hgr hgthawed hedit
  refine ⟨hcell, hmeets, fun edit e hedit => ?_, ?_⟩
  · exact (hmeets edit hedit).error_iff.trans ListEdit.expected_error
  · rintro p rfl hkeys x hx
    -- views hold checked values only, which can be compared to any value
    have htyped := hg.typed.repeated hgr
    constructor
    · intro item hitem
      exact hg.exists_equals hkeys (htyped.items item hitem) (hg.closed.repeatedItems hgr item hitem) hx
    · exact hg.check_isOk hkeys htyped.field.kind hx

end Heap

namespace Sample

/-- An integer is added to a list, another one in front of it, and then a text is refused. -/
theorem items_listed : Heap.Reachable {pool} listed ∧ ∃ history g,
    ListEdit.Ran {pool} ⟨0⟩ listed history g ∧
      (g.cell (⟨0⟩ : Ref .repeated)).items = [.int 8, .int 7] ∧
      (ListEdit.append (.text "a")).Fails g (g.cell (⟨0⟩ : Ref .repeated))
        (.typeMismatch (.text "a") "int32") := by
  have hnumber (h : Heap) (n : Int) : (Value.int n).Within h ∧ (Value.int n).From {pool} :=
    given {pool} h _ nofun nofun rfl nofun
  have hseven : (ListEdit.append (.int 7)).Within {pool} listed :=
    List.forall_mem_singleton.2 (hnumber listed 7)
  have height (h : Heap) : (ListEdit.insert (-5) (.int 8)).Within {pool} h :=
    List.forall_mem_singleton.2 (hnumber h 8)
  have hran : ListEdit.Ran {pool} ⟨0⟩ listed _ _ := (ListEdit.Ran.start.step hseven).step (height _)
  have hview : listed.Has ⟨.repeated, ⟨0⟩⟩ := (by decide : 0 < listed.repeateds.size)
  obtain ⟨hcell, -, hfails, -⟩ := reachable_listed.repeated_list hview rfl hran
  refine ⟨reachable_listed, _, _, hran, ?_, ?_⟩
  · rw [hcell]
    rfl
  · apply (hfails (.append (.text "a")) _ _).1 rfl
    exact List.forall_mem_singleton.2 (given {pool} _ _ nofun nofun rfl nofun)

/-- A pool with racks of scales, whose weights have floats as keys, which the language of schemas does
not allow. -/
def racks : Pool where
  id := 11
  messages := [
    { name := "Rack"
      fullName := "Rack"
      package := ""
      edition := .proto3
      parent := none
      isMapEntry := false
      fields := [field "scales" 1 (.message 1) true none]
      nodup_numbers := by decide
      nodup_names := by decide },
    { name := "Scale"
      fullName := "Scale"
      package := ""
      edition := .proto3
      parent := none
      isMapEntry := false
      fields := [field "weights" 1 (.message 2) true none]
      nodup_numbers := by decide
      nodup_names := by decide },
    { name := "WeightsEntry"
      fullName := "Scale.WeightsEntry"
      package := ""
      edition := .proto3
      parent := some 1
      isMapEntry := true
      fields := [
        field "key" 1 (.scalar .double) false none,
        field "value" 2 (.scalar .int64) false none]
      nodup_numbers := by decide
      nodup_names := by decide }]
  enums := []
  nodup_names := by decide
  kinds_within := by decide

def rack : MessageDescriptor := ⟨racks, 0⟩

def rackScale : MessageDescriptor := ⟨racks, 1⟩

def scalesField : FieldDescriptor := ⟨rack, field "scales" 1 (.message 1) true none⟩

def rackWeights : FieldDescriptor := ⟨rackScale, field "weights" 1 (.message 2) true none⟩

/-- A rack with two scales. -/
def twoScales : Message :=
  .mk rack [(1, .list [.message (.empty rackScale), .message (.empty rackScale)])] []

def racked : Heap where
  messages := #[{ content := twoScales, config := {} }]

/-- After the scales were read. -/
def scalesRead : Heap where
  messages := #[{ content := twoScales, views := [("scales", .repeated ⟨0⟩)], config := {} },
    { content := .empty rackScale, config := {} }, { content := .empty rackScale, config := {} }]
  repeateds := #[{ field := scalesField, items := [.message ⟨1⟩, .message ⟨2⟩], config := {} }]

/-- After the weights of the first one were read. -/
def weightsRead : Heap where
  messages := #[{ content := twoScales, views := [("scales", .repeated ⟨0⟩)], config := {} },
    { content := .empty rackScale, views := [("weights", .map ⟨0⟩)], config := {} },
    { content := .empty rackScale, config := {} }]
  repeateds := scalesRead.repeateds
  maps := #[{ field := rackWeights, config := {} }]

/-- After a weight was set. -/
def weighed : Heap where
  messages := weightsRead.messages
  repeateds := scalesRead.repeateds
  maps := #[{ field := rackWeights, entries := [(.float (.ofInt 1), .int 2)], config := {} }]

theorem conforms_twoScales : twoScales.Conforms := by
  refine (Message.Conforms.empty rack).set (f := scalesField) (.head _) (.list rfl fun s hs => ?_)
  obtain rfl : s = .message (.empty rackScale) := by simpa using hs
  exact .message rfl (.empty rackScale)

theorem reachable_weighed : Heap.Reachable {racks} weighed := by
  have hwrap : ((Operation.wrap ⟨racks, {}⟩ twoScales).run {}).2 = racked := rfl
  have hscales : ((Operation.attr (.message root) "scales").run racked).2 = scalesRead := rfl
  have hweights : ((Operation.attr (.message right) "weights").run scalesRead).2 = weightsRead := rfl
  have hset : ((Operation.setIndex (.map ⟨0⟩) (.int 1) (.int 2)).run weightsRead).2 = weighed := rfl
  have hview := given {racks} weightsRead (.map ⟨0⟩) nofun
    (fun q hq => by cases hq; exact (by decide : 0 < weightsRead.maps.size)) rfl nofun
  have hone := given {racks} weightsRead (.int 1) nofun nofun rfl nofun
  have htwo := given {racks} weightsRead (.int 2) nofun nofun rfl nofun
  have hracked : Heap.Reachable {racks} racked := by
    rw [← hwrap]
    exact .single (.operation _ ⟨nofun, nofun, ⟨Set.mem_singleton _, by decide⟩, conforms_twoScales⟩)
  have hscalesRead : Heap.Reachable {racks} scalesRead := by
    rw [← hscales]
    exact hracked.tail (.operation _ (within_of_message {racks} racked rfl (by decide) trivial))
  have hweightsRead : Heap.Reachable {racks} weightsRead := by
    rw [← hweights]
    exact hscalesRead.tail (.operation _ (within_of_message {racks} scalesRead rfl (by decide) trivial))
  rw [← hset]
  exact hweightsRead.tail (.operation _ (within_of_given
    (List.forall_mem_cons.2
      ⟨hview, List.forall_mem_cons.2 ⟨hone, List.forall_mem_singleton.2 htwo⟩⟩) trivial))

/-- **Where a comparison fails**, an element that is there is not found: the first scale cannot be
flushed any more, and so it cannot be compared with the second one, which equals itself. -/
theorem second_scale_not_removed : ¬ racks.PlainKeys ∧ Heap.Reachable {racks} weighed ∧
    (weighed.cell (⟨0⟩ : Ref .repeated)).frozen = false ∧
    (weighed.cell (⟨0⟩ : Ref .repeated)).items = [.message ⟨1⟩, .message ⟨2⟩] ∧
    weighed.equals (.message ⟨2⟩) (.message ⟨2⟩) = .ok true ∧
    ∃ e h', (Script.remove ⟨0⟩ (.message ⟨2⟩)).run weighed = (.error e, h') ∧
      (∀ v, e ≠ .elementNotFound v) ∧
      (h'.cell (⟨0⟩ : Ref .repeated)).items = [.message ⟨1⟩, .message ⟨2⟩] := by
  obtain ⟨e, he, hne⟩ : ∃ e, weighed.contents ⟨1⟩ = .error e ∧ ∀ v, e ≠ .elementNotFound v := by
    rw [Heap.contents_eq]
    exact ⟨_, rfl, nofun⟩
  have hfirst : weighed.equals (.message ⟨1⟩) (.message ⟨2⟩) = .error e := by
    rw [Heap.equals, Heap.equalsWithin_message, Heap.flatEquals, if_neg (by decide),
      if_neg (by decide), he]
  refine ⟨by decide, reachable_weighed, rfl, rfl, ?_, e, weighed, ?_, hne, rfl⟩
  · rw [Heap.equals, Heap.equalsWithin_message, Heap.flatEquals, if_pos rfl]
  · have hindex : weighed.indexFrom (.message ⟨2⟩) 0 [.message ⟨1⟩, .message ⟨2⟩] = .error e := by
      rw [Heap.indexFrom, hfirst]
    refine Script.bind_error.2 (.inr ⟨_, weighed, rfl, ?_⟩)
    refine Script.bind_error.2 (.inr ⟨(), weighed, rfl, ?_⟩)
    exact Script.bind_error.2 (.inl (Prod.ext hindex rfl))

end Sample

end Protoscript
