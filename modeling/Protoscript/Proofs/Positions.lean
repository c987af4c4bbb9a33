import Protoscript.Proofs.ListEdits
import Protoscript.Proofs.Restoring

/-!
# Positions in sequences

An index names one element of a sequence, or is refused. A slice has the elements between its bounds,
whatever these are, and what is inserted goes between two slices. It is the same in machine integers: no
sum overflows, and no element is looked for outside of the sequence.

* `elementsBetween`, `partOf` — the elements of a slice, told by their positions;
* `sliceOf_eq_partOf` — a slice has these elements;
* `InWords.item?`, `InWords.slice?`, `InWords.insert?` — elements, slices and insertions where positions
  are counted in machine integers, if nothing goes wrong;
* `InWords.item?_eq`, `InWords.slice?_eq`, `InWords.insert?_eq` — nothing does;
* `Heap.sequence_positioned` — what scripts get from indices, slices and insertions.
-/

namespace Protoscript

open ListEdit (cut cut_le place resolveIndex_eq sliceBounds_eq insertIdx_eq)

/-! ## Slices by their positions -/

/-- The elements of a list at the positions from one on and below another, in their order. -/
def elementsBetween (first last : Nat) (items : List Value) : List Value :=
  (items.zipIdx.filter fun e => first ≤ e.2 ∧ e.2 < last).map (·.1)

/-- The elements of a list between two bounds. A bound that is not given is an end of the list. -/
def partOf (start stop : Option Int) (items : List Value) : List Value :=
  elementsBetween (start.elim 0 (cut · items)) (stop.elim items.length (cut · items)) items

/-- The same for a list whose positions are counted from `k` on. -/
theorem filter_zipIdx (first last k : Nat) (items : List Value) :
    ((items.zipIdx k).filter fun e => first ≤ e.2 ∧ e.2 < last).map (·.1) =
      (items.take (last - k)).drop (first - k) := by
  induction items generalizing k with
  | nil => simp
  | cons x rest ih =>
    rw [List.zipIdx_cons, List.filter_cons]
    by_cases hlast : k < last
    · have htake : last - k = last - (k + 1) + 1 := by omega
      rw [htake, List.take_succ_cons]
      by_cases hfirst : first ≤ k
      · have hdrop : first - k = 0 ∧ first - (k + 1) = 0 := by omega
        rw [if_pos (by simp [hfirst, hlast]), List.map_cons, ih, hdrop.1, hdrop.2]
        rfl
      · have hdrop : first - k = first - (k + 1) + 1 := by omega
        rw [if_neg (by simp [hfirst]), ih, hdrop, List.drop_succ_cons]
    · have htake : last - k = 0 ∧ last - (k + 1) = 0 := by omega
      rw [if_neg (by simp [hlast]), ih, htake.1, htake.2, List.take_zero, List.take_zero,
        List.drop_nil, List.drop_nil]

theorem elementsBetween_eq (first last : Nat) (items : List Value) :
    elementsBetween first last items = (items.take last).drop first :=
  filter_zipIdx first last 0 items

theorem clampBound_eq (bound : Int) (items : List Value) : clampBound items.length bound = cut bound items :=
  sliceBounds_eq bound items

/-- **A slice has the elements between its bounds**, in their order. -/
theorem sliceOf_eq_partOf (start stop : Option Int) (items : List Value) :
    sliceOf start stop items = partOf start stop items := by
  have hclamp : clampBound items.length = (cut · items) := funext fun bound => clampBound_eq bound items
  simp only [sliceOf, sliceBounds, partOf, elementsBetween_eq, hclamp, List.drop_take]
  congr 1
  omega

theorem partOf_until (a : Int) (items : List Value) :
    partOf none (some a) items = items.take (cut a items) := by
  simp [partOf, elementsBetween_eq]

theorem partOf_from (a : Int) (items : List Value) :
    partOf (some a) none items = items.drop (cut a items) := by
  simp [partOf, elementsBetween_eq]

/-- **What is before a bound and what is after it** is everything. -/
theorem partOf_append_partOf (a : Int) (items : List Value) :
    partOf none (some a) items ++ partOf (some a) none items = items := by
  rw [partOf_until, partOf_from, List.take_append_drop]

theorem clampBound_le (length : Nat) (bound : Int) : clampBound length bound ≤ length :=
  Nat.min_le_right _ _

/-- A slice starts and ends in the sequence, and does not end before it starts. -/
theorem sliceBounds_le (start stop : Option Int) (length : Nat) :
    (sliceBounds start stop length).1 ≤ (sliceBounds start stop length).2 ∧
      (sliceBounds start stop length).2 ≤ length := by
  have hstart : start.elim 0 (clampBound length) ≤ length := by
    cases start with
    | none => exact Nat.zero_le _
    | some bound => exact clampBound_le length bound
  have hstop : stop.elim length (clampBound length) ≤ length := by
    cases stop with
    | none => exact Nat.le_refl _
    | some bound => exact clampBound_le length bound
  exact ⟨Nat.le_max_left _ _, Nat.max_le.2 ⟨hstart, hstop⟩⟩

/-- A slice whose bounds are the wrong way round is empty, at the first of them. -/
example : sliceBounds (some 3) (some 1) 4 = (3, 3) := rfl

/-! ## Machine integers -/

namespace InWords

/-- A length as an integer of 128 bits. -/
def wide (length : BitVec 64) : BitVec 128 := length.setWidth 128

/-- The sum of two integers, unless it overflows. -/
def sum? (x y : BitVec 128) : Option (BitVec 128) :=
  if x.saddOverflow y then none else some (x + y)

/-- An integer moved into a range, if the range does not end before it starts. -/
def clamp? (lo hi x : BitVec 128) : Option (BitVec 128) :=
  if hi.slt lo then none else some (if x.slt lo then lo else if hi.slt x then hi else x)

/-- An index or a bound, counted from the start. -/
def fromStart? (length : BitVec 64) (bound : BitVec 128) : Option (BitVec 128) :=
  if bound.slt 0 then sum? bound (wide length) else some bound

/-- The position that an index names, unless a sum overflows. -/
def position? (index : BitVec 128) (length : BitVec 64) : Option (Except Error (BitVec 64)) :=
  (fromStart? length index).map fun position =>
    if position.slt 0 ∨ (wide length).sle position then
      .error (.indexOutOfRange (reportedIndex index.toInt) length.toNat)
    else .ok (position.setWidth 64)

/-- A bound of a slice, moved into the sequence, unless a sum overflows. -/
def bound? (length : BitVec 64) (bound : BitVec 128) : Option (BitVec 64) :=
  ((fromStart? length bound).bind (clamp? 0 (wide length))).map (·.setWidth 64)

/-- Where a slice starts and ends, unless a sum overflows. -/
def bounds? (start stop : Option (BitVec 128)) (length : BitVec 64) : Option (BitVec 64 × BitVec 64) := do
  let lo ← start.elim (some 0) (bound? length)
  let hi ← stop.elim (some length) (bound? length)
  return (lo, if hi.ult lo then lo else hi)

/-- The element at an index, unless a sum overflows or there is none at the position. -/
def item? (items : List Value) (index : BitVec 128) : Option (Except Error Value) :=
  match position? index (.ofNat 64 items.length) with
  | none => none
  | some (.error e) => some (.error e)
  | some (.ok position) => items[position.toNat]?.map .ok

/-- The elements between two bounds, unless a sum overflows, the slice ends before it starts or it ends
outside of the list. -/
def slice? (items : List Value) (start stop : Option (BitVec 128)) : Option (List Value) := do
  let (lo, hi) ← bounds? start stop (.ofNat 64 items.length)
  if lo.toNat ≤ hi.toNat ∧ hi.toNat ≤ items.length then some (items.extract lo.toNat hi.toNat) else none

/-- The list with an element inserted at an index, unless a sum overflows or the position is outside of
the list. -/
def insert? (items : List Value) (index : BitVec 128) (x : Value) : Option (List Value) := do
  let (position, _) ← bounds? (some index) none (.ofNat 64 items.length)
  if position.toNat ≤ items.length then some (items.insertIdx position.toNat x) else none

theorem toInt_wide (length : BitVec 64) : (wide length).toInt = length.toNat := by
  have hlength := length.isLt
  have hnat : (wide length).toNat = length.toNat := by
    rw [wide, BitVec.toNat_setWidth, Nat.mod_eq_of_lt (by omega)]
  rw [BitVec.toInt_eq_toNat_of_lt (by omega), hnat]

theorem slt_zero_iff {x : BitVec 128} : x.slt 0 = true ↔ x.toInt < 0 := BitVec.slt_iff_toInt_lt

/-- An integer that is a number of 64 bits is not changed when it is cut to them. -/
theorem toNat_narrow {x : BitVec 128} {n : Nat} (hx : x.toInt = n) (hn : n < 2 ^ 64) :
    (x.setWidth 64).toNat = n := by
  have hnat : x.toNat = n := by
    have hlt := x.isLt
    rw [BitVec.toInt_eq_toNat_cond] at hx
    split at hx <;> omega
  rw [BitVec.toNat_setWidth, hnat, Nat.mod_eq_of_lt hn]

/-- **No sum overflows**: what is added to a length is negative. -/
theorem fromStart?_eq (length : BitVec 64) (bound : BitVec 128) :
    ∃ position, fromStart? length bound = some position ∧
      position.toInt = if bound.toInt < 0 then bound.toInt + length.toNat else bound.toInt := by
  by_cases hnegative : bound.toInt < 0
  · have hoverflow : ¬ bound.saddOverflow (wide length) = true := by
      have hlow := bound.le_toInt
      have hlength := length.isLt
      simp only [BitVec.saddOverflow, toInt_wide, Bool.or_eq_true, decide_eq_true_eq]
      omega
    refine ⟨bound + wide length, ?_, ?_⟩
    · rw [fromStart?, if_pos (slt_zero_iff.2 hnegative), sum?, if_neg hoverflow]
    · rw [BitVec.toInt_add_of_not_saddOverflow hoverflow, toInt_wide, if_pos hnegative]
  · refine ⟨bound, ?_, (if_neg hnegative).symm⟩
    rw [fromStart?, if_neg (slt_zero_iff.not.2 hnegative)]

/-- Indices name the same positions in machine integers. -/
theorem position?_eq (index : BitVec 128) (length : BitVec 64) :
    ∃ result, position? index length = some result ∧
      result.map BitVec.toNat = resolveIndex index.toInt length.toNat := by
  obtain ⟨position, hposition, hint⟩ := fromStart?_eq length index
  have hout : (position.slt 0 = true ∨ (wide length).sle position = true) ↔
      position.toInt < 0 ∨ length.toNat ≤ position.toInt := by
    rw [slt_zero_iff, BitVec.sle_iff_toInt_le, toInt_wide]
  refine ⟨_, congrArg (Option.map _) hposition, ?_⟩
  simp only [resolveIndex, hout, ← hint]
  by_cases h : position.toInt < 0 ∨ length.toNat ≤ position.toInt
  · rw [if_pos h, if_pos h]
    rfl
  · have hlength := length.isLt
    rw [if_neg h, if_neg h]
    exact congrArg Except.ok (toNat_narrow (by omega) (by omega))

/-- An integer is moved to the nearest one of a range. -/
theorem clamp?_eq {lo hi : BitVec 128} (hle : lo.toInt ≤ hi.toInt) (x : BitVec 128) :
    ∃ inside, clamp? lo hi x = some inside ∧ inside.toInt = max lo.toInt (min x.toInt hi.toInt) := by
  refine ⟨if x.slt lo then lo else if hi.slt x then hi else x, ?_, ?_⟩
  · rw [clamp?, if_neg (by rw [BitVec.slt_iff_toInt_lt]; omega)]
  · simp only [BitVec.slt_iff_toInt_lt]
    split
    · omega
    · split <;> omega

/-- Bounds are moved to the same positions in machine integers. -/
theorem bound?_eq (length : BitVec 64) (bound : BitVec 128) :
    ∃ position, bound? length bound = some position ∧
      position.toNat = clampBound length.toNat bound.toInt := by
  obtain ⟨position, hposition, hint⟩ := fromStart?_eq length bound
  have hzero : (0 : BitVec 128).toInt = 0 := rfl
  have hrange : (0 : BitVec 128).toInt ≤ (wide length).toInt := by
    rw [hzero, toInt_wide]
    exact Int.natCast_nonneg _
  obtain ⟨inside, hinside, hclamped⟩ := clamp?_eq hrange position
  rw [hzero, toInt_wide] at hclamped
  refine ⟨inside.setWidth 64, ?_, ?_⟩
  · rw [bound?, hposition, Option.bind_some, hinside, Option.map_some]
  · have hlength := length.isLt
    have hbound : inside.toInt = clampBound length.toNat bound.toInt := by
      rw [clampBound, ← hint, hclamped]
      omega
    exact toNat_narrow hbound (Nat.lt_of_le_of_lt (clampBound_le _ _) hlength)

/-- Slices start and end at the same positions in machine integers. -/
theorem bounds?_eq (start stop : Option (BitVec 128)) (length : BitVec 64) :
    ∃ lo hi, bounds? start stop length = some (lo, hi) ∧
      (lo.toNat, hi.toNat) = sliceBounds (start.map (·.toInt)) (stop.map (·.toInt)) length.toNat := by
  obtain ⟨lo, hlo, hstart⟩ : ∃ lo, start.elim (some 0) (bound? length) = some lo ∧
      lo.toNat = (start.map (·.toInt)).elim 0 (clampBound length.toNat) := by
    cases start with
    | none => exact ⟨0, rfl, rfl⟩
    | some bound => exact bound?_eq length bound
  obtain ⟨hi, hhi, hstop⟩ : ∃ hi, stop.elim (some length) (bound? length) = some hi ∧
      hi.toNat = (stop.map (·.toInt)).elim length.toNat (clampBound length.toNat) := by
    cases stop with
    | none => exact ⟨length, rfl, rfl⟩
    | some bound => exact bound?_eq length bound
  refine ⟨lo, if hi.ult lo then lo else hi, ?_, ?_⟩
  · rw [bounds?, hlo, hhi]
    rfl
  · rw [sliceBounds, ← hstart, ← hstop, Prod.mk.injEq, and_iff_right rfl]
    simp only [BitVec.ult_iff_toNat_lt]
    split <;> omega

section

variable {items : List Value} (hlength : items.length < 2 ^ 64)

include hlength

theorem toNat_length : (BitVec.ofNat 64 items.length).toNat = items.length := by
  rw [BitVec.toNat_ofNat, Nat.mod_eq_of_lt hlength]

/-- **An index in machine integers** names the element at its position, or is out of range. -/
theorem item?_eq (index : BitVec 128) :
    item? items index = some ((place index.toInt items).map (items.getD · .absent)) := by
  obtain ⟨result, hposition, hresult⟩ := position?_eq index (.ofNat 64 items.length)
  rw [toNat_length hlength] at hresult
  rw [item?, hposition, ← resolveIndex_eq, ← hresult]
  rcases result with e | position
  · rfl
  · have hlt : position.toNat < items.length := lt_of_resolveIndex hresult.symm
    simp [Except.map, hlt]

/-- **A slice in machine integers** has the elements between its bounds. -/
theorem slice?_eq (start stop : Option (BitVec 128)) :
    slice? items start stop = some (partOf (start.map (·.toInt)) (stop.map (·.toInt)) items) := by
  obtain ⟨lo, hi, hbounds, heq⟩ := bounds?_eq start stop (.ofNat 64 items.length)
  rw [toNat_length hlength] at heq
  have hle := sliceBounds_le (start.map (·.toInt)) (stop.map (·.toInt)) items.length
  rw [← heq] at hle
  rw [slice?, hbounds, ← sliceOf_eq_partOf, sliceOf, ← heq]
  exact if_pos hle

/-- **An insertion in machine integers** is between what is before the index and what is after it. -/
theorem insert?_eq (index : BitVec 128) (x : Value) :
    insert? items index x =
      some (partOf none (some index.toInt) items ++ x :: partOf (some index.toInt) none items) := by
  obtain ⟨position, hi, hbounds, heq⟩ := bounds?_eq (some index) none (.ofNat 64 items.length)
  rw [toNat_length hlength] at heq
  have hposition : position.toNat = cut index.toInt items :=
    (congrArg Prod.fst heq).trans (sliceBounds_eq index.toInt items)
  have hle : position.toNat ≤ items.length := hposition ▸ cut_le index.toInt items
  rw [insert?, hbounds, partOf_until, partOf_from, ← hposition, ← insertIdx_eq hle]
  exact if_pos hle

end

end InWords

/-! ## Sequences of scripts -/

/-- The position of an index that is not out of range. -/
theorem ListEdit.place_inside {i : Int} {items : List Value} (hlow : -items.length ≤ i)
    (hhigh : i < items.length) :
    place i items = .ok (if i < 0 then items.length + i else i).toNat := by
  rw [← resolveIndex_eq, resolveIndex, if_neg (by split <;> omega), Int.add_comm]

namespace Heap

variable {h : Heap} {xs : Value} {items : List Value}

/-- **What positions mean** in a sequence with the given elements. -/
structure Positioned (h : Heap) (xs : Value) (items : List Value) : Prop where
  /-- an index within the length names an element; a negative one counts from the end -/
  inside {i : Int} (hlow : -items.length ≤ i) (hhigh : i < items.length) :
    ∃ v, items[(if i < 0 then items.length + i else i).toNat]? = some v ∧
      (Operation.index xs (.int i)).run h = (.ok v, h)
  /-- every other index is refused -/
  outside {i : Int} (hi : ¬(-items.length ≤ i ∧ i < items.length)) :
    (Operation.index xs (.int i)).run h =
      (.error (.indexOutOfRange (reportedIndex i) items.length), h)
  /-- a slice has the elements between its bounds, whatever they are -/
  slice (start stop : Option Int) :
    ∃ ys g, (Operation.slice xs start stop).run h = (.ok ys, g) ∧ h.Grows g ∧
      ys.isSequence = true ∧ g.iterate ys = .ok (partOf start stop items)
  /-- the slice up to a bound, and the slice from there on added to it, is everything -/
  halves (a : Int) :
    ∃ front back whole g₁ g₂ g₃, (Operation.slice xs none (some a)).run h = (.ok front, g₁) ∧
      (Operation.slice xs (some a) none).run g₁ = (.ok back, g₂) ∧
      (Operation.add front back).run g₂ = (.ok whole, g₃) ∧
      whole.isSequence = true ∧ g₃.iterate whole = .ok items
  /-- a value that fits is inserted into a view between these slices, in the form that the view holds -/
  inserted {r : Ref .repeated} (hr : xs = .repeated r) (hthawed : (h.cell r).frozen = false)
    {x y : Value} {mid : Heap}
    (hx : (Script.normalize (h.cell r).kind x (h.cell r).config).run h = (.ok y, mid))
    (id : Nat) (receiver : String) (a : Int) :
    ∃ g, (Operation.call (.callable (.repeated id receiver r .insert)) [.int a, x] []).run h =
        (.ok .absent, g) ∧ h.Alters {⟨.repeated, r⟩} g ∧
      g.cell r =
        { h.cell r with items := partOf none (some a) items ++ y :: partOf (some a) none items }
  /-- a scalar that the view can hold is held as it is -/
  itself {r : Ref .repeated} (hr : xs = .repeated r) {s : Scalar}
    (hs : (h.cell r).kind.HoldsScalar s) (hnan : s.isNaN = false) :
    (Script.normalize (h.cell r).kind (s.toValue (h.cell r).kind) (h.cell r).config).run h =
      (.ok (s.toValue (h.cell r).kind), h)
  /-- no insertion is refused for its index -/
  refused {r : Ref .repeated} (hr : xs = .repeated r) {x : Value} {id : Nat} {receiver : String} {a : Int}
    {e : Error} {g : Heap}
    (hrun : (Operation.call (.callable (.repeated id receiver r .insert)) [.int a, x] []).run h =
      (.error e, g)) :
    (h.cell r).frozen = true ∨
      ∃ mid, (Script.normalize (h.cell r).kind x (h.cell r).config).run h = (.error e, mid)
  /-- counted in machine integers it is all the same: no sum overflows, and there is an element at each
  position that is looked at -/
  words (hlength : items.length < 2 ^ 64) :
    (∀ i : BitVec 128,
      InWords.item? items i = some ((Operation.index xs (.int i.toInt)).run h).1) ∧
    (∀ start stop : Option (BitVec 128), InWords.slice? items start stop =
      some (partOf (start.map (·.toInt)) (stop.map (·.toInt)) items)) ∧
    ∀ (a : BitVec 128) (x : Value), InWords.insert? items a x =
      some (partOf none (some a.toInt) items ++ x :: partOf (some a.toInt) none items)

/-- Two lists are added to a new one. -/
theorem add_lists (h : Heap) (p q : Ref .list) : ∃ whole g,
    (Operation.add (.list p) (.list q)).run h = (.ok whole, g) ∧ whole.isSequence = true ∧
      g.iterate whole = .ok ((h.cell p).items ++ (h.cell q).items) := by
  refine ⟨_, h.alloc .list { items := (h.cell p).items ++ (h.cell q).items }, rfl, rfl, ?_⟩
  exact congrArg (fun c : ListCell => Except.ok c.items) (cell_alloc_self h (s := .list) _)

section

variable (hxs : xs.isSequence = true) (hitems : h.iterate xs = .ok items)

include hxs hitems

theorem run_index (i : Int) :
    (Operation.index xs (.int i)).run h = ((place i items).map (items.getD · .absent), h) := by
  have hitem : (Script.itemAt xs (.int i) items).run h =
      ((place i items).map (items.getD · .absent), h) := by
    rw [← resolveIndex_eq]
    simp only [Script.itemAt, Script.indexOperand, Script.run_bind, Script.run_pure, Script.run_ofExcept]
    rcases resolveIndex i items.length with e | position <;> rfl
  rw [← hitem]
  cases xs <;> cases hxs
  case tuple.refl => cases hitems; rfl
  case list.refl r => cases hitems; rfl
  case repeated.refl r => cases hitems; rfl

/-- A slice of a tuple is a tuple, and one of a list or a view is a new list. -/
theorem run_slice (start stop : Option Int) :
    xs = .tuple items ∧
        (Operation.slice xs start stop).run h = (.ok (.tuple (partOf start stop items)), h) ∨
      (∀ other, xs ≠ .tuple other) ∧
        (Operation.slice xs start stop).run h =
          (.ok (.list (h.fresh .list)), h.alloc .list { items := partOf start stop items }) := by
  rw [← sliceOf_eq_partOf]
  cases xs <;> cases hxs
  case tuple.refl => cases hitems; exact .inl ⟨rfl, rfl⟩
  case list.refl r => cases hitems; exact .inr ⟨nofun, rfl⟩
  case repeated.refl r => cases hitems; exact .inr ⟨nofun, rfl⟩

theorem slice_ok (start stop : Option Int) :
    ∃ ys g, (Operation.slice xs start stop).run h = (.ok ys, g) ∧ h.Grows g ∧
      ys.isSequence = true ∧ g.iterate ys = .ok (partOf start stop items) := by
  rcases run_slice hxs hitems start stop with ⟨-, hrun⟩ | ⟨-, hrun⟩
  · exact ⟨_, _, hrun, .refl ∅ h, rfl, rfl⟩
  · refine ⟨_, _, hrun, grows_alloc h (s := .list) nofun _, rfl, ?_⟩
    rw [iterate, cell_alloc_self]

theorem halves_ok (hwithin : xs.Within h) (a : Int) :
    ∃ front back whole g₁ g₂ g₃, (Operation.slice xs none (some a)).run h = (.ok front, g₁) ∧
      (Operation.slice xs (some a) none).run g₁ = (.ok back, g₂) ∧
      (Operation.add front back).run g₂ = (.ok whole, g₃) ∧
      whole.isSequence = true ∧ g₃.iterate whole = .ok items := by
  rcases run_slice hxs hitems none (some a) with ⟨rfl, hfront⟩ | ⟨hne, hfront⟩
  · rcases run_slice hxs hitems (some a) none with ⟨-, hback⟩ | ⟨hne, -⟩
    · refine ⟨_, _, _, _, _, _, hfront, hback, rfl, rfl, ?_⟩
      rw [iterate, partOf_append_partOf]
    · exact absurd rfl (hne items)
  · -- the second slice reads the sequence on a heap that has the first one
    have hgrows := grows_alloc h (s := .list) nofun { items := partOf none (some a) items }
    rcases run_slice hxs (hgrows.iterate hwithin hitems) (some a) none with ⟨htuple, -⟩ | ⟨-, hback⟩
    · exact absurd htuple (hne items)
    · obtain ⟨whole, g, hadd, hwhole, hsum⟩ := add_lists _ (h.fresh .list) (Heap.fresh _ .list)
      refine ⟨_, _, whole, _, _, g, hfront, hback, hadd, hwhole, ?_⟩
      rw [hsum, cell_alloc_self]
      have hold := has_fresh_alloc h .list { items := partOf none (some a) items }
      rw [cell_alloc_of_has (p := ⟨.list, h.fresh .list⟩) _ _ hold, cell_alloc_self]
      exact congrArg Except.ok (partOf_append_partOf a items)

end

section

variable {r : Ref .repeated} {x y : Value} {mid : Heap}

/-- What a call of the method does to a view that is not frozen. -/
theorem run_insert (hthawed : (h.cell r).frozen = false) (id : Nat) (receiver : String) (a : Int) :
    (Operation.call (.callable (.repeated id receiver r .insert)) [.int a, x] []).run h =
      Script.run (do
        let y ← Script.normalize (h.cell r).kind x (h.cell r).config
        Script.put r { h.cell r with
          items := partOf none (some a) (h.cell r).items ++ y :: partOf (some a) none (h.cell r).items }
        return .absent) h := by
  have hinsert : (Script.insert r a x).run h = Script.run (do
      let y ← Script.normalize (h.cell r).kind x (h.cell r).config
      Script.put r { h.cell r with
        items := partOf none (some a) (h.cell r).items ++ y :: partOf (some a) none (h.cell r).items }) h := by
    rw [partOf_until, partOf_from, ← sliceBounds_eq]
    exact ListEdit.run_thawed hthawed "insert into" _
  have hcall : (Operation.call (.callable (.repeated id receiver r .insert)) [.int a, x] []).run h =
      Script.run (do Script.insert r a x; return .absent) h := rfl
  rw [hcall, Script.run_bind, hinsert, Script.run_bind, Script.run_bind]
  rcases (Script.normalize (h.cell r).kind x (h.cell r).config).run h with ⟨_ | _, _⟩ <;> rfl

theorem inserted_ok (hr : h.Has ⟨.repeated, r⟩) (hthawed : (h.cell r).frozen = false)
    (hx : (Script.normalize (h.cell r).kind x (h.cell r).config).run h = (.ok y, mid))
    (id : Nat) (receiver : String) (a : Int) :
    ∃ g, (Operation.call (.callable (.repeated id receiver r .insert)) [.int a, x] []).run h =
        (.ok .absent, g) ∧ h.Alters {⟨.repeated, r⟩} g ∧
      g.cell r = { h.cell r with
        items := partOf none (some a) (h.cell r).items ++ y :: partOf (some a) none (h.cell r).items } := by
  have hgrows : h.Grows mid := by
    obtain ⟨s, hs, hadopt⟩ := Script.normalize_ok.1 hx
    have hgrows := grows_adopt_of_check (check_ok.2 hs) h
    rwa [hadopt] at hgrows
  refine ⟨_, (run_insert hthawed id receiver a).trans (Script.bind_ok.2 ⟨y, mid, hx, rfl⟩), ?_, ?_⟩
  · apply hgrows.alters (alters_put mid r _)
    intro p hp
    rwa [Set.mem_singleton_iff.1 hp]
  · exact cell_put_self mid r _ (hgrows.has hr)

theorem frozen_or_of_insert_error {id : Nat} {receiver : String} {a : Int} {e : Error} {g : Heap}
    (hrun : (Operation.call (.callable (.repeated id receiver r .insert)) [.int a, x] []).run h =
      (.error e, g)) :
    (h.cell r).frozen = true ∨
      ∃ mid, (Script.normalize (h.cell r).kind x (h.cell r).config).run h = (.error e, mid) := by
  rcases hfrozen : (h.cell r).frozen with _ | _
  · rw [run_insert hfrozen id receiver a] at hrun
    rcases Script.bind_error.1 hrun with hx | ⟨_, _, _, hput⟩
    · exact .inr ⟨g, hx⟩
    · cases hput
  · exact .inl rfl

end

/-- **Positions mean what they should** in every tuple, list and view of a list field. For each integer,
an index names the element there, from the end if it is negative, or is refused if it is out of range; a
slice never fails and has the elements between its bounds, which are moved into the sequence; the slices
before and after a bound make up the sequence; and what is inserted goes between these two. In machine
integers it is all the same. -/
theorem sequence_positioned (hxs : xs.isSequence = true) (hitems : h.iterate xs = .ok items)
    (hwithin : xs.Within h) : h.Positioned xs items where
  inside {i} hlow hhigh := by
    have hplace := ListEdit.place_inside hlow hhigh
    have hlt : (if i < 0 then items.length + i else i).toNat < items.length := by
      split <;> omega
    refine ⟨_, List.getElem?_eq_getElem hlt, ?_⟩
    rw [run_index hxs hitems, hplace]
    simp [Except.map, hlt]
  outside hi := by
    rw [run_index hxs hitems, ListEdit.place_error.2 ⟨hi, rfl⟩]
    rfl
  slice := slice_ok hxs hitems
  halves := halves_ok hxs hitems hwithin
  inserted {r} hr hthawed x y mid hx id receiver a := by
    -- only a view has an insert method
    subst hr
    cases hitems
    exact inserted_ok (hwithin.has rfl) hthawed hx id receiver a
  itself _ _ hs hnan := Script.normalize_ok.2 ⟨_, Kind.toStored_toValue hs hnan, rfl⟩
  refused _ _ _ _ _ _ _ hrun := frozen_or_of_insert_error hrun
  words hlength := by
    refine ⟨fun i => ?_, InWords.slice?_eq hlength, InWords.insert?_eq hlength⟩
    rw [InWords.item?_eq hlength, run_index hxs hitems]

end Heap

namespace Sample

/-- A view of three items. -/
def threeItems : Heap where
  repeateds := #[{ field := itemsField, items := [.int 1, .int 2, .int 3], config := {} }]

/-- **The least and the greatest integer of 128 bits** are out of range as indices, and good bounds. -/
theorem extremes_positioned :
    (Operation.index (.repeated ⟨0⟩) (.int (-3))).run threeItems = (.ok (.int 1), threeItems) ∧
    (Operation.index (.repeated ⟨0⟩) (.int (-2 ^ 127))).run threeItems =
      (.error (.indexOutOfRange (2 ^ 63 - 1) 3), threeItems) ∧
    (∃ ys g, (Operation.slice (.repeated ⟨0⟩) (some (-2 ^ 127)) (some (2 ^ 127 - 1))).run threeItems =
      (.ok ys, g) ∧ g.iterate ys = .ok [.int 1, .int 2, .int 3]) ∧
    (∃ g, (Operation.call (.callable (.repeated 0 "list<int32>" ⟨0⟩ .insert))
        [.int (2 ^ 127 - 1), .int 4] []).run threeItems = (.ok .absent, g) ∧
      (g.cell (⟨0⟩ : Ref .repeated)).items = [.int 1, .int 2, .int 3, .int 4]) ∧
    InWords.slice? [.int 1, .int 2, .int 3] (some (BitVec.intMin 128)) (some (BitVec.intMax 128)) =
      some [.int 1, .int 2, .int 3] := by
  have hwithin : (Value.repeated ⟨0⟩).Within threeItems := by
    apply (given ∅ threeItems (.repeated ⟨0⟩) nofun _ rfl nofun).1
    intro p hp
    cases hp
    exact (by decide : 0 < threeItems.repeateds.size)
  have hpositioned : threeItems.Positioned (.repeated ⟨0⟩) [.int 1, .int 2, .int 3] :=
    Heap.sequence_positioned rfl rfl hwithin
  have hfour : (Script.normalize (.scalar .int32) (.int 4) {}).run threeItems = (.ok (.int 4), threeItems) :=
    hpositioned.itself rfl (s := .i32 4) rfl rfl
  refine ⟨?_, hpositioned.outside (by decide), ?_, ?_, ?_⟩
  · obtain ⟨v, hv, hrun⟩ := hpositioned.inside (i := -3) (by decide) (by decide)
    cases hv
    exact hrun
  · obtain ⟨ys, g, hrun, -, -, hys⟩ := hpositioned.slice (some (-2 ^ 127)) (some (2 ^ 127 - 1))
    exact ⟨ys, g, hrun, hys⟩
  · obtain ⟨g, hrun, -, hcell⟩ := hpositioned.inserted rfl rfl hfour 0 "list<int32>" (2 ^ 127 - 1)
    refine ⟨g, hrun, ?_⟩
    rw [hcell]
    rfl
  · exact (hpositioned.words (by decide)).2.1 _ _

end Sample

end Protoscript
