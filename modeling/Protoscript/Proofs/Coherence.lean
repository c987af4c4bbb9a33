import Protoscript.Proofs.Integral
import Protoscript.Proofs.Symmetry

/-!
# Equality and hashes of keys

A key that equals another should have its hash and equal what that one equals. Of integers and doubles
this is true only as far as rounding tells the integers apart: an integer equals the double that it is
rounded to, and so do all integers that are rounded to it, but the double is hashed as one of them.

* `Heap.IsKey` — values that can be hashed, without NaN;
* `Heap.Coherent` — whether what equals a key has its hash and equals nothing that the key does not;
* `Heap.coherent_iff_unrounded` — this is so if and only if no integer is rounded to a number of the
  key but the one that the number is hashed as.
-/

namespace Protoscript

namespace Value

/-- Whether a number is an integer of 128 bits or no NaN. -/
def Plain : Value → Prop
  | int n => Is128 n
  | float x => x.isNaN = false
  | _ => True

/-- Whether the integers that are rounded to a number are none but the one that it is hashed as. -/
def Unrounded : Value → Prop
  | int n => (Double.ofInt n).Faithful
  | float x => x.Faithful
  | _ => True

end Value

namespace Heap

/-- Whether a value can be hashed and is made of numbers that can be compared. -/
structure IsKey (h : Heap) (v : Value) : Prop where
  hashable : ∃ bytes, h.hashBytes v = .ok bytes
  plain : v.All Value.Plain

/-- Whether what equals a key has its hash, and equals nothing that the key does not. -/
def Coherent (h : Heap) (a : Value) : Prop :=
  ∀ b, h.IsKey b → h.equals a b = .ok true → h.hashBytes b = h.hashBytes a ∧
    ∀ c, h.IsKey c → h.equals b c = .ok true → h.equals a c = .ok true

variable {h : Heap} {a b c : Value} {items : List Value}

/-! ## Tuples -/

theorem tupleHashBytes_ok : (∃ bytes, h.tupleHashBytes items = .ok bytes) ↔
    ∀ v ∈ items, ∃ bytes, h.hashBytes v = .ok bytes := by
  induction items with
  | nil => simp [tupleHashBytes]
  | cons v rest ih =>
    rw [List.forall_mem_cons, ← ih, tupleHashBytes]
    rcases h.hashBytes v with _ | bytes
    · simp
    · rcases h.tupleHashBytes rest with _ | _ <;> simp [Except.map]

theorem tupleHashBytes_append {xs ys : List Value} {p q : List UInt8}
    (hx : h.tupleHashBytes xs = .ok p) (hy : h.tupleHashBytes ys = .ok q) :
    h.tupleHashBytes (xs ++ ys) = .ok (p ++ q) := by
  induction xs generalizing p with
  | nil =>
    cases hx
    exact hy
  | cons x xs ih =>
    rw [List.cons_append]
    rw [tupleHashBytes] at hx ⊢
    rcases hbytes : h.hashBytes x with _ | bytes <;> rw [hbytes] at hx
    · cases hx
    · obtain ⟨rest, hrest, rfl⟩ := Except.map_ok.1 hx
      simp [ih hrest, Except.map]

theorem tupleHashBytes_congr {xs ys : List Value}
    (hxy : List.Forall₂ (fun x y => h.hashBytes y = h.hashBytes x) xs ys) :
    h.tupleHashBytes ys = h.tupleHashBytes xs := by
  induction hxy with
  | nil => rfl
  | cons hv _ ih => rw [tupleHashBytes, tupleHashBytes, hv, ih]

theorem isKey_tuple : h.IsKey (.tuple items) ↔ ∀ v ∈ items, h.IsKey v := by
  constructor
  · intro hkey v hv
    have hhash := hkey.hashable
    rw [hashBytes] at hhash
    exact ⟨tupleHashBytes_ok.1 hhash v hv, Value.all_tuple.1 hkey.plain v hv⟩
  · intro hkeys
    refine ⟨?_, Value.all_tuple.2 fun v hv => (hkeys v hv).plain⟩
    rw [hashBytes]
    exact tupleHashBytes_ok.2 fun v hv => (hkeys v hv).hashable

theorem equals_tuple {xs ys : List Value} : h.equals (.tuple xs) (.tuple ys) = .ok true ↔
    List.Forall₂ (fun x y => h.equals x y = .ok true) xs ys := by
  unfold equals
  rw [equalsWithin_tuple, ← listEquals_ok_true]
  split
  · rfl
  · rename_i hlen
    refine ⟨nofun, fun hlist => absurd (listEquals_ok_true.1 hlist).length_eq hlen⟩

/-- Only a tuple equals a tuple. -/
theorem exists_tuple_of_equals (hab : h.equals (.tuple items) b = .ok true) : ∃ ys, b = .tuple ys := by
  cases b with
  | tuple ys => exact ⟨ys, rfl⟩
  | _ =>
    unfold equals at hab
    rw [equalsWithin_flat (by simp) (by simp [sequenceItems?]) (by simp [mappingEntries?])] at hab
    cases hab

/-- What can be hashed and is no tuple is compared as what refers to no others. -/
theorem equals_plain (ha : ∃ bytes, h.hashBytes a = .ok bytes) (htuple : ∀ items, a ≠ .tuple items)
    (b : Value) : h.equals a b = h.flatEquals a b := by
  obtain ⟨bytes, hbytes⟩ := ha
  refine equalsWithin_leaf htuple ?_ ?_
  all_goals cases a <;> first | rfl | simp [hashBytes] at hbytes

/-- A key equals itself. -/
theorem IsKey.equals_self {a : Value} (ha : h.IsKey a) : h.equals a a = .ok true := by
  by_cases htuple : ∃ items, a = .tuple items
  · obtain ⟨items, rfl⟩ := htuple
    refine equals_tuple.2 (List.forall₂_same.2 fun v hv => ?_)
    have hlt := List.sizeOf_lt_of_mem hv
    exact IsKey.equals_self (isKey_tuple.1 ha v hv)
  · push Not at htuple
    rw [equals_plain ha.hashable htuple]
    have hplain := (Value.all_iff htuple).1 ha.plain
    cases a
    case float x => rw [flatEquals, Double.equals_self hplain]
    case tuple items => exact absurd rfl (htuple items)
    case list | dict | «repeated» | map =>
      obtain ⟨_, hbytes⟩ := ha.hashable
      simp [hashBytes] at hbytes
    all_goals simp [flatEquals, EnumValue.equals]
termination_by sizeOf a

/-! ## Coherent tuples -/

/-- Lists that differ at one place are related item by item if the items there are. -/
theorem forall₂_middle {α : Type} {R : α → α → Prop} {before after : List α} {x y : α}
    (hbefore : ∀ v ∈ before, R v v) (hafter : ∀ v ∈ after, R v v) :
    List.Forall₂ R (before ++ x :: after) (before ++ y :: after) ↔ R x y := by
  induction before with
  | nil => simpa using fun _ => hafter
  | cons v rest ih =>
    rw [List.forall_mem_cons] at hbefore
    simp [hbefore.1, ih hbefore.2]

/-- Relations item by item can be chained. -/
theorem forall₂_chain {α : Type} {R S T : α → α → Prop} {xs ys zs : List α}
    (hxy : List.Forall₂ R xs ys) (hyz : List.Forall₂ S ys zs)
    (hRST : ∀ x ∈ xs, ∀ y ∈ ys, ∀ z ∈ zs, R x y → S y z → T x z) : List.Forall₂ T xs zs := by
  induction hxy generalizing zs with
  | nil =>
    cases hyz
    exact .nil
  | cons hR _ ih =>
    cases hyz with
    | cons hS hrest =>
      refine .cons (hRST _ List.mem_cons_self _ List.mem_cons_self _ List.mem_cons_self hR hS) ?_
      exact ih hrest fun x hx y hy z hz =>
        hRST x (List.mem_cons_of_mem _ hx) y (List.mem_cons_of_mem _ hy) z (List.mem_cons_of_mem _ hz)

/-- A tuple is coherent if its items are, and only then. -/
theorem coherent_tuple (hkey : h.IsKey (.tuple items)) :
    h.Coherent (.tuple items) ↔ ∀ v ∈ items, h.Coherent v := by
  have hkeys := isKey_tuple.1 hkey
  constructor
  · intro hcoherent v hv b hb hvb
    obtain ⟨before, after, rfl⟩ := List.append_of_mem hv
    -- the tuple with another item in the place of this one
    have hother {w : Value} (hw : h.IsKey w) : h.IsKey (.tuple (before ++ w :: after)) := by
      refine isKey_tuple.2 fun u hu => ?_
      rcases List.mem_append.1 hu with hu | hu
      · exact hkeys u (List.mem_append_left _ hu)
      · rcases List.mem_cons.1 hu with rfl | hu
        · exact hw
        · exact hkeys u (List.mem_append_right _ (List.mem_cons_of_mem _ hu))
    have hself {u : Value} (hu : u ∈ before ++ after) : h.equals u u = .ok true := by
      refine (hkeys u ?_).equals_self
      rcases List.mem_append.1 hu with hu | hu
      · exact List.mem_append_left _ hu
      · exact List.mem_append_right _ (List.mem_cons_of_mem _ hu)
    have hequal {u w : Value} : h.equals (.tuple (before ++ u :: after)) (.tuple (before ++ w :: after)) =
        .ok true ↔ h.equals u w = .ok true :=
      equals_tuple.trans (forall₂_middle (fun u hu => hself (List.mem_append_left _ hu))
        fun u hu => hself (List.mem_append_right _ hu))
    obtain ⟨hhash, htrans⟩ := hcoherent _ (hother hb) (hequal.2 hvb)
    refine ⟨?_, fun c hc hbc => hequal.1 (htrans _ (hother hc) (hequal.2 hbc))⟩
    -- the bytes before and after the item are the same
    obtain ⟨first, hfirst⟩ := tupleHashBytes_ok.2 fun u hu => (hkeys u (List.mem_append_left _ hu)).hashable
    obtain ⟨last, hlast⟩ := tupleHashBytes_ok.2 fun u hu =>
      (hkeys u (List.mem_append_right _ (List.mem_cons_of_mem _ hu))).hashable
    have hbytes {w : Value} {bytes : List UInt8} (hw : h.hashBytes w = .ok bytes) :
        h.hashBytes (.tuple (before ++ w :: after)) = .ok (first ++ (bytes ++ last)) := by
      rw [hashBytes]
      refine tupleHashBytes_append hfirst ?_
      rw [tupleHashBytes, hw, hlast]
      rfl
    obtain ⟨old, hold⟩ := (hkeys v hv).hashable
    obtain ⟨new, hnew⟩ := hb.hashable
    rw [hbytes hold, hbytes hnew] at hhash
    rw [hold, hnew, List.append_cancel_right (List.append_cancel_left (Except.ok.inj hhash))]
  · intro hitems b hb hab
    obtain ⟨ys, rfl⟩ := exists_tuple_of_equals hab
    have hys := isKey_tuple.1 hb
    have hequal := equals_tuple.1 hab
    refine ⟨?_, fun c hc hbc => ?_⟩
    · rw [hashBytes, hashBytes]
      exact tupleHashBytes_congr
        (forall₂_of_mem hequal fun x hx y hy hxy => (hitems x hx y (hys y hy) hxy).1)
    · obtain ⟨zs, rfl⟩ := exists_tuple_of_equals hbc
      have hzs := isKey_tuple.1 hc
      exact equals_tuple.2 (forall₂_chain hequal (equals_tuple.1 hbc) fun x hx y hy z hz hxy hyz =>
        (hitems x hx y (hys y hy) hxy).2 z (hzs z hz) hyz)

/-! ## Coherent numbers -/

/-- The bytes of a whole number are those of an integer. -/
theorem hashBytes_float {x : Double} {n : Int} (hwhole : x.isIntegral = true) (hn : x.truncate? = some n) :
    h.hashBytes (.float x) = .ok (integerBytes 16 (saturate128 n)) := by
  rw [hashBytes, hn]
  simp [hwhole]

/-- Doubles at one place have one hash. -/
theorem hashBytes_of_equals {x y : Double} (hxy : x.equals y = true) :
    h.hashBytes (.float y) = h.hashBytes (.float x) := by
  by_cases hwhole : x.isIntegral = true
  · obtain ⟨n, hn⟩ := Double.exists_truncate? hwhole
    rw [hashBytes_float hwhole hn, hashBytes_float ((Double.isIntegral_of_equals hxy).symm.trans hwhole)
      ((Double.truncate?_of_equals hxy).symm.trans hn)]
  · rw [Double.eq_of_equals hxy (by simpa using hwhole)]

/-- A double that an integer is rounded to has the hash of the integer if it is hashed as it. -/
theorem hashBytes_int_iff {n : Int} {x : Double} (hn : Is128 n) (heq : (Double.ofInt n).equals x = true) :
    h.hashBytes (.float x) = h.hashBytes (.int n) ↔ x.truncate?.map saturate128 = some n := by
  have hwhole : x.isIntegral = true :=
    (Double.isIntegral_of_equals heq).symm.trans (Double.isIntegral_ofInt (natAbs_le_of_is128 hn))
  obtain ⟨t, ht⟩ := Double.exists_truncate? hwhole
  rw [hashBytes_float hwhole ht, hashBytes, ht, Option.map_some, Except.ok.injEq, Option.some.injEq]
  exact ⟨eq_of_integerBytes (is128_saturate128 t) hn, fun h => h ▸ rfl⟩

theorem isKey_int {n : Int} (hn : Is128 n) : h.IsKey (.int n) :=
  ⟨⟨_, by rw [hashBytes]⟩, (Value.all_iff (by simp)).2 hn⟩

theorem isKey_float {x : Double} (hx : x.isNaN = false) : h.IsKey (.float x) := by
  refine ⟨?_, (Value.all_iff (by simp)).2 hx⟩
  rw [hashBytes]
  split
  · split <;> exact ⟨_, rfl⟩
  · exact ⟨_, rfl⟩

theorem equals_int (n : Int) (b : Value) : h.equals (.int n) b = h.flatEquals (.int n) b :=
  equals_plain ⟨_, by rw [hashBytes]⟩ (by simp) b

theorem equals_float (x : Double) (b : Value) : h.equals (.float x) b = h.flatEquals (.float x) b :=
  equalsWithin_leaf nofun rfl rfl

/-- What an integer equals. -/
theorem equals_int_iff {n : Int} : h.equals (.int n) b = .ok true ↔
    b = .int n ∨ ∃ x, b = .float x ∧ (Double.ofInt n).equals x = true := by
  rw [equals_int]
  cases b <;> simp [flatEquals]
  exact eq_comm

/-- What a double equals. -/
theorem equals_float_iff {x : Double} : h.equals (.float x) b = .ok true ↔
    (∃ m, b = .int m ∧ (Double.ofInt m).equals x = true) ∨ ∃ y, b = .float y ∧ x.equals y = true := by
  rw [equals_float]
  cases b <;> simp [flatEquals]

theorem coherent_int {n : Int} (hn : Is128 n) : h.Coherent (.int n) ↔ (Double.ofInt n).Faithful := by
  constructor
  · intro hcoherent m hm heq
    have hself := Double.equals_self (Double.isNaN_of_equals ((Double.equals_comm _ _).trans heq))
    obtain ⟨hhash, htrans⟩ := hcoherent _
      (isKey_float (Double.isNaN_of_equals hself)) (equals_int_iff.2 (.inr ⟨_, rfl, hself⟩))
    have hmn := htrans _ (isKey_int hm) (equals_float_iff.2 (.inl ⟨m, rfl, heq⟩))
    obtain rfl : m = n := by simpa [equals_int_iff] using hmn
    exact (hashBytes_int_iff hn heq).1 hhash
  · intro hfaithful b hb hab
    obtain rfl | ⟨x, rfl, hx⟩ := equals_int_iff.1 hab
    · exact ⟨rfl, fun _ _ hc => hc⟩
    have hhash : x.truncate?.map saturate128 = some n := by
      rw [← Double.truncate?_of_equals hx]
      exact hfaithful n hn (Double.equals_self (Double.isNaN_of_equals hx))
    refine ⟨(hashBytes_int_iff hn hx).2 hhash, fun c hc hbc => ?_⟩
    obtain ⟨m, rfl, hm⟩ | ⟨y, rfl, hy⟩ := equals_float_iff.1 hbc
    · have hmn := hfaithful m ((Value.all_iff (by simp)).1 hc.plain)
        (Double.equals_trans hm ((Double.equals_comm _ _).trans hx))
      rw [Double.truncate?_of_equals hx, hhash] at hmn
      exact equals_int_iff.2 (.inl (congrArg Value.int (Option.some.inj hmn).symm))
    · exact equals_int_iff.2 (.inr ⟨y, rfl, Double.equals_trans hx hy⟩)

theorem coherent_float {x : Double} : h.Coherent (.float x) ↔ x.Faithful := by
  constructor
  · intro hcoherent m hm heq
    obtain ⟨hhash, -⟩ := hcoherent _ (isKey_int hm) (equals_float_iff.2 (.inl ⟨m, rfl, heq⟩))
    exact (hashBytes_int_iff hm heq).1 hhash.symm
  · intro hfaithful b hb hab
    obtain ⟨m, rfl, hm⟩ | ⟨y, rfl, hy⟩ := equals_float_iff.1 hab
    · have hrange : Is128 m := (Value.all_iff (by simp)).1 hb.plain
      refine ⟨((hashBytes_int_iff hrange hm).2 (hfaithful m hrange hm)).symm, fun c hc hbc => ?_⟩
      obtain rfl | ⟨y, rfl, hy⟩ := equals_int_iff.1 hbc
      · exact hab
      · refine equals_float_iff.2 (.inr ⟨y, rfl, ?_⟩)
        exact Double.equals_trans ((Double.equals_comm _ _).trans hm) hy
    · refine ⟨hashBytes_of_equals hy, fun c hc hbc => ?_⟩
      obtain ⟨m, rfl, hm⟩ | ⟨z, rfl, hz⟩ := equals_float_iff.1 hbc
      · refine equals_float_iff.2 (.inl ⟨m, rfl, ?_⟩)
        exact Double.equals_trans hm ((Double.equals_comm _ _).trans hy)
      · exact equals_float_iff.2 (.inr ⟨z, rfl, Double.equals_trans hy hz⟩)

/-! ## Other keys -/

/-- Values that are equal and no numbers are equal to the same values and have one hash. -/
theorem flatEquals_congr (ha : ∃ bytes, h.hashBytes a = .ok bytes) (htuple : ∀ items, a ≠ .tuple items)
    (hint : ∀ n, a ≠ .int n) (hfloat : ∀ x, a ≠ .float x) (hab : h.flatEquals a b = .ok true) :
    h.hashBytes b = h.hashBytes a ∧ (∀ items, b ≠ .tuple items) ∧
      ∀ c, h.flatEquals b c = h.flatEquals a c := by
  obtain ⟨bytes, hbytes⟩ := ha
  cases a
  case tuple items => exact absurd rfl (htuple items)
  case int n => exact absurd rfl (hint n)
  case float x => exact absurd rfl (hfloat x)
  case list | dict | message | «repeated» | map => simp [hashBytes] at hbytes
  all_goals
    cases b <;> simp [flatEquals, EnumValue.equals] at hab
    refine ⟨by simp [hashBytes, hab], by simp, fun c => ?_⟩
    cases c <;> simp [flatEquals, EnumValue.equals, hab]

/-- A key that is neither a tuple nor a number is coherent. -/
theorem coherent_plain (ha : h.IsKey a) (htuple : ∀ items, a ≠ .tuple items) (hint : ∀ n, a ≠ .int n)
    (hfloat : ∀ x, a ≠ .float x) : h.Coherent a := by
  intro b hb hab
  rw [equals_plain ha.hashable htuple] at hab
  obtain ⟨hhash, hb', hequals⟩ := flatEquals_congr ha.hashable htuple hint hfloat hab
  refine ⟨hhash, fun c _ hbc => ?_⟩
  rwa [equals_plain ha.hashable htuple, ← hequals c, ← equals_plain hb.hashable hb']

/-- **A key is coherent if and only if no integer is rounded to a number of it but the one that the
number is hashed as.** -/
theorem coherent_iff_unrounded {a : Value} (ha : h.IsKey a) : h.Coherent a ↔ a.All Value.Unrounded := by
  cases a with
  | tuple items =>
    rw [coherent_tuple ha, Value.all_tuple]
    refine forall₂_congr fun v hv => ?_
    have hlt := List.sizeOf_lt_of_mem hv
    exact coherent_iff_unrounded (isKey_tuple.1 ha v hv)
  | int n => rw [Value.all_iff (by simp), coherent_int ((Value.all_iff (by simp)).1 ha.plain)]; rfl
  | float x => rw [Value.all_iff (by simp), coherent_float]; rfl
  | _ =>
    rw [Value.all_iff (by simp)]
    exact iff_of_true (coherent_plain ha (by simp) (by simp) (by simp)) trivial
termination_by sizeOf a

end Heap

namespace Sample

/-- A tuple of a small integer and of a tuple with a fraction. -/
def smallKey : Value := .tuple [.int 5, .tuple [.float ⟨0x4004000000000000⟩, .text "rank"]]

theorem smallKey_coherent : ({} : Heap).IsKey smallKey ∧ ({} : Heap).Coherent smallKey := by
  have hfraction : (⟨0x4004000000000000⟩ : Double).isIntegral = false := by decide +kernel
  have hnan : (⟨0x4004000000000000⟩ : Double).isNaN = false := by decide +kernel
  have htext : ({} : Heap).IsKey (.text "rank") :=
    ⟨⟨_, by rw [Heap.hashBytes]⟩, (Value.all_iff (by simp)).2 trivial⟩
  have hinner : ({} : Heap).IsKey (.tuple [.float ⟨0x4004000000000000⟩, .text "rank"]) :=
    Heap.isKey_tuple.2 (by simp [Heap.isKey_float hnan, htext])
  have hkey : ({} : Heap).IsKey smallKey :=
    Heap.isKey_tuple.2 (by simp [Heap.isKey_int (n := 5) ⟨by decide, by decide⟩, hinner])
  refine ⟨hkey, (Heap.coherent_iff_unrounded hkey).2 ?_⟩
  simp [smallKey, Value.all_tuple, Value.all_iff, Value.Unrounded, Double.faithful_ofInt,
    Double.faithful_of_not_isIntegral hfraction]

/-- The integer after `2 ^ 53` equals the double, which equals `2 ^ 53` and has another hash. -/
theorem next_not_coherent :
    ({} : Heap).IsKey (.int 9007199254740993) ∧ ({} : Heap).IsKey (.float large) ∧
      ({} : Heap).IsKey (.int 9007199254740992) ∧
      ({} : Heap).equals (.int 9007199254740993) (.float large) = .ok true ∧
      ({} : Heap).equals (.float large) (.int 9007199254740992) = .ok true ∧
      ({} : Heap).equals (.int 9007199254740993) (.int 9007199254740992) = .ok false ∧
      ({} : Heap).hashBytes (.int 9007199254740993) ≠ ({} : Heap).hashBytes (.float large) := by
  have hlarge : (Double.ofInt 9007199254740992).equals large = true := by decide +kernel
  have hnext : (Double.ofInt 9007199254740993).equals large = true := by decide +kernel
  have hrange : Is128 9007199254740993 := ⟨by decide, by decide⟩
  refine ⟨Heap.isKey_int hrange, Heap.isKey_float (by decide +kernel),
    Heap.isKey_int ⟨by decide, by decide⟩, Heap.equals_int_iff.2 (.inr ⟨_, rfl, hnext⟩),
    Heap.equals_float_iff.2 (.inl ⟨_, rfl, hlarge⟩), ?_, fun hhash => ?_⟩
  · rw [Heap.equals_int]
    rfl
  · have htruncated := (Heap.hashBytes_int_iff hrange hnext).1 hhash.symm
    exact absurd htruncated (by decide +kernel)

end Sample

end Protoscript
