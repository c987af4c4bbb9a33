import Protoscript.Proofs.Contents
import Protoscript.Proofs.Holding
import Protoscript.Proofs.Rounding

/-!
# Stored data up to what scripts cannot tell apart

Reading a list or map field of a message and writing it back stores an empty list or map where
nothing was stored, and may change the bits of a NaN. Nothing else changes: the canonical forms of
the messages are equal.

* `Message.canonical`, `Stored.canonical` — stored data without empty lists and maps, with one NaN;
* `Message.eq_of_stored?` — a conforming message is given by what its fields hold;
* `Message.has_canonical` — the same fields are set;
* `Likeness.canonical` — having one canonical form, as a comparison of messages;
* `Kind.scalarToStored_toValue` — a scalar that is read and stored again has the same canonical form.
-/

namespace Protoscript

/-! ## Canonical forms -/

/-- A scalar with one single for all that are no numbers. -/
def Scalar.canonical : Scalar → Scalar
  | .f32 x => .f32 (if x.isNaN then .ofMagnitude false (Layout.binary32.infinity + 1) else x)
  | s => s

/-- Whether a stored value is an empty list or map. -/
def Stored.isVoid : Stored → Bool
  | .list items => items.isEmpty
  | .map entries => entries.isEmpty
  | .scalar _ | .message _ => false

mutual

/-- A message with its fields in canonical form. -/
def Message.canonical : Message → Message
  | .mk d fields unknown => .mk d (Message.canonicalFields fields) unknown

/-- Fields in order of their numbers, without those that hold an empty list or map. -/
def Message.canonicalFields : List (Nat × Stored) → List (Nat × Stored)
  | [] => []
  | (number, value) :: rest =>
    if value.isVoid then eraseNumber number (Message.canonicalFields rest)
    else insertNumber number value.canonical (Message.canonicalFields rest)

/-- A stored value in canonical form. -/
def Stored.canonical : Stored → Stored
  | .scalar s => .scalar s.canonical
  | .message m => .message m.canonical
  | .list items => .list (Stored.canonicalItems items)
  | .map entries => .map (Stored.canonicalEntries entries)

/-- The items of a list in canonical form. -/
def Stored.canonicalItems : List Stored → List Stored
  | [] => []
  | value :: rest => value.canonical :: Stored.canonicalItems rest

/-- The entries of a map in canonical form. -/
def Stored.canonicalEntries : List (MapKey × Stored) → List (MapKey × Stored)
  | [] => []
  | (key, value) :: rest => (key, value.canonical) :: Stored.canonicalEntries rest

end

/-- What a field holds in canonical form: nothing in place of an empty list or map. -/
def Stored.canonical? (s : Stored) : Option Stored := if s.isVoid then none else some s.canonical

theorem Stored.canonicalItems_eq (items : List Stored) :
    Stored.canonicalItems items = items.map Stored.canonical := by
  induction items with
  | nil => rfl
  | cons s rest ih => rw [Stored.canonicalItems, List.map_cons, ih]

theorem Stored.canonicalEntries_eq (entries : List (MapKey × Stored)) :
    Stored.canonicalEntries entries = entries.map fun e => (e.1, e.2.canonical) := by
  induction entries with
  | nil => rfl
  | cons e rest ih =>
    obtain ⟨key, value⟩ := e
    rw [Stored.canonicalEntries, List.map_cons, ih]

/-! ## Numbered entries -/

/-- Entries in order are given by what is looked up. -/
theorem eq_of_lookupNumber {α : Type} {xs ys : List (Nat × α)}
    (hxs : (xs.map (·.1)).Pairwise (· < ·)) (hys : (ys.map (·.1)).Pairwise (· < ·))
    (h : ∀ number, lookupNumber number xs = lookupNumber number ys) : xs = ys := by
  -- a number before all others of a list is not found in it
  have missing (zs : List (Nat × α)) (n : Nat) (hz : ∀ k ∈ zs.map (·.1), n < k) :
      lookupNumber n zs = none := by
    rw [← Option.not_isSome_iff_eq_none, lookupNumber_isSome_iff]
    exact fun hmem => Nat.lt_irrefl n (hz n hmem)
  induction xs generalizing ys with
  | nil =>
    cases ys with
    | nil => rfl
    | cons y ys =>
      have := h y.1
      simp [lookupNumber] at this
  | cons x xs ih =>
    cases ys with
    | nil =>
      have := h x.1
      simp [lookupNumber] at this
    | cons y ys =>
      obtain ⟨hx, hxs⟩ := List.pairwise_cons.1 hxs
      obtain ⟨hy, hys⟩ := List.pairwise_cons.1 hys
      have hnumber : x.1 = y.1 := by
        rcases Nat.lt_trichotomy x.1 y.1 with hlt | heq | hlt
        · have hnone := missing (y :: ys) x.1 fun k hk => by
            rcases List.mem_cons.1 hk with rfl | hk
            · exact hlt
            · exact hlt.trans (hy k hk)
          have := (h x.1).trans hnone
          simp [lookupNumber] at this
        · exact heq
        · have hnone := missing (x :: xs) y.1 fun k hk => by
            rcases List.mem_cons.1 hk with rfl | hk
            · exact hlt
            · exact hlt.trans (hx k hk)
          have := (h y.1).symm.trans hnone
          simp [lookupNumber] at this
      have hvalue : x.2 = y.2 := by
        have := h x.1
        simpa [lookupNumber, hnumber] using this
      have hrest : xs = ys := by
        refine ih hxs hys fun number => ?_
        by_cases hn : x.1 = number
        · rw [missing _ _ (hn ▸ hx), missing _ _ (hn ▸ hnumber ▸ hy)]
        · have := h number
          rwa [lookupNumber, lookupNumber, if_neg hn, if_neg (hnumber ▸ hn)] at this
      rw [hrest, Prod.ext hnumber hvalue]

namespace Message

theorem sorted_canonicalFields (fields : List (Nat × Stored)) :
    ((canonicalFields fields).map (·.1)).Pairwise (· < ·) := by
  induction fields with
  | nil => exact .nil
  | cons e rest ih =>
    obtain ⟨number, value⟩ := e
    rw [canonicalFields]
    split
    · exact sorted_eraseNumber ih
    · exact sorted_insertNumber ih

/-- What the canonical form of a message holds under a number. -/
theorem lookupNumber_canonicalFields (number : Nat) (fields : List (Nat × Stored)) :
    lookupNumber number (canonicalFields fields) =
      (lookupNumber number fields).bind Stored.canonical? := by
  induction fields with
  | nil => rfl
  | cons e rest ih =>
    obtain ⟨n, value⟩ := e
    rw [canonicalFields, lookupNumber]
    by_cases hn : n = number
    · subst hn
      rw [if_pos rfl, Option.bind_some, Stored.canonical?]
      split
      · exact lookupNumber_eraseNumber_self _ _
      · exact lookupNumber_insertNumber_self _ _ _
    · rw [if_neg hn, ← ih]
      split
      · exact lookupNumber_eraseNumber_of_ne (Ne.symm hn) _
      · exact lookupNumber_insertNumber_of_ne (Ne.symm hn) _ _

@[simp] theorem descriptor_canonical (m : Message) : m.canonical.descriptor = m.descriptor := by
  cases m
  rfl

@[simp] theorem unknown_canonical (m : Message) : m.canonical.unknown = m.unknown := by
  cases m
  rfl

theorem lookupNumber_canonical (m : Message) (number : Nat) :
    lookupNumber number m.canonical.fields =
      (lookupNumber number m.fields).bind Stored.canonical? := by
  cases m
  exact lookupNumber_canonicalFields number _

theorem stored?_canonical (m : Message) (f : FieldDescriptor) :
    m.canonical.stored? f = (m.stored? f).bind Stored.canonical? :=
  m.lookupNumber_canonical f.number

/-- Messages have one canonical form if they hold the same under every number. -/
theorem canonical_eq {m n : Message} (hd : n.descriptor = m.descriptor) (hu : n.unknown = m.unknown)
    (hf : ∀ number, (lookupNumber number n.fields).bind Stored.canonical? =
      (lookupNumber number m.fields).bind Stored.canonical?) : n.canonical = m.canonical := by
  obtain ⟨d, fs, us⟩ := m
  obtain ⟨e, gs, vs⟩ := n
  obtain rfl : e = d := hd
  obtain rfl : vs = us := hu
  have hfields : canonicalFields gs = canonicalFields fs := by
    refine eq_of_lookupNumber (sorted_canonicalFields gs) (sorted_canonicalFields fs) fun number => ?_
    rw [lookupNumber_canonicalFields, lookupNumber_canonicalFields]
    exact hf number
  rw [canonical, canonical, hfields]

/-! ## Writing fields -/

theorem unknown_foldl_clear {m n : Message} (h : n.unknown = m.unknown) (fs : List FieldDescriptor) :
    (fs.foldl clear n).unknown = (fs.foldl clear m).unknown := by
  induction fs generalizing m n with
  | nil => exact h
  | cons f rest ih => exact ih (congrArg (eraseNumber f.number) h)

theorem lookupNumber_foldl_clear {m n : Message}
    (h : ∀ number, (lookupNumber number n.fields).bind Stored.canonical? =
      (lookupNumber number m.fields).bind Stored.canonical?) (fs : List FieldDescriptor)
    (number : Nat) : (lookupNumber number (fs.foldl clear n).fields).bind Stored.canonical? =
      (lookupNumber number (fs.foldl clear m).fields).bind Stored.canonical? := by
  induction fs generalizing m n with
  | nil => exact h number
  | cons f rest ih =>
    refine ih fun k => ?_
    unfold clear
    by_cases hk : k = f.number
    · rw [hk, fields_mk, fields_mk, lookupNumber_eraseNumber_self, lookupNumber_eraseNumber_self]
    · rw [fields_mk, fields_mk, lookupNumber_eraseNumber_of_ne hk, lookupNumber_eraseNumber_of_ne hk, h]

end Message

theorem Stored.isVoid_canonical (s : Stored) : s.canonical.isVoid = s.isVoid := by
  cases s with
  | scalar s => rfl
  | message m => rfl
  | list items =>
    rw [canonical, canonicalItems_eq, isVoid, isVoid]
    cases items <;> rfl
  | map entries =>
    rw [canonical, canonicalEntries_eq, isVoid, isVoid]
    cases entries <;> rfl

theorem Stored.canonical?_eq {s t : Stored} (h : t.canonical = s.canonical) :
    t.canonical? = s.canonical? := by
  unfold canonical?
  rw [← isVoid_canonical t, h, isVoid_canonical]

/-- Having one canonical form. -/
def Likeness.canonical : Likeness where
  message m n := n.canonical = m.canonical
  stored s t := t.canonical = s.canonical
  descriptor {m n} h := by
    rw [← n.descriptor_canonical, h, m.descriptor_canonical]
  refl _ := rfl
  scalar _ := rfl
  lift h := by rw [Stored.canonical, Stored.canonical, h]
  list {xs ys} h := by
    rw [Stored.canonical, Stored.canonical, Stored.canonicalItems_eq, Stored.canonicalItems_eq]
    congr 1
    induction h with
    | nil => rfl
    | cons hst _ ih => rw [List.map_cons, List.map_cons, hst, ih]
  map {es fs} h := by
    rw [Stored.canonical, Stored.canonical, Stored.canonicalEntries_eq, Stored.canonicalEntries_eq]
    congr 1
    induction h with
    | nil => rfl
    | cons hef _ ih => rw [List.map_cons, List.map_cons, hef.1, hef.2, ih]
  set {m n f s t} hm hs := by
    have hd : n.descriptor = m.descriptor := by
      rw [← n.descriptor_canonical, hm, m.descriptor_canonical]
    have hu : n.unknown = m.unknown := by
      rw [← n.unknown_canonical, hm, m.unknown_canonical]
    have hfields (number : Nat) : (lookupNumber number n.fields).bind Stored.canonical? =
        (lookupNumber number m.fields).bind Stored.canonical? := by
      rw [← n.lookupNumber_canonical, hm, m.lookupNumber_canonical]
    refine Message.canonical_eq ?_ ?_ fun number => ?_
    · rw [Message.descriptor_set, Message.descriptor_set, hd]
    · exact congrArg (eraseNumber f.number) (Message.unknown_foldl_clear hu f.siblings)
    · unfold Message.set
      by_cases hnumber : number = f.number
      · rw [hnumber, Message.fields_mk, Message.fields_mk, lookupNumber_insertNumber_self,
          lookupNumber_insertNumber_self]
        exact Stored.canonical?_eq hs
      · rw [Message.fields_mk, Message.fields_mk, lookupNumber_insertNumber_of_ne hnumber,
          lookupNumber_insertNumber_of_ne hnumber]
        exact Message.lookupNumber_foldl_clear hfields f.siblings number

/-! ## Conforming messages -/

namespace MessageDescriptor.Takes

variable {d : MessageDescriptor} {m n : Message} {f : FieldDescriptor}

/-- A conforming message holds nothing under numbers that are not declared. -/
theorem lookupNumber_eq_none (hm : d.Takes m) {number : Nat}
    (hno : ∀ f ∈ d.fields, f.number ≠ number) : lookupNumber number m.fields = none := by
  obtain ⟨rfl, hm⟩ := hm
  cases hm with
  | mk _ declared =>
    rw [← Option.not_isSome_iff_eq_none, lookupNumber_isSome_iff, List.mem_map]
    rintro ⟨e, he, rfl⟩
    obtain ⟨f, hf, hnumber⟩ := declared e he
    exact hno f hf hnumber

/-- **A conforming message is given by what its fields hold.** -/
theorem eq_of_stored? (hm : d.Takes m) (hn : d.Takes n) (hu : n.unknown = m.unknown)
    (h : ∀ f ∈ d.fields, n.stored? f = m.stored? f) : n = m := by
  have hlookup (number : Nat) : lookupNumber number n.fields = lookupNumber number m.fields := by
    by_cases hno : ∀ f ∈ d.fields, f.number ≠ number
    · rw [hn.lookupNumber_eq_none hno, hm.lookupNumber_eq_none hno]
    · simp only [ne_eq, not_forall, not_not] at hno
      obtain ⟨f, hf, rfl⟩ := hno
      exact h f hf
  have hd : n.descriptor = m.descriptor := hn.descriptor.trans hm.descriptor.symm
  have sorted {k : Message} (hk : k.Conforms) : (k.fields.map (·.1)).Pairwise (· < ·) := by
    cases hk with
    | mk sorted => exact sorted
  have hfields : n.fields = m.fields :=
    eq_of_lookupNumber (sorted hn.conforms) (sorted hm.conforms) hlookup
  cases m
  cases n
  simp_all

/-- So is its canonical form. -/
theorem canonical_eq (hm : d.Takes m) (hn : d.Takes n) (hu : n.unknown = m.unknown)
    (h : ∀ f ∈ d.fields, (n.stored? f).bind Stored.canonical? = (m.stored? f).bind Stored.canonical?) :
    n.canonical = m.canonical := by
  refine Message.canonical_eq (hn.descriptor.trans hm.descriptor.symm) hu fun number => ?_
  by_cases hno : ∀ f ∈ d.fields, f.number ≠ number
  · rw [hn.lookupNumber_eq_none hno, hm.lookupNumber_eq_none hno]
  · simp only [ne_eq, not_forall, not_not] at hno
    obtain ⟨f, hf, rfl⟩ := hno
    exact h f hf

/-- Writing a field takes away no unknown data. -/
theorem unknown_clear (hm : d.Takes m) (hf : f ∈ d.fields) : (m.clear f).unknown = m.unknown := by
  obtain ⟨rfl, hm⟩ := hm
  cases hm with
  | mk _ _ _ _ undeclared =>
    refine List.filter_eq_self.2 fun e he => bne_iff_ne.2 fun hnumber => ?_
    have hnone := undeclared e he
    unfold numbered? at hnone
    rw [Option.map_eq_none_iff, List.find?_eq_none] at hnone
    exact hnone f.info (mem_fields.1 hf).2 (beq_iff_eq.2 hnumber.symm)

theorem clear (hm : d.Takes m) : d.Takes (m.clear f) := ⟨hm.descriptor, hm.conforms.clear⟩

theorem unknown_set (hm : d.Takes m) (hf : f ∈ d.fields) (s : Stored) :
    (m.set f s).unknown = m.unknown := by
  have clearing {fs : List FieldDescriptor} (hfs : ∀ g ∈ fs, g ∈ d.fields) {k : Message}
      (hk : d.Takes k) : d.Takes (fs.foldl Message.clear k) ∧
        (fs.foldl Message.clear k).unknown = k.unknown := by
    induction fs generalizing k with
    | nil => exact ⟨hk, rfl⟩
    | cons g rest ih =>
      obtain ⟨htakes, heq⟩ := ih (fun x hx => hfs x (.tail _ hx)) (hk.clear (f := g))
      exact ⟨htakes, heq.trans (hk.unknown_clear (hfs g List.mem_cons_self))⟩
  have hsiblings : ∀ g ∈ f.siblings, g ∈ d.fields := fun g hg =>
    (mem_fields.1 hf).1 ▸ (FieldDescriptor.rivals_iff.1 (show f.Rivals g from hg)).2.1
  obtain ⟨htakes, heq⟩ := clearing hsiblings hm
  exact (htakes.unknown_clear hf).trans heq

end MessageDescriptor.Takes

/-! ## Which fields are set -/

theorem Single.isNaN_canonicalNaN :
    (Single.ofMagnitude false (Layout.binary32.infinity + 1)).isNaN = true := by
  decide

theorem Scalar.canonical_f32 (x : Single) : (Scalar.f32 x).canonical =
    .f32 (if x.isNaN then .ofMagnitude false (Layout.binary32.infinity + 1) else x) := rfl

/-- A NaN equals nothing. -/
theorem Single.equals_of_isNaN {x : Single} (hx : x.isNaN = true) (y : Single) :
    x.equals y = false := by
  have hdatum : x.datum = .nan := by
    unfold isNaN at hx
    exact beq_iff_eq.1 hx
  unfold equals position?
  rw [hdatum]
  rfl

theorem Scalar.equals_canonical (s t : Scalar) : s.canonical.equals t = s.equals t := by
  cases s with
  | f32 x =>
    rcases hx : x.isNaN with _ | _
    · rw [canonical_f32, hx]
      rfl
    · rw [canonical_f32, hx]
      cases t with
      | f32 y =>
        have hcanonical := Single.equals_of_isNaN Single.isNaN_canonicalNaN y
        exact hcanonical.trans (Single.equals_of_isNaN hx y).symm
      | _ => rfl
  | _ => rfl

theorem Stored.isDefaultOf_canonical (s : Stored) (f : FieldDescriptor) :
    s.canonical.isDefaultOf f = s.isDefaultOf f := by
  cases s with
  | scalar s =>
    rw [canonical, isDefaultOf, isDefaultOf]
    cases f.defaultScalar? with
    | none => rfl
    | some d => exact congrArg (!f.isList && !f.isMap && ·) (s.equals_canonical d)
  | message m => rfl
  | list items =>
    rw [canonical, canonicalItems_eq, isDefaultOf, isDefaultOf]
    cases items <;> rfl
  | map entries =>
    rw [canonical, canonicalEntries_eq, isDefaultOf, isDefaultOf]
    cases entries <;> rfl

/-- **The same fields are set** in a message and in its canonical form, if lists and maps have no
presence. -/
theorem Message.has_canonical {d : MessageDescriptor} {m : Message} {f : FieldDescriptor}
    (hm : d.Takes m) (hf : f ∈ d.fields) (hrepeated : f.info.isRepeated = true → f.hasPresence = false) :
    m.canonical.has f = m.has f := by
  unfold has
  rw [stored?_canonical]
  rcases hs : m.stored? f with _ | s
  · rfl
  have hholds := hm.stored hf hs
  rw [Option.bind_some, Stored.canonical?]
  by_cases hvoid : s.isVoid = true
  · rw [if_pos hvoid]
    -- an empty list or map counts as unset
    suffices hdefault : (f.hasPresence || !s.isDefaultOf f) = false from hdefault.symm
    cases s with
    | scalar s => cases hvoid
    | message n => cases hvoid
    | list items =>
      cases hholds with
      | single _ _ hs => exact absurd hs Kind.Holds.not_list
      | list hlist =>
        have hempty : items.isEmpty = true := hvoid
        have hinfo : f.info.isRepeated = true := by
          unfold FieldDescriptor.isList at hlist
          exact (Bool.and_eq_true_iff.1 hlist).1
        rw [hrepeated hinfo, Stored.isDefaultOf, hlist, hempty]
        rfl
    | map entries =>
      cases hholds with
      | single _ _ hs => exact absurd hs Kind.Holds.not_map
      | map hmap =>
        have hempty : entries.isEmpty = true := hvoid
        have hinfo : f.info.isRepeated = true := by
          unfold FieldDescriptor.isMap at hmap
          exact (Bool.and_eq_true_iff.1 hmap).1
        rw [hrepeated hinfo, Stored.isDefaultOf, hmap, hempty]
        rfl
  · rw [if_neg hvoid]
    exact congrArg (f.hasPresence || !·) (s.isDefaultOf_canonical f)

/-! ## Scalars that are read and stored again -/

theorem int32Of?_toInt (n : Int32) : int32Of? n.toInt = some n := by
  have hlow := n.le_toInt
  have hhigh := n.toInt_lt
  have hpow : (pow2 (32 - 1) : Int) = 2 ^ 31 := rfl
  unfold int32Of? fitsSigned
  rw [if_pos (by simp only [Bool.and_eq_true, decide_eq_true_eq]; omega), Int32.ofInt_toInt]

theorem int64Of?_toInt (n : Int64) : int64Of? n.toInt = some n := by
  have hlow := n.le_toInt
  have hhigh := n.toInt_lt
  have hpow : (pow2 (64 - 1) : Int) = 2 ^ 63 := rfl
  unfold int64Of? fitsSigned
  rw [if_pos (by simp only [Bool.and_eq_true, decide_eq_true_eq]; omega), Int64.ofInt_toInt]

theorem uint32Of?_toNat (n : UInt32) : uint32Of? n.toNat = some n := by
  have hhigh := n.toNat_lt
  unfold uint32Of? fitsUnsigned
  rw [if_pos (by simp [pow2_eq]; omega), Int.toNat_natCast, UInt32.ofNat_toNat]

theorem uint64Of?_toNat (n : UInt64) : uint64Of? n.toNat = some n := by
  have hhigh := n.toNat_lt
  unfold uint64Of? fitsUnsigned
  rw [if_pos (by simp [pow2_eq]; omega), Int.toNat_natCast, UInt64.ofNat_toNat]

/-- What UTF-8 was read as is written as the bytes that were read. -/
theorem utf8Bytes_of_ofUtf8? {b : List UInt8} {s : String} (h : ofUtf8? b = some s) :
    utf8Bytes s = b := by
  unfold ofUtf8? String.fromUTF8? at h
  split at h
  · cases h
    simp [utf8Bytes]
    rfl
  · cases h

/-- A single that is read as a double and stored again is the same, or still no number. -/
theorem Single.canonical_toSingle_toDouble (x : Single) :
    (Scalar.f32 x.toDouble.toSingle).canonical = (Scalar.f32 x).canonical := by
  rcases hx : x.isNaN with _ | _
  · rw [toSingle_toDouble hx]
  · rw [Scalar.canonical_f32, Scalar.canonical_f32, isNaN_toSingle_toDouble hx, hx, if_pos rfl,
      if_pos rfl]

theorem intInRange_int {kind : Kind} {n : Int} {convert : Int → Option Scalar} {s : Scalar}
    (h : convert n = some s) : intInRange kind (.int n) convert = .ok s := by
  unfold intInRange
  simp only [h]

/-- **A scalar that is read and stored again** has the same canonical form. -/
theorem Kind.scalarToStored_toValue {kind : Kind} {s : Scalar} (hs : kind.HoldsScalar s) :
    ∃ t, kind.scalarToStored (s.toValue kind) = .ok t ∧ t.canonical = s.canonical := by
  cases kind with
  | message d => cases hs
  | enum d =>
    cases s with
    | enumNumber n =>
      refine ⟨.enumNumber n, ?_, rfl⟩
      simp [scalarToStored, EnumDescriptor.toStored, Scalar.toValue, EnumValue.enumName]
    | _ => cases hs
  | scalar t =>
    have hstorage : s.storage? = some t.storage := hs
    have hstored {v : Value} {s : Scalar} (h : t.toStored v = .ok s) :
        (Kind.scalar t).scalarToStored v = .ok s := h
    unfold ScalarType.toStored at hstored
    cases s with
    | enumNumber n => cases hs
    | bool b | f64 x | text s =>
      refine ⟨_, hstored ?_, rfl⟩
      rw [← Option.some.inj hstorage]
      rfl
    | f32 x =>
      -- a NaN may come back with other bits
      refine ⟨.f32 x.toDouble.toSingle, hstored ?_, x.canonical_toSingle_toDouble⟩
      rw [← Option.some.inj hstorage]
      rfl
    | bytes b =>
      refine ⟨.bytes b, hstored ?_, rfl⟩
      rw [← Option.some.inj hstorage, Scalar.toValue]
      rcases hb : ofUtf8? b with _ | x
      · rfl
      · rw [← utf8Bytes_of_ofUtf8? hb]
    | i32 n =>
      refine ⟨.i32 n, hstored ?_, rfl⟩
      rw [← Option.some.inj hstorage]
      exact intInRange_int (congrArg (Option.map Scalar.i32) (int32Of?_toInt n))
    | i64 n =>
      refine ⟨.i64 n, hstored ?_, rfl⟩
      rw [← Option.some.inj hstorage]
      exact intInRange_int (congrArg (Option.map Scalar.i64) (int64Of?_toInt n))
    | u32 n =>
      refine ⟨.u32 n, hstored ?_, rfl⟩
      rw [← Option.some.inj hstorage]
      exact intInRange_int (congrArg (Option.map Scalar.u32) (uint32Of?_toNat n))
    | u64 n =>
      refine ⟨.u64 n, hstored ?_, rfl⟩
      rw [← Option.some.inj hstorage]
      exact intInRange_int (congrArg (Option.map Scalar.u64) (uint64Of?_toNat n))

end Protoscript
