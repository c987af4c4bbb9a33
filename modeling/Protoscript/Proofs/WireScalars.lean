import Protoscript.Proofs.Decoding
import Protoscript.Proofs.WireBytes

/-!
# Scalars are read back from the wire

Every scalar that a type may hold is written as one value, in the form of its type, and that value is
read as the same scalar: bit for bit, NaN and negative zero included. Values in one form are read back
when they are packed.

* `ScalarType.ofWire?_toWire?`, `Kind.ofWire?_toWire?` — one scalar;
* `readPacked?_payloads` — a packed list.
-/

namespace Protoscript

/-! ## Numbers -/

/-- A 32-bit number is sent with its sign extended to 64 bits; the low half is the number. -/
theorem toInt32_of_wide (n : Int32) : n.toInt64.toUInt64.toUInt32.toInt32 = n := by
  refine Int32.toBitVec_inj.1 (BitVec.eq_of_getLsbD_eq fun i hi => ?_)
  have hwide : i < 64 := by omega
  simp [BitVec.getElem_signExtend, hi, hwide]

theorem zigzag_lt_of_int32 (n : Int32) : zigzag n.toInt < 4294967296 := by
  have hlow := n.le_toInt
  have hhigh := n.toInt_lt
  unfold zigzag
  split <;> omega

theorem zigzag_lt_of_int64 (n : Int64) : zigzag n.toInt < 18446744073709551616 := by
  have hlow := n.le_toInt
  have hhigh := n.toInt_lt
  unfold zigzag
  split <;> omega

/-! ## One scalar -/

/-- A scalar of a type is read back from the value it is written as, which has the type's form. -/
theorem ScalarType.ofWire?_toWire? {t : ScalarType} {s : Scalar} (hs : s.storage? = some t.storage) :
    ∃ w, t.toWire? s = some w ∧ t.ofWire? w = some s ∧ w.code = t.wireCode := by
  -- one case for each type; the representation is that of the type
  cases s <;> cases t <;>
    simp only [Scalar.storage?, ScalarType.storage, Option.some.injEq, reduceCtorEq] at hs <;>
    refine ⟨_, rfl, ?_, rfl⟩
  case bool.bool b => cases b <;> rfl
  case i32.int32 n => simp [ofWire?, toInt32_of_wide]
  case i32.sint32 n =>
    have hlt := zigzag_lt_of_int32 n
    have hback : (UInt64.ofNat (zigzag n.toInt)).toUInt32.toNat = zigzag n.toInt := by
      simp
      omega
    rw [ofWire?, hback, unzigzag_zigzag, Int32.ofInt_toInt]
  case i64.sint64 n =>
    have hback : (UInt64.ofNat (zigzag n.toInt)).toNat = zigzag n.toInt :=
      UInt64.toNat_ofNat_of_lt' (zigzag_lt_of_int64 n)
    rw [ofWire?, hback, unzigzag_zigzag, Int64.ofInt_toInt]
  case text.string s => simp [ofWire?, ofUtf8?_utf8Bytes]
  all_goals simp [ofWire?]

namespace Kind

variable {kind : Kind} {s : Scalar}

theorem packedCode?_scalar {t : ScalarType} {code : Nat} (h : (Kind.scalar t).packedCode? = some code) :
    code = t.wireCode := by
  cases t <;> cases h <;> rfl

/-- The forms that can be packed. -/
theorem packedCode?_cases {code : Nat} (h : kind.packedCode? = some code) :
    code = 0 ∨ code = 1 ∨ code = 5 := by
  rcases kind with t | d | d
  · cases t <;> cases h <;> simp [ScalarType.wireCode]
  · cases h
  · cases h
    simp

/-- **A scalar** that a type may hold is read back from the value it is written as. -/
theorem ofWire?_toWire? (hs : kind.HoldsScalar s) :
    ∃ w, kind.toWire? s = some w ∧ kind.ofWire? w = some s ∧ w.code ≠ 3 ∧
      ∀ code, kind.packedCode? = some code → w.code = code := by
  rcases kind with t | d | d
  · obtain ⟨w, hwrite, hread, hcode⟩ := ScalarType.ofWire?_toWire? hs
    refine ⟨w, hwrite, hread, ?_, fun code hpacked => ?_⟩
    · rw [hcode]
      cases t <;> decide
    · rw [hcode, packedCode?_scalar hpacked]
  · cases hs
  · cases s with
    | enumNumber n =>
      refine ⟨_, rfl, ?_, by simp [WireValue.code], fun code hpacked => ?_⟩
      · rw [ofWire?, toInt32_of_wide]
      · cases hpacked
        rfl
    | _ => cases hs

end Kind

/-! ## Packed lists -/

theorem WireValue.payload_ne_nil {w : WireValue} (hgroup : w.code ≠ 3) : w.payload ≠ [] := by
  cases w with
  | varint n => exact writeVarint_ne_nil n
  | fixed64 => simp [payload, lowBytes]
  | delimited bytes =>
    rw [payload, writeDelimited]
    exact List.append_ne_nil_of_left_ne_nil (writeVarint_ne_nil _) _
  | group => exact absurd rfl hgroup
  | fixed32 => simp [payload, lowBytes]

/-- Values in one form are read back from a packed list. -/
theorem readPacked?_payloads {code : Nat} (hgroup : code ≠ 3) {room : Nat} {ws : List WireValue}
    (hws : ∀ w ∈ ws, w.Fits room ∧ w.code = code) :
    readPacked? code (ws.flatMap WireValue.payload) = some ws := by
  induction ws with
  | nil =>
    rw [readPacked?]
    rfl
  | cons w rest ih =>
    obtain ⟨⟨hfits, hcode⟩, hrest⟩ := List.forall_mem_cons.1 hws
    have hno : w.code ≠ 3 := hcode ▸ hgroup
    -- a payload has at least one byte, so that fewer bytes are left
    have hpayload := List.length_pos_iff.2 (WireValue.payload_ne_nil hno)
    have htoken := hfits.readToken?_payload hno (rest.flatMap WireValue.payload)
    rw [hcode] at htoken
    rw [List.flatMap_cons, readPacked?]
    split
    · rename_i hempty
      simp [WireValue.payload_ne_nil hno] at hempty
    · split
      · rename_i v tail hread
        rw [htoken] at hread
        cases hread
        rw [if_pos (by simp only [List.length_append]; omega), ih hrest]
        rfl
      · rename_i hother
        exact absurd htoken (hother _ _)

end Protoscript
