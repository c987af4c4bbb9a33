import Protoscript.Proofs.Base64
import Protoscript.Proofs.Canonical
import Protoscript.Proofs.Decoding
import Protoscript.Proofs.Flushing
import Protoscript.Proofs.JsonText

/-!
# Scalars and keys in JSON are read back

A scalar that is no floating-point number is read back from its JSON form, an enum value by its name or
its number, and a key of a map from the name of its member.

* `Kind.isFloat` — types of floating-point numbers, whose values are not all read back;
* `EnumDescriptor.NamesApart` — enums whose values are told apart by their names;
* `Kind.scalarOfJson?_toJson` — a scalar is read back;
* `Kind.keyOfJson?_jsonName` — a key is read back.
-/

namespace Protoscript

/-- Whether the values of a type are floating-point numbers. -/
def Kind.isFloat : Kind → Bool
  | .scalar t => t.storage == .f32 || t.storage == .f64
  | .enum _ | .message _ => false

/-! ## Integers -/

section

variable {low high : Int} {read? : List Char → Option Int} {n : Int}

theorem Json.intBetween?_int (hlow : low ≤ n) (hhigh : n ≤ high) :
    intBetween? low high read? (.int n) = some n := if_pos ⟨hlow, hhigh⟩

theorem Json.intBetween?_text {s : String} (hread : read? s.toList = some n) (hlow : low ≤ n)
    (hhigh : n ≤ high) : intBetween? low high read? (.text s) = some n := by
  rw [intBetween?, hread, Option.bind_some, if_pos ⟨hlow, hhigh⟩]

end

theorem readUnsignedInt?_toString (n : Nat) :
    readUnsignedInt? (toString n).toList = some (n : Int) := by
  rw [readUnsignedInt?, readUnsigned?_toString]
  rfl

/-- A scalar of a scalar type that holds no floating-point numbers is read back. -/
theorem ScalarType.ofJson?_toBareJson {t : ScalarType} {kind : Kind} {s : Scalar}
    (hs : s.storage? = some t.storage) (hfloat : (Kind.scalar t).isFloat = false) :
    t.ofJson? (s.toBareJson kind) = some s := by
  have h31 : (pow2 31 : Int) = 2 ^ 31 := rfl
  have h32 : (pow2 32 : Int) = 2 ^ 32 := rfl
  have h63 : (pow2 63 : Int) = 2 ^ 63 := rfl
  have h64 : (pow2 64 : Int) = 2 ^ 64 := rfl
  unfold ofJson?
  cases s with
  | enumNumber => cases hs
  | f32 | f64 =>
    have hstorage : (t.storage == .f32 || t.storage == .f64) = false := hfloat
    rw [← Option.some.inj hs] at hstorage
    cases hstorage
  | bool b =>
    rw [← Option.some.inj hs]
    rfl
  | text s =>
    rw [← Option.some.inj hs]
    rfl
  | bytes b =>
    rw [← Option.some.inj hs]
    exact congrArg (Option.map Scalar.bytes) (Base64.decode?_encode b)
  | i32 n =>
    have hlow := n.le_toInt
    have hhigh := n.toInt_lt
    rw [← Option.some.inj hs]
    dsimp only [Scalar.toBareJson]
    rw [Json.intBetween?_int (by omega) (by omega), Option.map_some, Int32.ofInt_toInt]
  | i64 n =>
    have hlow := n.le_toInt
    have hhigh := n.toInt_lt
    rw [← Option.some.inj hs]
    -- 64-bit integers are written as texts
    have hread : readSigned? (toString n).toList = some n.toInt := readInt?_toString n.toInt
    dsimp only [Scalar.toBareJson]
    rw [Json.intBetween?_text hread (by omega) (by omega), Option.map_some, Int64.ofInt_toInt]
  | u32 n =>
    have hhigh := n.toNat_lt
    rw [← Option.some.inj hs]
    dsimp only [Scalar.toBareJson]
    rw [Json.intBetween?_int (by omega) (by omega), Option.map_some, Int.toNat_natCast,
      UInt32.ofNat_toNat]
  | u64 n =>
    have hhigh := n.toNat_lt
    rw [← Option.some.inj hs]
    have hread : readUnsignedInt? (toString n).toList = some (n.toNat : Int) :=
      readUnsignedInt?_toString n.toNat
    dsimp only [Scalar.toBareJson]
    rw [Json.intBetween?_text hread (by omega) (by omega), Option.map_some, Int.toNat_natCast,
      UInt64.ofNat_toNat]

/-! ## Enums -/

/-- Whether the values of an enum are told apart by their names. -/
def EnumDescriptor.NamesApart (d : EnumDescriptor) : Prop := (d.values.map (·.1)).Nodup

/-- The number of a declared name is found by the name. -/
theorem EnumDescriptor.NamesApart.numberOf? {d : EnumDescriptor} (hd : d.NamesApart) {number : Int32}
    {name : String} (h : d.nameOf? number = some name) : d.numberOf? name = some number := by
  obtain ⟨v, hv, rfl⟩ := Option.map_eq_some_iff.1 h
  have hnumber : v.2 = number := by simpa using List.find?_some hv
  have hmem := List.mem_of_find?_eq_some hv
  rcases hfind : d.values.find? fun w => w.1 == v.1 with _ | w
  · have := List.find?_eq_none.1 hfind v hmem
    simp at this
  · have hname : w.1 = v.1 := by simpa using List.find?_some hfind
    have hsame : w = v := List.inj_on_of_nodup_map hd (List.mem_of_find?_eq_some hfind) hmem hname
    rw [EnumDescriptor.numberOf?, hfind, Option.map_some, hsame, hnumber]

/-- A number of an enum is read back, by its name or as it is. -/
theorem EnumDescriptor.NamesApart.ofJson?_toBareJson {d : EnumDescriptor} (hd : d.NamesApart)
    (number : Int32) :
    d.ofJson? ((Scalar.enumNumber number).toBareJson (.enum d)) = some (.enumNumber number) := by
  rw [Scalar.toBareJson]
  rcases hname : d.nameOf? number with _ | name
  · exact congrArg (Option.map Scalar.enumNumber) (int32Of?_toInt number)
  · exact congrArg (Option.map Scalar.enumNumber) (hd.numberOf? hname)

/-! ## Scalars of fields -/

/-- Whether the values of an enum type are told apart by their names. -/
def Kind.NamesApart : Kind → Prop
  | .enum d => d.NamesApart
  | .scalar _ | .message _ => True

section

variable {kind : Kind} {s : Scalar}

/-- A value of a type without floating-point numbers is none. -/
theorem Kind.HoldsScalar.not_float (hs : kind.HoldsScalar s) (hfloat : kind.isFloat = false) :
    (∀ x, s ≠ .f32 x) ∧ ∀ x, s ≠ .f64 x := by
  cases kind with
  | message => cases hs
  | enum => constructor <;> rintro x rfl <;> cases hs
  | scalar t =>
    have hstorage : (t.storage == .f32 || t.storage == .f64) = false := hfloat
    have hs : s.storage? = some t.storage := hs
    constructor
    all_goals
      rintro x rfl
      rw [← Option.some.inj hs] at hstorage
      cases hstorage

/-- What is no floating-point number is written in a field as it is in a wrapper. -/
theorem Scalar.toJson_eq (h32 : ∀ x, s ≠ .f32 x) (h64 : ∀ x, s ≠ .f64 x) :
    s.toJson kind = s.toBareJson kind := by
  cases s with
  | f32 x => exact absurd rfl (h32 x)
  | f64 x => exact absurd rfl (h64 x)
  | _ => rfl

theorem Scalar.reread_toBareJson (h32 : ∀ x, s ≠ .f32 x) (h64 : ∀ x, s ≠ .f64 x) :
    (s.toBareJson kind).reread = s.toBareJson kind := by
  cases s with
  | f32 x => exact absurd rfl (h32 x)
  | f64 x => exact absurd rfl (h64 x)
  | enumNumber n =>
    dsimp only [Scalar.toBareJson]
    cases kind with
    | enum d => dsimp only; rcases d.nameOf? n with _ | name <;> rfl
    | _ => rfl
  | _ => rfl

theorem Scalar.legible_toBareJson (h32 : ∀ x, s ≠ .f32 x) (h64 : ∀ x, s ≠ .f64 x) :
    (s.toBareJson kind).Legible := by
  have hlow : (pow2 63 : Int) = 2 ^ 63 := rfl
  have hhigh : (pow2 64 : Int) = 2 ^ 64 := rfl
  have hint (n : Int32) : (Json.int n.toInt).Legible := by
    have := n.le_toInt
    have := n.toInt_lt
    exact .int (by omega) (by omega)
  cases s with
  | f32 x => exact absurd rfl (h32 x)
  | f64 x => exact absurd rfl (h64 x)
  | bool => exact .bool
  | text | bytes | i64 | u64 => exact .text
  | i32 n => exact hint n
  | u32 n =>
    have := n.toNat_lt
    exact .int (by omega) (by omega)
  | enumNumber n =>
    dsimp only [Scalar.toBareJson]
    cases kind with
    | enum d =>
      dsimp only
      rcases d.nameOf? n with _ | name
      · exact hint n
      · exact .text
    | _ => exact hint n

/-- **A scalar is read back** if it is no floating-point number. -/
theorem Kind.scalarOfJson?_toJson (hs : kind.HoldsScalar s) (hfloat : kind.isFloat = false)
    (hnames : kind.NamesApart) :
    (s.toJson kind).Legible ∧ kind.scalarOfJson? (s.toJson kind).reread = some s := by
  obtain ⟨h32, h64⟩ := hs.not_float hfloat
  rw [Scalar.toJson_eq h32 h64, Scalar.reread_toBareJson h32 h64]
  refine ⟨Scalar.legible_toBareJson h32 h64, ?_⟩
  cases kind with
  | message => cases hs
  | scalar t => exact ScalarType.ofJson?_toBareJson hs hfloat
  | enum d =>
    cases s with
    | enumNumber n => exact hnames.ofJson?_toBareJson n
    | _ => cases hs

end

/-! ## Keys -/

theorem readInt32?_toString (n : Int32) : readInt32? (toString n) = some n := by
  have hread : readInt? 10 (toString n).toList = some n.toInt := readInt?_toString n.toInt
  rw [readInt32?, hread, Option.bind_some, int32Of?_toInt]

theorem readInt64?_toString (n : Int64) : readInt64? (toString n) = some n := by
  have hread : readInt? 10 (toString n).toList = some n.toInt := readInt?_toString n.toInt
  rw [readInt64?, hread, Option.bind_some, int64Of?_toInt]

theorem readUInt32?_toString (n : UInt32) : readUInt32? (toString n) = some n := by
  have hread : readUnsigned? 10 (toString n).toList = some n.toNat := readUnsigned?_toString n.toNat
  rw [readUInt32?, hread, Option.bind_some, uint32Of?_toNat]

theorem readUInt64?_toString (n : UInt64) : readUInt64? (toString n) = some n := by
  have hread : readUnsigned? 10 (toString n).toList = some n.toNat := readUnsigned?_toString n.toNat
  rw [readUInt64?, hread, Option.bind_some, uint64Of?_toNat]

/-- **A key is read back** from the name of its member. -/
theorem Kind.keyOfJson?_jsonName {kind : Kind} {key : MapKey} (hkey : kind.HoldsKey key) :
    kind.keyOfJson? key.jsonName = some key := by
  cases kind with
  | enum | message => cases key <;> cases hkey
  | scalar t =>
    dsimp only [keyOfJson?]
    have hs : key.toScalar.storage? = some t.storage := hkey
    cases key with
    | bool b =>
      rw [← Option.some.inj hs]
      cases b <;> rfl
    | text s =>
      rw [← Option.some.inj hs]
      rfl
    | i32 n =>
      rw [← Option.some.inj hs]
      exact congrArg (Option.map MapKey.i32) (readInt32?_toString n)
    | i64 n =>
      rw [← Option.some.inj hs]
      exact congrArg (Option.map MapKey.i64) (readInt64?_toString n)
    | u32 n =>
      rw [← Option.some.inj hs]
      exact congrArg (Option.map MapKey.u32) (readUInt32?_toString n)
    | u64 n =>
      rw [← Option.some.inj hs]
      exact congrArg (Option.map MapKey.u64) (readUInt64?_toString n)

end Protoscript
