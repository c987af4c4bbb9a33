import Mathlib.Algebra.Group.Nat.Defs
import Protoscript.Wire.Message

/-!
# What is written on the wire is read back

Numbers, lengths and the values of fields are read back from the bytes that they were written as,
whatever follows them, and so are whole sequences of fields, with the groups in them.

* `readVarint?_writeVarint`, `WireValue.Fits.readToken?_payload` — one number, and one value;
* `WireValue.Fits` — values that the wire can carry: the numbers in them are numbers of fields, lengths
  are 64-bit numbers, and groups nest only so deep;
* `readFields?_writeFields` — a sequence of fields that fit;
* `fits_of_readFields?` — whatever is read fits.
-/

namespace Protoscript

/-! ## Numbers -/

/-- Groups of seven bits. A number of at most `fuel + 1` groups has one bit in the last one if it is to
fit into 64 bits. -/
theorem readGroups?_writeGroups {fuel n : Nat} (h : n < 2 * 128 ^ fuel) (rest : List UInt8) :
    readGroups? (fuel + 1) (writeGroups (fuel + 1) n ++ rest) = some (n, rest) := by
  -- on how many more groups there may be
  induction fuel generalizing n with
  | zero =>
    have hn : n = 0 ∨ n = 1 := by omega
    rcases hn with rfl | rfl <;> rfl
  | succ fuel ih =>
    rw [writeGroups]
    by_cases hlt : n < 128
    · have hbyte : (UInt8.ofNat n).toNat = n := UInt8.toNat_ofNat_of_lt' (by simp [UInt8.size]; omega)
      have hsmall : UInt8.ofNat n < 128 := by
        rw [UInt8.lt_iff_toNat_lt, hbyte]
        exact hlt
      simp [hlt, readGroups?, hsmall, hbyte]
    · have hbyte : (UInt8.ofNat (n % 128 + 128)).toNat = n % 128 + 128 :=
        UInt8.toNat_ofNat_of_lt' (by simp [UInt8.size]; omega)
      have hlarge : ¬ UInt8.ofNat (n % 128 + 128) < 128 := by
        rw [UInt8.lt_iff_toNat_lt, hbyte]
        simp
      have hrest : n / 128 < 2 * 128 ^ fuel := by
        rw [Nat.pow_succ] at h
        omega
      rw [if_neg hlt, List.cons_append, readGroups?, if_neg hlarge, ih hrest]
      simp only [hbyte, Option.some.injEq, Prod.mk.injEq, and_true]
      omega

/-- **A number** is read back, whatever follows. -/
theorem readVarint?_writeVarint (n : UInt64) (rest : List UInt8) :
    readVarint? (writeVarint n ++ rest) = some (n, rest) := by
  have hn : n.toNat < 2 * 128 ^ 9 := n.toNat_lt
  simp [readVarint?, writeVarint, readGroups?_writeGroups hn]

theorem writeVarint_ne_nil (n : UInt64) : writeVarint n ≠ [] := by
  unfold writeVarint writeGroups
  split <;> simp

@[simp] theorem length_lowBytes (count n : Nat) : (lowBytes count n).length = count := by
  induction count generalizing n with
  | zero => rfl
  | succ count ih => simp [lowBytes, ih]

theorem ofLowBytes_lowBytes {count n : Nat} (h : n < 256 ^ count) : ofLowBytes (lowBytes count n) = n := by
  induction count generalizing n with
  | zero =>
    rw [Nat.pow_zero] at h
    simp [lowBytes, ofLowBytes]
    omega
  | succ count ih =>
    have hbyte : (UInt8.ofNat (n % 256)).toNat = n % 256 :=
      UInt8.toNat_ofNat_of_lt' (by simp [UInt8.size]; omega)
    rw [Nat.pow_succ] at h
    rw [lowBytes, ofLowBytes, hbyte, ih (by omega)]
    omega

theorem takeBytes?_append (xs rest : List UInt8) : takeBytes? xs.length (xs ++ rest) = some (xs, rest) := by
  simp [takeBytes?]

/-! ## Values -/

/-- Whether a number is one that a field can have. -/
def IsFieldNumber (number : Nat) : Prop := 0 < number ∧ number < 536870912

namespace WireValue

/-- The code of a value's form. -/
def code : WireValue → Nat
  | varint _ => 0
  | fixed64 _ => 1
  | delimited _ => 2
  | group _ => 3
  | fixed32 _ => 5

/-- Whether the wire can carry a value: lengths are 64-bit numbers, the numbers in groups are numbers
of fields, and groups nest at most `depth` deep. -/
inductive Fits : (depth : Nat) → WireValue → Prop
  | varint {depth : Nat} (n : UInt64) : Fits depth (.varint n)
  | fixed64 {depth : Nat} (bits : UInt64) : Fits depth (.fixed64 bits)
  | fixed32 {depth : Nat} (bits : UInt32) : Fits depth (.fixed32 bits)
  | delimited {depth : Nat} {bytes : List UInt8} (h : bytes.length < UInt64.size) :
    Fits depth (.delimited bytes)
  | group {depth : Nat} {fields : List (Nat × WireValue)} (hnumbers : ∀ e ∈ fields, IsFieldNumber e.1)
    (hvalues : ∀ e ∈ fields, Fits depth e.2) : Fits (depth + 1) (.group fields)

/-- A length and the bytes it counts are read back. -/
theorem readDelimited?_writeDelimited {bytes : List UInt8} (h : bytes.length < UInt64.size)
    (rest : List UInt8) : readDelimited? (writeDelimited bytes ++ rest) = some (bytes, rest) := by
  have hlength : (UInt64.ofNat bytes.length).toNat = bytes.length := UInt64.toNat_ofNat_of_lt' h
  rw [readDelimited?, writeDelimited, List.append_assoc, readVarint?_writeVarint, Option.bind_some]
  dsimp only
  rw [hlength, takeBytes?_append]

/-- A value that is no group is read back from its bytes, whatever follows. -/
theorem Fits.readToken?_payload {depth : Nat} {w : WireValue} (hw : w.Fits depth)
    (hgroup : w.code ≠ 3) (rest : List UInt8) :
    readToken? w.code (w.payload ++ rest) = some (.value w, rest) := by
  cases hw with
  | varint n => simp [code, payload, readToken?, readVarint?_writeVarint]
  | fixed64 bits =>
    have htake := takeBytes?_append (lowBytes 8 bits.toNat) rest
    rw [length_lowBytes] at htake
    have hbits : bits.toNat < 256 ^ 8 := bits.toNat_lt
    simp [code, payload, readToken?, htake, ofLowBytes_lowBytes hbits]
  | fixed32 bits =>
    have htake := takeBytes?_append (lowBytes 4 bits.toNat) rest
    rw [length_lowBytes] at htake
    have hbits : bits.toNat < 256 ^ 4 := bits.toNat_lt
    simp [code, payload, readToken?, htake, ofLowBytes_lowBytes hbits]
  | delimited h => simp [code, payload, readToken?, readDelimited?_writeDelimited h]
  | group => exact absurd rfl hgroup

theorem code_lt (w : WireValue) : w.code < 6 := by
  cases w <;> simp [code]

end WireValue

/-- Whether the wire can carry numbered values, with groups nested at most `room` deep. -/
def FieldsFit (room : Nat) (fields : List (Nat × WireValue)) : Prop :=
  ∀ e ∈ fields, IsFieldNumber e.1 ∧ e.2.Fits room

theorem FieldsFit.group {room : Nat} {fields : List (Nat × WireValue)} (h : FieldsFit room fields) :
    (WireValue.group fields).Fits (room + 1) :=
  .group (fun e he => (h e he).1) fun e he => (h e he).2

theorem writeField_eq {w : WireValue} (hgroup : w.code ≠ 3) (number : Nat) :
    writeField number w = writeKey number w.code ++ w.payload := by
  cases w with
  | group => exact absurd rfl hgroup
  | _ => simp [writeField, WireValue.code, WireValue.payload]

theorem writeField_group (number : Nat) (fields : List (Nat × WireValue)) :
    writeField number (.group fields) = writeKey number 3 ++ writeFields fields ++ writeKey number 4 := by
  rw [writeField]

/-! ## Reading what was written -/

section

variable {always : Nat → Bool} {depth : Nat} {stack : List (Nat × List (Nat × WireValue))}
  {done : List (Nat × WireValue)} {number : Nat}

/-- What is read after a key. -/
theorem readOpen?_writeKey {code : Nat} (hnumber : IsFieldNumber number) (hcode : code < 6)
    (tail : List UInt8) : readOpen? always depth stack done (writeKey number code ++ tail) =
      match readToken? (if stack.isEmpty && always number then 2 else code) tail with
      | none => none
      | some (.value v, rest) => readOpen? always depth stack ((number, v) :: done) rest
      | some (.opening, rest) =>
        if stack.length < depth then readOpen? always depth ((number, done) :: stack) [] rest
        else none
      | some (.closing, rest) =>
        match stack with
        | [] => none
        | (opened, before) :: stack =>
          if opened = number then
            readOpen? always depth stack ((number, .group done.reverse) :: before) rest
          else none := by
  have hread : readVarint? (writeKey number code ++ tail) =
      some (UInt64.ofNat (number * 8 + code), tail) := readVarint?_writeVarint _ tail
  have hkey : (UInt64.ofNat (number * 8 + code)).toNat = number * 8 + code := by
    refine UInt64.toNat_ofNat_of_lt' ?_
    have hsize : UInt64.size = 18446744073709551616 := rfl
    have hlt := hnumber.2
    omega
  -- the key is taken apart into the number and the code
  have hdiv : (number * 8 + code) / 8 = number := by omega
  have hmod : (number * 8 + code) % 8 = code := by omega
  have hvalid : (number * 8 + code < 4294967296 && code < 6 && number != 0) = true := by
    obtain ⟨hpos, hlt⟩ := hnumber
    simp
    omega
  have hne : (writeKey number code ++ tail).isEmpty = false := by
    simp [writeKey, writeVarint_ne_nil]
  rw [readOpen?, hne]
  simp only [Bool.false_eq_true, if_false]
  split
  · rename_i hnone
    rw [hread] at hnone
    cases hnone
  · rename_i key afterKey hsome
    rw [hread] at hsome
    obtain ⟨rfl, rfl⟩ := Prod.mk.inj (Option.some.inj hsome)
    simp only [hkey, hdiv, hmod, hvalid, if_true]
    split
    all_goals
      rename_i htoken
      rw [hkey, hdiv, hmod] at htoken
      rewrite [htoken]
      rfl

/-- The form that is read is the one that was written, unless values of the number are always taken as
delimited. -/
theorem readCode_eq {code : Nat} (h : stack = [] → always number = true → code = 2) :
    (if stack.isEmpty && always number then 2 else code) = code := by
  split
  · rename_i hif
    rw [Bool.and_eq_true, List.isEmpty_iff] at hif
    exact (h hif.1 hif.2).symm
  · rfl

/-- A value that is no group is added to what was read. -/
theorem readOpen?_writeField {w : WireValue} (hnumber : IsFieldNumber number) {room : Nat}
    (hw : w.Fits room) (hgroup : w.code ≠ 3) (halways : stack = [] → always number = true → w.code = 2)
    (rest : List UInt8) : readOpen? always depth stack done (writeField number w ++ rest) =
      readOpen? always depth stack ((number, w) :: done) rest := by
  rw [writeField_eq hgroup, List.append_assoc, readOpen?_writeKey hnumber w.code_lt,
    readCode_eq halways, hw.readToken?_payload hgroup]

end

section

variable {always : Nat → Bool} {depth : Nat} {fields : List (Nat × WireValue)}

/-- **A sequence of fields** is added to what was read before. The fields of a group are read with the
group on the stack. -/
theorem readOpen?_writeFields {stack : List (Nat × List (Nat × WireValue))}
    {done fields : List (Nat × WireValue)} {room : Nat} (hroom : stack.length + room ≤ depth)
    (hfit : FieldsFit room fields)
    (halways : ∀ e ∈ fields, stack = [] → always e.1 = true → e.2.code = 2) (rest : List UInt8) :
    readOpen? always depth stack done (writeFields fields ++ rest) =
      readOpen? always depth stack (fields.reverse ++ done) rest := by
  match fields with
  | [] => rfl
  | (number, w) :: fields =>
    obtain ⟨⟨hnumber, hw⟩, hfit⟩ := List.forall_mem_cons.1 hfit
    dsimp only at hnumber hw
    simp only [List.forall_mem_cons] at halways
    obtain ⟨hfirst, halways⟩ := halways
    -- a group is read by recursion, one level deeper
    have hfield (rest : List UInt8) : readOpen? always depth stack done (writeField number w ++ rest) =
        readOpen? always depth stack ((number, w) :: done) rest := by
      by_cases hgroup : w.code = 3
      · cases hw with
        | @group room inside hin hinside =>
          have hlt : stack.length < depth := by omega
          have hread (bytes : List UInt8) :
              readOpen? always depth ((number, done) :: stack) [] (writeFields inside ++ bytes) =
                readOpen? always depth ((number, done) :: stack) (inside.reverse ++ []) bytes := by
            refine readOpen?_writeFields ?_ (fun e he => ⟨hin e he, hinside e he⟩)
              (fun _ _ hno => by cases hno) bytes
            rw [List.length_cons]
            omega
          have hopening (bytes : List UInt8) : readToken? 3 bytes = some (.opening, bytes) := rfl
          have hclosing (bytes : List UInt8) : readToken? 4 bytes = some (.closing, bytes) := rfl
          simp only [writeField_group, List.append_assoc]
          rw [readOpen?_writeKey hnumber (by decide), ← hgroup, readCode_eq hfirst, hgroup, hopening]
          dsimp only
          rw [if_pos hlt, hread, readOpen?_writeKey hnumber (by decide),
            readCode_eq (fun hno => by cases hno), hclosing]
          simp
        | _ => simp [WireValue.code] at hgroup
      · exact readOpen?_writeField hnumber hw hgroup hfirst rest
    rw [writeFields, List.append_assoc, hfield, readOpen?_writeFields hroom hfit halways,
      List.reverse_cons, List.append_assoc]
    rfl
termination_by sizeOf fields

/-- **Fields that fit** are read back. -/
theorem readFields?_writeFields (hfit : FieldsFit depth fields)
    (halways : ∀ e ∈ fields, always e.1 = true → e.2.code = 2) :
    readFields? always depth (writeFields fields) = some fields := by
  have hread : readOpen? always depth [] [] (writeFields fields ++ []) =
      readOpen? always depth [] (fields.reverse ++ []) [] :=
    readOpen?_writeFields (Nat.le_of_eq (Nat.zero_add depth)) hfit (fun e he _ => halways e he) []
  rw [List.append_nil] at hread
  rw [readFields?, hread, readOpen?]
  simp

end

/-! ## Lengths -/

theorem writeFields_append (xs ys : List (Nat × WireValue)) :
    writeFields (xs ++ ys) = writeFields xs ++ writeFields ys := by
  induction xs with
  | nil => rfl
  | cons e rest ih =>
    obtain ⟨number, w⟩ := e
    rw [List.cons_append, writeFields, writeFields, ih, List.append_assoc]

/-- Bytes that are delimited are no longer than the fields they lie in. -/
theorem length_le_of_mem_fields {fields : List (Nat × WireValue)} {number : Nat} {bytes : List UInt8}
    (h : (number, .delimited bytes) ∈ fields) : bytes.length ≤ (writeFields fields).length := by
  induction fields with
  | nil => cases h
  | cons e rest ih =>
    obtain ⟨n, w⟩ := e
    rw [writeFields, List.length_append]
    rcases List.mem_cons.1 h with he | h
    · cases he
      simp only [writeField, writeDelimited, List.length_append]
      omega
    · have := ih h
      omega

/-- Values in fields of a length that the wire can carry fit, if they are no groups. -/
theorem fits_of_mem_fields {fields : List (Nat × WireValue)} {e : Nat × WireValue} (he : e ∈ fields)
    (hgroup : e.2.code ≠ 3) (hlength : (writeFields fields).length < UInt64.size) (room : Nat) :
    e.2.Fits room := by
  obtain ⟨number, w⟩ := e
  cases w with
  | delimited bytes => exact .delimited (Nat.lt_of_le_of_lt (length_le_of_mem_fields he) hlength)
  | group => exact absurd rfl hgroup
  | _ => constructor

/-! ## What is read fits -/

/-- Whether the groups that are still open, and what was read before each of them, fit. -/
def OpenFits (depth : Nat) : List (Nat × List (Nat × WireValue)) → Prop
  | [] => True
  | (number, before) :: stack =>
    IsFieldNumber number ∧ stack.length < depth ∧ FieldsFit (depth - stack.length) before ∧
      OpenFits depth stack

theorem length_of_readDelimited?_fst {bytes : List UInt8} {r : List UInt8 × List UInt8}
    (h : readDelimited? bytes = some r) : r.1.length < UInt64.size := by
  obtain ⟨⟨n, tail⟩, -, htake⟩ := Option.bind_eq_some_iff.1 h
  unfold takeBytes? at htake
  split at htake
  · cases htake
    have hn : n.toNat < UInt64.size := n.toNat_lt
    simp only [List.length_take]
    omega
  · cases htake

/-- What is read after a key fits. -/
theorem fits_of_readToken? {code : Nat} {bytes rest : List UInt8} {v : WireValue}
    (h : readToken? code bytes = some (.value v, rest)) (room : Nat) : v.Fits room := by
  unfold readToken? at h
  split at h
  · obtain ⟨r, -, hr⟩ := Option.map_eq_some_iff.1 h
    cases hr
    exact .varint _
  · obtain ⟨r, -, hr⟩ := Option.map_eq_some_iff.1 h
    cases hr
    exact .fixed64 _
  · obtain ⟨r, hread, hr⟩ := Option.map_eq_some_iff.1 h
    cases hr
    exact .delimited (length_of_readDelimited?_fst hread)
  · cases h
  · cases h
  · obtain ⟨r, -, hr⟩ := Option.map_eq_some_iff.1 h
    cases hr
    exact .fixed32 _
  · cases h

/-- The number in a key is one that a field can have, if the reader accepts it. -/
theorem isFieldNumber_of_key {key : Nat}
    (h : (key < 4294967296 && key % 8 < 6 && key / 8 != 0) = true) : IsFieldNumber (key / 8) := by
  simp only [Bool.and_eq_true, decide_eq_true_eq, bne_iff_ne] at h
  exact ⟨by omega, by omega⟩

/-- What is read fits, if what is on the stack and what was read before does. -/
theorem fits_of_readOpen? {always : Nat → Bool} {depth : Nat}
    {stack : List (Nat × List (Nat × WireValue))} {done fields : List (Nat × WireValue)}
    {bytes : List UInt8} (hstack : OpenFits depth stack) (hdone : FieldsFit (depth - stack.length) done)
    (h : readOpen? always depth stack done bytes = some fields) : FieldsFit depth fields := by
  -- on the reading: a value, the opening of a group or its closing
  fun_induction readOpen? always depth stack done bytes
  case case1 hend =>
    obtain rfl := List.isEmpty_iff.1 hend
    cases h
    exact fun e he => hdone e (List.mem_reverse.1 he)
  case case5 hkey _ _ htoken ih =>
    exact ih hstack (List.forall_mem_cons.2
      ⟨⟨isFieldNumber_of_key hkey, fits_of_readToken? htoken _⟩, hdone⟩) h
  case case6 hkey _ _ hroom ih =>
    exact ih ⟨isFieldNumber_of_key hkey, hroom, hdone, hstack⟩ (fun _ he => absurd he List.not_mem_nil) h
  case case9 hkey _ before stack _ _ ih =>
    obtain ⟨hnumber, hroom, hbefore, hstack⟩ := hstack
    rw [List.unattach_reverse, List.unattach_attach] at ih
    refine ih hstack (List.forall_mem_cons.2 ⟨⟨hnumber, ?_⟩, hbefore⟩) h
    have hgroup := FieldsFit.group fun e he => hdone e (List.mem_reverse.1 he)
    have hdepth : depth - (stack.length + 1) + 1 = depth - stack.length := by omega
    rwa [List.length_cons, hdepth] at hgroup
  all_goals cases h

/-- **What is read fits.** -/
theorem fits_of_readFields? {always : Nat → Bool} {depth : Nat} {bytes : List UInt8}
    {fields : List (Nat × WireValue)} (h : readFields? always depth bytes = some fields) :
    FieldsFit depth fields := by
  have hstack : OpenFits depth [] := trivial
  exact fits_of_readOpen? hstack (fun _ he => absurd he List.not_mem_nil) h

end Protoscript
