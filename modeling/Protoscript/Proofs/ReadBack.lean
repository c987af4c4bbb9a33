import Protoscript.Proofs.Coherence
import Protoscript.Proofs.Failure

/-!
# Scalars read back

A scalar that is written to a field is stored in the one form that the field's type has. It is read
back as a value that equals what was written, except for bytes that are UTF-8: they are read as their
text, and a text equals no bytes.

* `Value.readBack` — what a value is read back as;
* `Heap.equals_readBack` — it equals what a scalar is read back as, whether it was stored, written to a
  field of a message or appended to a view of a repeated field.
-/

namespace Protoscript

/-- What a scalar is read back as, up to equality: bytes that are UTF-8 as their text. -/
def Value.readBack : Value → Value
  | .bytes b => (ofUtf8? b).elim (.bytes b) .text
  | v => v

theorem Value.readBack_eq_self_iff {v : Value} :
    v.readBack = v ↔ ∀ b, v = .bytes b → ofUtf8? b = none := by
  cases v with
  | bytes b => cases hb : ofUtf8? b <;> simp [readBack, hb]
  | _ => simp [readBack]

/-! ## Numbers -/

theorem toInt_of_int32Of? {n : Int} {x : Int32} (h : int32Of? n = some x) : x.toInt = n := by
  have hpow : (pow2 (32 - 1) : Int) = 2 ^ 31 := rfl
  simp only [int32Of?, fitsSigned, hpow, Option.ite_none_right_eq_some, Bool.and_eq_true,
    decide_eq_true_eq, Option.some.injEq] at h
  obtain ⟨⟨hlow, hhigh⟩, rfl⟩ := h
  exact Int32.toInt_ofInt_of_le hlow hhigh

theorem toInt_of_int64Of? {n : Int} {x : Int64} (h : int64Of? n = some x) : x.toInt = n := by
  have hpow : (pow2 (64 - 1) : Int) = 2 ^ 63 := rfl
  simp only [int64Of?, fitsSigned, hpow, Option.ite_none_right_eq_some, Bool.and_eq_true,
    decide_eq_true_eq, Option.some.injEq] at h
  obtain ⟨⟨hlow, hhigh⟩, rfl⟩ := h
  exact Int64.toInt_ofInt_of_le hlow hhigh

theorem toNat_of_uint32Of? {n : Int} {x : UInt32} (h : uint32Of? n = some x) : (x.toNat : Int) = n := by
  have hpow : (pow2 32 : Int) = 2 ^ 32 := rfl
  simp only [uint32Of?, fitsUnsigned, hpow, Option.ite_none_right_eq_some, Bool.and_eq_true,
    decide_eq_true_eq, Option.some.injEq] at h
  obtain ⟨⟨hlow, hhigh⟩, rfl⟩ := h
  rw [UInt32.toNat_ofNat_of_lt' (by change n.toNat < 2 ^ 32; omega), Int.toNat_of_nonneg hlow]

theorem toNat_of_uint64Of? {n : Int} {x : UInt64} (h : uint64Of? n = some x) : (x.toNat : Int) = n := by
  have hpow : (pow2 64 : Int) = 2 ^ 64 := rfl
  simp only [uint64Of?, fitsUnsigned, hpow, Option.ite_none_right_eq_some, Bool.and_eq_true,
    decide_eq_true_eq, Option.some.injEq] at h
  obtain ⟨⟨hlow, hhigh⟩, rfl⟩ := h
  rw [UInt64.toNat_ofNat_of_lt' (by change n.toNat < 2 ^ 64; omega), Int.toNat_of_nonneg hlow]

/-- Rounding gives a number. -/
theorem Double.isNaN_ofRatio (negative : Bool) (num den : Nat) :
    (ofRatio negative num den).isNaN = false := by
  have hle : Layout.binary64.nearest num den ≤ Layout.binary64.infinity := by
    unfold Layout.nearest
    split
    · exact Nat.zero_le _
    · exact Nat.min_le_right _ _
  have hsplit : Layout.binary64.nearest num den =
      Layout.binary64.nearest num den / Layout.binary64.fractionUnit * Layout.binary64.fractionUnit +
        Layout.binary64.nearest num den % Layout.binary64.fractionUnit := (Nat.div_add_mod' _ _).symm
  have hunit := Layout.binary64.fractionUnit_pos
  have hfield : Layout.binary64.nearest num den / Layout.binary64.fractionUnit ≤
      Layout.binary64.topExponent := Nat.div_le_of_le_mul ((Nat.mul_comm _ _).symm ▸ hle)
  have hfraction := Nat.mod_lt (Layout.binary64.nearest num den) hunit
  unfold isNaN datum ofRatio
  rw [toNat_bits_ofMagnitude (hle.trans_lt (by decide)), hsplit,
    Layout.datum_signed hfield hfraction]
  split
  · rename_i htop
    have hzero : Layout.binary64.nearest num den % Layout.binary64.fractionUnit = 0 := by
      have hinfinity : Layout.binary64.infinity =
        Layout.binary64.topExponent * Layout.binary64.fractionUnit := rfl
      rw [beq_iff_eq.1 htop] at hsplit
      omega
    rw [if_pos (beq_iff_eq.2 hzero)]
    rfl
  · split <;> rfl

/-! ## Storing and reading -/

namespace Scalar

theorem hashBytes_toValue (h : Heap) (s : Scalar) (kind : Kind) :
    ∃ bytes, h.hashBytes (s.toValue kind) = .ok bytes := by
  cases s with
  | bytes b =>
    rw [toValue]
    cases ofUtf8? b <;> exact ⟨_, by rw [Heap.hashBytes]⟩
  | enumNumber n => cases kind <;> exact ⟨_, by rw [toValue, Heap.hashBytes]⟩
  | f32 x | f64 x =>
    rw [toValue, Heap.hashBytes]
    split
    · split <;> exact ⟨_, rfl⟩
    · exact ⟨_, rfl⟩
  | _ => exact ⟨_, by rw [toValue, Heap.hashBytes]⟩

theorem equals_toValue (h : Heap) (s : Scalar) (kind : Kind) (v : Value) :
    h.equals (s.toValue kind) v = h.flatEquals (s.toValue kind) v :=
  Heap.equals_plain (s.hashBytes_toValue h kind) (s.toValue_ne_tuple kind) v

end Scalar

theorem exists_of_intInRange {kind : Kind} {v : Value} {convert : Int → Option Scalar} {s : Scalar}
    (h : intInRange kind v convert = .ok s) : ∃ n, v = .int n ∧ convert n = some s := by
  unfold intInRange at h
  split at h
  · rename_i n
    rcases hn : convert n with _ | t <;> rw [hn] at h <;> cases h
    exact ⟨n, rfl, hn⟩
  · cases h

/-- **A stored scalar is read as a value that equals what was stored**, or its text. -/
theorem Kind.equals_toValue {kind : Kind} {v : Value} {s : Scalar} (h : Heap)
    (hkind : kind ≠ .scalar .float) (hnan : ∀ x, v = .float x → x.isNaN = false)
    (hs : kind.scalarToStored v = .ok s) : h.equals (s.toValue kind) v.readBack = .ok true := by
  rw [Scalar.equals_toValue]
  have integer {convert : Int → Option Scalar} (hv : intInRange kind v convert = .ok s)
      (hconvert : ∀ n, convert n = some s → s.toValue kind = .int n) :
      h.flatEquals (s.toValue kind) v.readBack = .ok true := by
    obtain ⟨n, rfl, hn⟩ := exists_of_intInRange hv
    simp [hconvert n hn, Value.readBack, Heap.flatEquals]
  cases kind with
  | message d => cases hs
  | enum d =>
    change d.toStored v = .ok s at hs
    unfold EnumDescriptor.toStored at hs
    split at hs
    · rename_i e
      split at hs <;> cases hs
      rename_i hname
      simp [Scalar.toValue, Value.readBack, Heap.flatEquals, EnumValue.equals, EnumValue.enumName,
        ← beq_iff_eq.1 hname]
    · cases hs
  | scalar t =>
    change t.toStored v = .ok s at hs
    unfold ScalarType.toStored at hs
    split at hs
    -- the cases are the storages, in the order in which they are converted to
    case h_1 | h_2 =>
      split at hs <;> cases hs
      simp [Scalar.toValue, Value.readBack, Heap.flatEquals]
    case h_3 =>
      split at hs <;> cases hs
      · simp [Scalar.toValue, Value.readBack, Heap.flatEquals, ofUtf8?_utf8Bytes]
      · rename_i b
        rcases hb : ofUtf8? b with _ | text <;>
          simp [Scalar.toValue, Value.readBack, Heap.flatEquals, hb]
    case h_4 =>
      rename_i hstorage
      cases t <;> first | exact absurd rfl hkind | cases hstorage
    case h_5 =>
      split at hs <;> cases hs
      · rename_i x
        exact congrArg Except.ok (Double.equals_self (hnan x rfl))
      · exact congrArg Except.ok (Double.equals_self (Double.isNaN_ofRatio _ _ _))
    case h_6 =>
      refine integer hs fun n hn => ?_
      obtain ⟨x, hx, rfl⟩ := Option.map_eq_some_iff.1 hn
      exact congrArg Value.int (toInt_of_int32Of? hx)
    case h_7 =>
      refine integer hs fun n hn => ?_
      obtain ⟨x, hx, rfl⟩ := Option.map_eq_some_iff.1 hn
      exact congrArg Value.int (toInt_of_int64Of? hx)
    case h_8 =>
      refine integer hs fun n hn => ?_
      obtain ⟨x, hx, rfl⟩ := Option.map_eq_some_iff.1 hn
      exact congrArg Value.int (toNat_of_uint32Of? hx)
    case h_9 =>
      refine integer hs fun n hn => ?_
      obtain ⟨x, hx, rfl⟩ := Option.map_eq_some_iff.1 hn
      exact congrArg Value.int (toNat_of_uint64Of? hx)

/-! ## Fields and views -/

section

variable {h h' mid : Heap} {kind : Kind} {f : FieldDescriptor} {v : Value} {s : Scalar} {config : Config}

/-- What can be stored as a scalar of a type other than a message refers to nothing. -/
theorem Kind.ref?_of_scalarToStored (hs : kind.scalarToStored v = .ok s) :
    v ≠ .absent ∧ (∀ items, v ≠ .tuple items) ∧ v.ref? = none := by
  cases v <;> first
    | exact ⟨fun he => Value.noConfusion he, fun _ he => Value.noConfusion he, rfl⟩
    | cases kind with
      | scalar t => cases t <;> cases hs
      | enum | message => cases hs

theorem Kind.scalarToStored_of_toStored {flush : Ref .message → Except Error Message}
    (hs : kind.toStored h flush v config = .ok (.scalar s)) : kind.scalarToStored v = .ok s := by
  cases kind with
  | message d =>
    obtain ⟨m, -, hm⟩ := Except.map_ok.1 hs
    cases hm
  | scalar | enum =>
    obtain ⟨t, ht, hst⟩ := Except.map_ok.1 hs
    cases hst
    exact ht

namespace Script

/-- A scalar is written to single fields only. -/
theorem storedFor_scalar {stored : Option Stored} (hs : f.kind.scalarToStored v = .ok s)
    (hrun : (storedFor f v config).run h = (.ok stored, mid)) :
    f.info.isRepeated = false ∧ stored = some (.scalar s) ∧ mid = h := by
  obtain ⟨habsent, htuple, href⟩ := Kind.ref?_of_scalarToStored hs
  have hmap : f.isMap = false := by
    unfold FieldDescriptor.isMap
    rcases hk : f.kind with t | d | d
    · simp
    · rw [hk] at hs
      cases hs
    · simp
  by_cases hlist : f.isList = true
  · rw [storedFor_of_isList hlist] at hrun
    obtain ⟨view, mid', hview, -⟩ := bind_ok.1 hrun
    unfold repeatedOf at hview
    split at hview
    · cases href
    · exact absurd rfl (htuple _)
    · cases href
    · cases hview
  · have hsingle : f.isList = false := by simpa using hlist
    refine ⟨by simpa [FieldDescriptor.isList, hmap] using hsingle, ?_⟩
    rw [storedFor_single hmap hsingle, scalarFor_of_ne habsent] at hrun
    obtain ⟨t, mid', ht, hrun⟩ := bind_ok.1 hrun
    cases hrun
    obtain ⟨hstored, rfl⟩ := reading_ok.1 ht
    change f.kind.toStored h h.contents v config = _ at hstored
    rw [Kind.toStored_of_scalarToStored hs] at hstored
    cases hstored
    exact ⟨rfl, rfl⟩

/-- **After a scalar was written**, the field reads as the form in which it was stored. -/
theorem messageAttr_setField {p : Pool} (hp : p.TracksPresence) {r : Ref .message} {name : String}
    (hr : h.Has ⟨.message, r⟩) (hd : (h.cell r).content.descriptor.Among {p})
    (hf : (h.cell r).content.descriptor.field? name = some f) (hs : f.kind.scalarToStored v = .ok s)
    (hrun : (setField r name v).run h = (.ok (), h')) :
    ∃ h'', (messageAttr r name).run h' = (.ok (some (s.toValue f.kind)), h'') := by
  obtain ⟨hfields, hname⟩ := MessageDescriptor.field?_eq_some.1 hf
  have hthawed := (field_of_setField hrun).1
  obtain ⟨stored, mid, hstored, rfl⟩ := (setField_ok hf hthawed).1 hrun
  obtain ⟨hsingle, rfl, rfl⟩ := storedFor_scalar hs hstored
  let c : MessageCell := { mid.cell r with
    content := (mid.cell r).content.set f (.scalar s), views := keptViews f (mid.cell r).views }
  change ∃ h'', (messageAttr r name).run (mid.put r c) = _
  have hcell : (mid.put r c).cell r = c := Heap.cell_put_self _ _ _ hr
  -- no view of the field is left, so that it is read from what is stored
  have hview : lookupName name c.views = none := by
    refine Option.map_eq_none_iff.2 (List.find?_eq_none.2 fun view hview => ?_)
    have hkeep := (Bool.and_eq_true_iff.1 (List.mem_filter.1 hview).2).1
    rw [hname] at hkeep
    simpa using hkeep
  have hfield : c.content.descriptor.field? name = some f := by
    rw [Message.descriptor_set, hf]
  have hset : c.content.stored? f = some (.scalar s) := Message.stored?_set_self _ rfl _
  have hmap : f.isMap = false := by
    unfold FieldDescriptor.isMap
    rw [hsingle]
    rfl
  have hlist : f.isList = false := by
    unfold FieldDescriptor.isList
    rw [hsingle]
    rfl
  -- where an unset field reads as absent, a field that is set has presence
  have hpresent : (!c.content.has f && (f.inOneof || f.kind.isMessage || f.isLegacy c.config)) = false := by
    have hkind : f.kind.isMessage = false := by
      cases hk : f.kind with
      | message d =>
        rw [hk] at hs
        cases hs
      | scalar | enum => rfl
    have hpresence := (FieldDescriptor.of_mem hd hfields).hasPresence_eq hp
    unfold FieldInfo.tracksPresence at hpresence
    rw [hsingle] at hpresence
    unfold FieldDescriptor.inOneof FieldDescriptor.isLegacy
    rw [Message.has_of_some hset, hkind, hpresence]
    cases f.info.oneof.isSome <;> cases f.message.info.edition == .proto2 <;> simp
  have hget : c.content.get f = .scalar s := Message.get_of_stored? rfl hset
  have hread : (readField c.content f c.config).run (mid.put r c) =
      (.ok (s.toValue f.kind), mid.put r c) := by
    unfold readField
    rw [hmap, hlist, hpresent, hget]
    rfl
  unfold messageAttr
  rw [run_bind, run_cell, hcell]
  simp only [hview, hfield]
  rw [run_bind, hread, show c.frozen = false from hthawed]
  exact ⟨_, rfl⟩

theorem normalize_scalar (hs : kind.scalarToStored v = .ok s) :
    (normalize kind v config).run h = (.ok (s.toValue kind), h) := by
  unfold normalize
  split
  · exact absurd rfl (Kind.ref?_of_scalarToStored hs).1
  · rw [run_bind, run_reading, Heap.toStored, Kind.toStored_of_scalarToStored hs]
    rfl

/-- **After a scalar was appended**, the view holds the form in which it was stored. -/
theorem mem_append {r : Ref .repeated} (hr : h.Has ⟨.repeated, r⟩)
    (hs : (h.cell r).kind.scalarToStored v = .ok s) (hrun : (append r v).run h = (.ok (), h')) :
    s.toValue (h.cell r).kind ∈ (h'.cell r).items := by
  unfold append at hrun
  obtain ⟨c, _, hcell, hrun⟩ := bind_ok.1 hrun
  cases hcell
  obtain ⟨_, _, hmutable, hrun⟩ := bind_ok.1 hrun
  obtain ⟨-, rfl⟩ := checkMutable_ok.1 hmutable
  rw [run_bind, normalize_scalar hs] at hrun
  cases hrun
  rw [Heap.cell_put_self _ _ _ hr]
  exact List.mem_append_right _ (.head _)

end Script

/-- **What is written is read back.** What a scalar type other than `float` takes is read as a value
that equals it, be it stored, read from a field that it was written to, or looked for in a view of a
repeated field that it was appended to; bytes that are UTF-8 are read as their text. -/
theorem Heap.equals_readBack (hkind : kind ≠ .scalar .float)
    (hnan : ∀ x, v = .float x → x.isNaN = false) (hs : h.toStored kind v config = .ok (.scalar s)) :
    h.equals (s.toValue kind) v.readBack = .ok true ∧
    (∀ (p : Pool) (r : Ref .message) (name : String) (f : FieldDescriptor) (h' : Heap),
      p.TracksPresence → h.Has ⟨.message, r⟩ → (h.cell r).content.descriptor.Among {p} →
      (h.cell r).content.descriptor.field? name = some f → f.kind = kind →
      (Script.setField r name v).run h = (.ok (), h') →
      ∃ read h'', (Script.messageAttr r name).run h' = (.ok (some read), h'') ∧
        h''.equals read v.readBack = .ok true) ∧
    ∀ (r : Ref .repeated) (h' : Heap), h.Has ⟨.repeated, r⟩ → (h.cell r).kind = kind →
      (Script.append r v).run h = (.ok (), h') → h'.contains (.repeated r) v.readBack = .ok true := by
  have hscalar : kind.scalarToStored v = .ok s := Kind.scalarToStored_of_toStored hs
  refine ⟨Kind.equals_toValue h hkind hnan hscalar, ?_, ?_⟩
  · rintro p r name f h' hp hr hd hf rfl hrun
    obtain ⟨h'', hread⟩ := Script.messageAttr_setField hp hr hd hf hscalar hrun
    exact ⟨_, h'', hread, Kind.equals_toValue h'' hkind hnan hscalar⟩
  · rintro r h' hr rfl hrun
    refine congrArg Except.ok (List.any_eq_true.2 ⟨_, Script.mem_append hr hscalar hrun, ?_⟩)
    unfold keysEqual
    rw [Kind.equals_toValue h' hkind hnan hscalar]
    rfl

end

namespace Sample

/-- An integer is read back from a field that it was written to, and found in a view that it was
appended to. -/
theorem five_read_back :
    listed.toStored (.scalar .int32) (.int 5) {} = .ok (.scalar (.i32 5)) ∧
    (∃ h' read h'', (Script.setField root "depth" (.int 5)).run listed = (.ok (), h') ∧
      (Script.messageAttr root "depth").run h' = (.ok (some read), h'') ∧
      h''.equals read (.int 5) = .ok true) ∧
    ∃ h', (Script.append ⟨0⟩ (.int 5)).run listed = (.ok (), h') ∧
      h'.contains (.repeated ⟨0⟩) (.int 5) = .ok true := by
  have hstored : listed.toStored (.scalar .int32) (.int 5) {} = .ok (.scalar (.i32 5)) := rfl
  have hkind : Kind.scalar .int32 ≠ .scalar .float := nofun
  have hnan (x : Double) (hx : Value.int 5 = .float x) : x.isNaN = false := nomatch hx
  have hamong : (listed.cell root).content.descriptor.Among {pool} :=
    ⟨Set.mem_singleton _, by decide⟩
  obtain ⟨-, hfield, hview⟩ := Heap.equals_readBack hkind hnan hstored
  obtain ⟨read, h'', hread, hequals⟩ := hfield pool root "depth" _ _ (by decide)
    (by decide : 0 < listed.messages.size) hamong rfl rfl rfl
  exact ⟨hstored, ⟨_, read, h'', rfl, hread, hequals⟩,
    _, rfl, hview ⟨0⟩ _ (by decide : 0 < listed.repeateds.size) rfl rfl⟩

/-- **Bytes that are UTF-8 are not read back**, but their text, which equals no bytes. -/
theorem letter_not_read_back : ∃ s, listed.toStored (.scalar .bytes) (.bytes [97]) {} = .ok (.scalar s) ∧
    listed.equals (s.toValue (.scalar .bytes)) (.bytes [97]) = .ok false := by
  have htext : ofUtf8? [97] = some "a" := ofUtf8?_utf8Bytes "a"
  refine ⟨.bytes [97], rfl, ?_⟩
  rw [Scalar.equals_toValue, Scalar.toValue, htext]
  rfl

end Sample

end Protoscript
