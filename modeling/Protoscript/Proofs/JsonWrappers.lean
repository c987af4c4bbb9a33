import Protoscript.Proofs.JsonScalars
import Protoscript.Proofs.Presence
import Protoscript.Proofs.WireFields

/-!
# Wrappers in JSON are read back

A wrapper is written as the bare value that it holds, and read as a wrapper that holds it. One that
holds nothing is written as a zero, and so is one that holds a zero; a zero is read as a wrapper that
holds nothing.

* `wrapperInfo`, `Pool.DeclaresWrappers` — the field of a wrapper, as `wrappersFile` declares it;
* `Pool.declaresWrappers_ofFiles` — it is, in pools where no other file declares wrappers;
* `MessageDescriptor.IsWrapper.readsBack` — a wrapper is read back.
-/

namespace Protoscript

/-! ## Zeros -/

/-- The pattern of a number at the origin is that of a zero. -/
theorem Layout.eq_signed_of_position {L : Layout} {bits : Nat} (hbits : bits < 2 * L.signUnit)
    (h : (L.datum bits).position? L = some 0) : ∃ negative, bits = L.signed negative 0 := by
  have hfar : 0 < L.farPosition := Int.natCast_pos.2 (pow2_pos _)
  rcases hdatum : L.datum bits with _ | negative | ⟨negative, s, e⟩ <;> rw [hdatum] at h
  · cases h
  · have := Option.some.inj h
    split at this <;> omega
  · obtain ⟨hn, -, heq⟩ := pattern_of_datum hbits hdatum
    have hpow := pow2_pos (e - L.minExponent).toNat
    have hzero : s = 0 := by
      have hmagnitude : ((s : Int) * pow2 (e - L.minExponent).toNat) = 0 := by
        have := Option.some.inj h
        split at this <;> omega
      rcases Int.mul_eq_zero.1 hmagnitude with hs | hs <;> omega
    have hunit := L.fractionUnit_pos
    refine ⟨negative, ?_⟩
    rw [heq, pattern, if_pos (by omega), hzero]

/-- A double that equals zero is one, with a sign. -/
theorem Double.eq_zero_of_equals {x : Double} (h : x.equals ⟨0⟩ = true) :
    ∃ negative, x = .zero negative := by
  obtain ⟨place, hx, hzero⟩ := equals_iff.1 h
  have hplace : (⟨0⟩ : Double).position? = some 0 := by decide +kernel
  rw [hplace] at hzero
  cases hzero
  obtain ⟨negative, hbits⟩ := Layout.eq_signed_of_position x.bits_lt hx
  refine ⟨negative, ?_⟩
  cases x
  exact congrArg Double.mk (UInt64.ofNat_toNat.symm.trans (congrArg UInt64.ofNat hbits))

/-- A single that equals zero is one, with a sign. -/
theorem Single.eq_zero_of_equals {x : Single} (h : x.equals ⟨0⟩ = true) :
    ∃ negative, x = .ofMagnitude negative 0 := by
  obtain ⟨place, hx, hzero⟩ := equals_iff.1 h
  have hplace : (⟨0⟩ : Single).position? = some 0 := by decide +kernel
  rw [hplace] at hzero
  cases hzero
  obtain ⟨negative, hbits⟩ := Layout.eq_signed_of_position x.bits_lt hx
  refine ⟨negative, ?_⟩
  cases x
  exact congrArg Single.mk (UInt32.ofNat_toNat.symm.trans (congrArg UInt32.ofNat hbits))

theorem Json.single?_zero (negative : Bool) :
    (Json.double (Single.ofMagnitude negative 0).toDouble).single? = some (.ofMagnitude negative 0) := by
  cases negative <;> decide +kernel

/-- Equal scalars are stored in one way. -/
theorem Scalar.storage?_of_equals {s u : Scalar} (h : s.equals u = true) : s.storage? = u.storage? := by
  cases s with
  | f32 x => cases u with
    | f32 y => rfl
    | _ => cases h
  | f64 x => cases u with
    | f64 y => rfl
    | _ => cases h
  | _ => exact congrArg storage? (beq_iff_eq.1 h)

/-- **A scalar that equals zero is read back as one.** -/
theorem ScalarType.ofJson?_zero {t : ScalarType} {s : Scalar} (hs : s.equals (.zero t.storage) = true) :
    (s.toBareJson (.scalar t)).Legible ∧ ∃ z, t.ofJson? (s.toBareJson (.scalar t)).reread = some z ∧
      z.equals (.zero t.storage) = true := by
  by_cases hfloat : (Kind.scalar t).isFloat = true
  · have hstorage : t.storage = .f32 ∨ t.storage = .f64 := by
      simpa [Kind.isFloat] using hfloat
    unfold ofJson?
    rcases hstorage with hstorage | hstorage <;> rw [hstorage] at hs ⊢
    · cases s with
      | f32 x =>
        obtain ⟨negative, rfl⟩ := Single.eq_zero_of_equals hs
        exact ⟨.single, .f32 (.ofMagnitude negative 0),
          congrArg (Option.map Scalar.f32) (Json.single?_zero negative), hs⟩
      | _ => cases hs
    · cases s with
      | f64 x =>
        obtain ⟨negative, rfl⟩ := Double.eq_zero_of_equals hs
        exact ⟨.double, .f64 (.zero negative), rfl, hs⟩
      | _ => cases hs
  · have hfloat : (Kind.scalar t).isFloat = false := Bool.eq_false_iff.2 hfloat
    have hstored : s.storage? = some t.storage :=
      (Scalar.storage?_of_equals hs).trans (Scalar.storage?_zero t.storage)
    have hholds : (Kind.scalar t).HoldsScalar s := hstored
    obtain ⟨h32, h64⟩ := hholds.not_float hfloat
    rw [Scalar.reread_toBareJson h32 h64]
    exact ⟨Scalar.legible_toBareJson h32 h64, s, ScalarType.ofJson?_toBareJson hstored hfloat, hs⟩

/-! ## The field of a wrapper -/

/-- The field `value` of a wrapper, as `wrappersFile` declares it. -/
def wrapperInfo (t : ScalarType) : FieldInfo where
  name := "value"
  jsonName := "value"
  number := 1
  isRepeated := false
  kind := .scalar t
  hasPresence := false
  declaredDefault := none
  oneof := none
  takes_default := by rintro _ ⟨⟩
  repeated_presence := fun _ _ => rfl

/-- Whether a type wraps a scalar type, and has the field that `wrappersFile` declares. -/
structure MessageDescriptor.IsWrapper (d : MessageDescriptor) (t : ScalarType) : Prop where
  name : wrappedType? d.fullName = some t
  fields : d.info.fields = [wrapperInfo t]

/-- Whether all wrappers of a pool have the field that `wrappersFile` declares. -/
def Pool.DeclaresWrappers (p : Pool) : Prop :=
  ∀ m ∈ p.messages, ∀ t, wrappedType? m.fullName = some t → m.fields = [wrapperInfo t]

/-- What `wrappersFile` declares a wrapper as. -/
def wrapperDecl (w : String × ScalarType) : MessageDecl where
  name := w.1
  fields := [MessageBuilder.declare "value" 1 (.scalar w.2) .optional]
  nested := []
  enums := []
  oneofs := []
  isMapEntry := false

theorem flattenAll_wrappersFile (file place : Nat) :
    MessageSite.flatten.flattenAll file wrappersFile.package none place wrappersFile.messages =
      wrapperTypes.map fun w => ⟨file, "google.protobuf", none, wrapperDecl w⟩ := rfl

/-- The field that `wrappersFile` declares is that of a wrapper. -/
theorem Scope.eq_wrapperInfo {s : Scope} {site : MessageSite} {t : ScalarType} {f : FieldInfo}
    (hedition : (s.files.getD site.file default).edition = .proto3)
    (h : s.field site (MessageBuilder.declare "value" 1 (.scalar t) .optional) = .ok f) :
    f = wrapperInfo t := by
  have hname : lowerCamel "value" = "value" := by decide
  have hpresence : ((s.files.getD site.file default).edition == Edition.proto2) = false := by
    rw [hedition]
    rfl
  cases h
  simp only [wrapperInfo, FieldInfo.mk.injEq]
  exact ⟨rfl, hname, rfl, rfl, trivial, hpresence, trivial, rfl⟩

/-- **The wrappers of a pool that was made from files** have the field that `wrappersFile` declares, if
no other file declares wrappers. -/
theorem Pool.declaresWrappers_ofFiles {p : Pool} {id : Nat} {files : List FileDecl}
    (h : Pool.ofFiles id files = .ok p)
    (hfiles : ∀ site ∈ messageSites files, (wrappedType? site.fullName).isSome →
      files[site.file]? = some wrappersFile) : p.DeclaresWrappers := by
  intro m hm t ht
  obtain ⟨s, site, hmem, rfl, hsite⟩ := messages_ofFiles h m hm
  unfold Scope.message at hsite
  obtain ⟨fields, hfields, hsite⟩ := Except.bind_ok.1 hsite
  obtain ⟨numbers, -, hsite⟩ := Except.bind_ok.1 hsite
  obtain ⟨-, -, hsite⟩ := Except.bind_ok.1 hsite
  obtain ⟨names, -, hsite⟩ := Except.bind_ok.1 hsite
  cases hsite
  have ht : wrappedType? site.fullName = some t := ht
  have hwrappers := hfiles site hmem (by rw [ht]; rfl)
  obtain ⟨file, place, hfile, hsite⟩ := exists_of_mem_messageSites hmem
  obtain rfl : file = wrappersFile := Option.some.inj (hfile.symm.trans hwrappers)
  have hedition : (s.files.getD site.file default).edition = .proto3 := by
    rw [List.getD_eq_getElem?_getD, hwrappers]
    rfl
  rw [flattenAll_wrappersFile] at hsite
  obtain ⟨w, hw, heq⟩ := List.mem_map.1 hsite
  have hdecl : site.decl = wrapperDecl w := by rw [← heq]
  -- the name of the wrapper tells the type that it holds
  have hnames : ∀ w ∈ wrapperTypes, wrappedType? (joinName "google.protobuf" w.1) = some w.2 := by decide
  obtain rfl : w.2 = t := by
    rw [← heq] at ht
    exact Option.some.inj ((hnames w hw).symm.trans ht)
  rw [hdecl] at hfields
  obtain _ | ⟨hf, _ | _⟩ := Except.mapM_ok.1 hfields
  obtain rfl := Scope.eq_wrapperInfo hedition hf
  exact List.mergeSort_singleton _

namespace MessageDescriptor.IsWrapper

variable {d : MessageDescriptor} {t : ScalarType} (hd : d.IsWrapper t)

include hd

/-- The field that holds the value. -/
theorem mem : ⟨d, wrapperInfo t⟩ ∈ d.fields := by
  unfold MessageDescriptor.fields
  rw [hd.fields]
  exact List.mem_singleton_self _

theorem eq_of_mem {f : FieldDescriptor} (hf : f ∈ d.fields) : f = ⟨d, wrapperInfo t⟩ := by
  unfold MessageDescriptor.fields at hf
  rw [hd.fields] at hf
  exact List.mem_singleton.1 hf

theorem numbered? : d.numbered? 1 = some ⟨d, wrapperInfo t⟩ := by
  unfold MessageDescriptor.numbered?
  rw [hd.fields]
  rfl

/-- A zero is read as a wrapper that holds nothing. -/
theorem wrapping_of_zero {z : Scalar} (hz : z.equals (.zero t.storage) = true) :
    Message.wrapping d z = .empty d := by
  rw [Message.wrapping, hd.numbered?]
  exact if_pos hz

/-- Any other value is read as a wrapper that holds it. -/
theorem wrapping_of_ne {s : Scalar} (hs : s.storage? = some t.storage)
    (hne : s.equals (.zero t.storage) = false) :
    Message.wrapping d s = (Message.empty d).set ⟨d, wrapperInfo t⟩ (.scalar s) := by
  have hnumber : (Message.empty d).descriptor.numbered? 1 = some ⟨d, wrapperInfo t⟩ := hd.numbered?
  have hholds : (Kind.scalar t).HoldsScalar s := hs
  have htakes : FieldDescriptor.takes ⟨d, wrapperInfo t⟩ s = true := Kind.takes_iff.2 hholds
  have hdefault : (Stored.scalar s).isDefaultOf ⟨d, wrapperInfo t⟩ = false := hne
  rw [Message.wrapping, hd.numbered?]
  dsimp only
  rw [hdefault, if_neg Bool.false_ne_true, Message.setNumber, hnumber]
  exact if_pos htakes

variable {m : Message} (hm : d.Takes m)

include hm

omit hd in
/-- What the field that holds the value holds. -/
theorem exists_scalar {s : Stored} (hs : m.stored? ⟨d, wrapperInfo t⟩ = some s)
    (hmem : ⟨d, wrapperInfo t⟩ ∈ d.fields) : ∃ v, s = .scalar v ∧ v.storage? = some t.storage := by
  have hholds := hm.stored hmem hs
  cases hholds with
  | single _ _ hs =>
    cases hs with
    | scalar hv => exact ⟨_, rfl, hv⟩
  | list hlist => exact absurd hlist Bool.false_ne_true
  | map hmap => exact absurd hmap Bool.false_ne_true

/-- A wrapper whose value is not set is like one that holds nothing. -/
theorem alike_empty (hno : m.has ⟨d, wrapperInfo t⟩ = false) : m.Alike False (.empty d) := by
  refine .mk hm.descriptor.symm (fun f hf => ?_) (fun f hf hset => ?_) False.elim
  all_goals
    rw [hm.descriptor] at hf
    obtain rfl := hd.eq_of_mem hf
  · rw [hno]
    rfl
  · rw [hno] at hset
    cases hset

/-- A wrapper whose value is set is like one that holds the value. -/
theorem alike_set {v : Scalar} (hv : m.stored? ⟨d, wrapperInfo t⟩ = some (.scalar v)) :
    m.Alike False ((Message.empty d).set ⟨d, wrapperInfo t⟩ (.scalar v)) := by
  have hstored : ((Message.empty d).set ⟨d, wrapperInfo t⟩ (.scalar v)).stored? ⟨d, wrapperInfo t⟩ =
      some (.scalar v) := Message.stored?_set_self _ rfl _
  refine .mk ((Message.descriptor_set _ _ _).trans hm.descriptor.symm) (fun f hf => ?_)
    (fun f hf _ s u hs hu => ?_) False.elim
  all_goals
    rw [hm.descriptor] at hf
    obtain rfl := hd.eq_of_mem hf
  · exact Message.has_congr (hstored.trans hv.symm)
  · cases hv.symm.trans hs
    cases hstored.symm.trans hu
    exact .scalar (.inl rfl)

/-- **A wrapper is read back**, if it holds a floating-point number only if that is zero. -/
theorem readsBack (hfloat : m.has ⟨d, wrapperInfo t⟩ = true → (Kind.scalar t).isFloat = false) :
    (m.bareJson t).Legible ∧ ∃ n, (t.ofJson? (m.bareJson t).reread).map (.wrapping d) = some n ∧
      m.Alike False n := by
  -- a value that is not set is written as a zero
  have hunset {v : Scalar} (hbare : m.bareJson t = v.toBareJson (.scalar t))
      (hv : v.equals (.zero t.storage) = true) (hno : m.has ⟨d, wrapperInfo t⟩ = false) :
      (m.bareJson t).Legible ∧ ∃ n, (t.ofJson? (m.bareJson t).reread).map (.wrapping d) = some n ∧
        m.Alike False n := by
    obtain ⟨hlegible, z, hread, hz⟩ := ScalarType.ofJson?_zero hv
    rw [hbare, hread, Option.map_some, hd.wrapping_of_zero hz]
    exact ⟨hlegible, _, rfl, hd.alike_empty hm hno⟩
  have hlookup : lookupNumber 1 m.fields = m.stored? ⟨d, wrapperInfo t⟩ := rfl
  rcases hstored : m.stored? ⟨d, wrapperInfo t⟩ with _ | s
  · refine hunset (v := .zero t.storage) ?_ (Scalar.equals_self ?_) ?_
    · rw [Message.bareJson, hlookup, hstored]
    · rcases t.storage <;> decide +kernel
    · rw [Message.has, hstored]
  · obtain ⟨v, rfl, hv⟩ := exists_scalar hm hstored hd.mem
    have hbare : m.bareJson t = v.toBareJson (.scalar t) := by
      rw [Message.bareJson, hlookup, hstored]
    have hhas : m.has ⟨d, wrapperInfo t⟩ = !v.equals (.zero t.storage) := by
      rw [Message.has, hstored]
      rfl
    rcases hzero : v.equals (.zero t.storage) with _ | _
    · have hexact := hfloat (by rw [hhas, hzero]; rfl)
      have hholds : (Kind.scalar t).HoldsScalar v := hv
      obtain ⟨h32, h64⟩ := hholds.not_float hexact
      rw [hbare, Scalar.reread_toBareJson h32 h64, ScalarType.ofJson?_toBareJson hv hexact,
        Option.map_some, hd.wrapping_of_ne hv hzero]
      exact ⟨Scalar.legible_toBareJson h32 h64, _, rfl, hd.alike_set hm hstored⟩
    · exact hunset hbare hzero (by rw [hhas, hzero]; rfl)

end MessageDescriptor.IsWrapper

end Protoscript
