import Protoscript.Proofs.Checking
import Protoscript.Proofs.Editing
import Protoscript.Proofs.Refilling

/-!
# What fields accept

One grammar says which values may be written into which fields: by the type of the field, by whether
the field is a map, a list or neither, and by whether the legacy rules apply to it.

* `ScalarType.range?` — the integers of an integer type;
* `ScalarType.accepts`, `Kind.acceptsBare`, `Heap.accepts` — the values that fit a type;
* `Heap.AcceptsFor` — the values that fit a field;
* `Heap.RefusesAt` — the first part of a value that does not fit;
* `Script.setField_accepts` — a field takes just the values that fit it.
-/

namespace Protoscript

variable {p : Pool}

/-! ## Values that fit -/

namespace ScalarType

/-- The integers of an integer type, from the first bound on and below the second. -/
def range? : ScalarType → Option (Int × Int)
  | int32 | sint32 | sfixed32 => some (-2 ^ 31, 2 ^ 31)
  | int64 | sint64 | sfixed64 => some (-2 ^ 63, 2 ^ 63)
  | uint32 | fixed32 => some (0, 2 ^ 32)
  | uint64 | fixed64 => some (0, 2 ^ 64)
  | double | float | bool | string | bytes => none

/-- Whether a value fits a scalar type. -/
def accepts (t : ScalarType) : Value → Bool
  | .bool _ => t == bool
  | .text _ => t == string || t == bytes
  | .bytes _ => t == bytes
  | .float _ => t == float || t == double
  | .int n => t == float || t == double || t.range?.any fun r => r.1 ≤ n && n < r.2
  | _ => false

end ScalarType

/-- Whether a value fits a type other than a message. -/
def Kind.acceptsBare (kind : Kind) (v : Value) : Bool :=
  match kind, v with
  | .scalar t, v => t.accepts v
  | .enum d, .enum e => e.enumName == d.fullName
  | _, _ => false

/-- The scalar type that a bare value must fit which is given for a type. -/
def Kind.scalar? (kind : Kind) (config : Config) : Option ScalarType :=
  match kind with
  | .scalar t => some t
  | .message d =>
    if config.isScalarWrapper d.fullName then
      d.boxField?.bind fun f =>
        match f.kind with
        | .scalar t => some t
        | .message _ | .enum _ => none
    else none
  | .enum _ => none

namespace Heap

/-- Whether a value fits a type. For a wrapper message there may be what fits the field in it. -/
def accepts (h : Heap) (kind : Kind) (config : Config) (v : Value) : Bool :=
  match kind, v with
  | .message d, .message r => h.fullName r == d.fullName
  | .message d, v =>
    config.isScalarWrapper d.fullName && d.boxField?.any fun f => f.kind.acceptsBare v
  | kind, v => kind.acceptsBare v

/-- Whether a pair fits a map field. Under the legacy rules no value needs to be there. -/
def AcceptsPair (h : Heap) (f : FieldDescriptor) (config : Config) (e : Value × Value) : Prop :=
  h.accepts f.keyKind config e.1 = true ∧
    (e.2 = .absent ∧ f.isLegacy config = true ∨ h.accepts f.valueKind config e.2 = true)

/-- Whether a value fits a field. -/
inductive AcceptsFor (h : Heap) (f : FieldDescriptor) (config : Config) (v : Value) : Prop
  | map {entries : List (Value × Value)} (hmap : f.isMap = true)
    (hentries : h.mappingEntries? v = some entries) (hpairs : ∀ e ∈ entries, h.AcceptsPair f config e)
  | list {items : List Value} (hlist : f.isList = true) (hsequence : v.isSequence = true)
    (hitems : h.iterate v = .ok items) (hfit : ∀ w ∈ items, h.accepts f.kind config w = true)
  | unset (hmap : f.isMap = false) (hlist : f.isList = false) (habsent : v = .absent)
    (hoptional : f.kind.isMessage = true ∨ f.isLegacy config = true)
  | single (hmap : f.isMap = false) (hlist : f.isList = false)
    (hfit : h.accepts f.kind config v = true)

/-- Whether the first part of a value that does not fit a field is the given one, which is there for
the given type. -/
inductive RefusesAt (h : Heap) (f : FieldDescriptor) (config : Config) (v : Value) :
    Kind → Value → Prop
  | key {before after : List (Value × Value)} {e : Value × Value} (hmap : f.isMap = true)
    (hentries : h.mappingEntries? v = some (before ++ e :: after))
    (hbefore : ∀ e ∈ before, h.AcceptsPair f config e)
    (hkey : h.accepts f.keyKind config e.1 = false) : RefusesAt h f config v f.keyKind e.1
  | value {before after : List (Value × Value)} {e : Value × Value} (hmap : f.isMap = true)
    (hentries : h.mappingEntries? v = some (before ++ e :: after))
    (hbefore : ∀ e ∈ before, h.AcceptsPair f config e)
    (hkey : h.accepts f.keyKind config e.1 = true)
    (hvalue : h.accepts f.valueKind config e.2 = false) : RefusesAt h f config v f.valueKind e.2
  | item {before after : List Value} {w : Value} (hlist : f.isList = true)
    (hsequence : v.isSequence = true) (hitems : h.iterate v = .ok (before ++ w :: after))
    (hbefore : ∀ w ∈ before, h.accepts f.kind config w = true)
    (hitem : h.accepts f.kind config w = false) : RefusesAt h f config v f.kind w
  | single (hmap : f.isMap = false) (hlist : f.isList = false)
    (hvalue : h.accepts f.kind config v = false) : RefusesAt h f config v f.kind v

end Heap

/-! ## Scalars -/

theorem fitsSigned_iff {width : Nat} {n : Int} :
    fitsSigned width n = true ↔ -(pow2 (width - 1) : Int) ≤ n ∧ n < pow2 (width - 1) := by
  simp [fitsSigned]

theorem fitsUnsigned_iff {width : Nat} {n : Int} :
    fitsUnsigned width n = true ↔ 0 ≤ n ∧ n < pow2 width := by
  simp [fitsUnsigned]

theorem isSome_int32Of? {n : Int} : (int32Of? n).isSome = true ↔ -2 ^ 31 ≤ n ∧ n < 2 ^ 31 := by
  simp only [int32Of?, Option.isSome_ite, fitsSigned_iff]
  rfl

theorem isSome_int64Of? {n : Int} : (int64Of? n).isSome = true ↔ -2 ^ 63 ≤ n ∧ n < 2 ^ 63 := by
  simp only [int64Of?, Option.isSome_ite, fitsSigned_iff]
  rfl

theorem isSome_uint32Of? {n : Int} : (uint32Of? n).isSome = true ↔ 0 ≤ n ∧ n < 2 ^ 32 := by
  simp only [uint32Of?, Option.isSome_ite, fitsUnsigned_iff]
  rfl

theorem isSome_uint64Of? {n : Int} : (uint64Of? n).isSome = true ↔ 0 ≤ n ∧ n < 2 ^ 64 := by
  simp only [uint64Of?, Option.isSome_ite, fitsUnsigned_iff]
  rfl

namespace ScalarType

variable {t : ScalarType} {r : Int × Int}

/-- An integer type stores the integers in its range. -/
theorem toStored_of_range (hr : t.range? = some r) : ∃ convert : Int → Option Scalar,
    (∀ n, (convert n).isSome = true ↔ r.1 ≤ n ∧ n < r.2) ∧
      ∀ v, t.toStored v = intInRange (.scalar t) v convert := by
  cases t <;> cases hr
  case int32 | sint32 | sfixed32 =>
    exact ⟨_, fun n => by rw [Option.isSome_map, isSome_int32Of?], fun _ => rfl⟩
  case int64 | sint64 | sfixed64 =>
    exact ⟨_, fun n => by rw [Option.isSome_map, isSome_int64Of?], fun _ => rfl⟩
  case uint32 | fixed32 =>
    exact ⟨_, fun n => by rw [Option.isSome_map, isSome_uint32Of?], fun _ => rfl⟩
  case uint64 | fixed64 =>
    exact ⟨_, fun n => by rw [Option.isSome_map, isSome_uint64Of?], fun _ => rfl⟩

/-- The values that fit an integer type. -/
theorem accepts_of_range (hr : t.range? = some r) (v : Value) :
    t.accepts v = true ↔ ∃ n, v = .int n ∧ r.1 ≤ n ∧ n < r.2 := by
  cases t <;> cases hr <;> cases v <;> simp [accepts, range?]

/-- A scalar type stores the values that fit it. -/
theorem toStored_isOk (t : ScalarType) (v : Value) :
    (∃ s, t.toStored v = .ok s) ↔ t.accepts v = true := by
  rcases hr : t.range? with _ | r
  · cases t <;> first
      | (cases hr; done)
      | (cases v <;> simp [toStored, storage, accepts, range?])
  · obtain ⟨convert, hconvert, htoStored⟩ := toStored_of_range hr
    rw [htoStored, accepts_of_range hr]
    constructor
    · rintro ⟨s, hs⟩
      obtain ⟨n, rfl, hn⟩ := exists_of_intInRange hs
      exact ⟨n, rfl, (hconvert n).1 (Option.isSome_iff_exists.2 ⟨s, hn⟩)⟩
    · rintro ⟨n, rfl, hn⟩
      obtain ⟨s, hs⟩ := Option.isSome_iff_exists.1 ((hconvert n).2 hn)
      exact ⟨s, by simp [intInRange, hs]⟩

/-- The error of an integer out of the range of an integer type names both. -/
theorem toStored_overflow {n : Int} (hr : t.range? = some r) (hn : t.accepts (.int n) = false) :
    t.toStored (.int n) = .error (.overflow n t.name) := by
  obtain ⟨convert, hconvert, htoStored⟩ := toStored_of_range hr
  have hnone : convert n = none := by
    refine Option.not_isSome_iff_eq_none.1 fun hsome => ?_
    rw [(accepts_of_range hr _).2 ⟨n, rfl, (hconvert n).1 hsome⟩] at hn
    cases hn
  rw [htoStored]
  simp [intInRange, hnone, Kind.name]

end ScalarType

theorem Kind.scalarToStored_isOk (kind : Kind) (v : Value) :
    (∃ s, kind.scalarToStored v = .ok s) ↔ kind.acceptsBare v = true := by
  cases kind with
  | scalar t => exact t.toStored_isOk v
  | message d => simp [scalarToStored, acceptsBare]
  | enum d =>
    unfold scalarToStored EnumDescriptor.toStored acceptsBare
    cases v <;> simp
    split <;> simp_all

theorem MessageDescriptor.box_isOk (d : MessageDescriptor) (v : Value) :
    (∃ m, d.box v = .ok m) ↔ d.boxField?.any (·.kind.acceptsBare v) = true := by
  unfold box
  rcases hf : d.boxField? with _ | f
  · simp
  · rw [Option.any_some, ← f.kind.scalarToStored_isOk]
    rcases hs : f.kind.scalarToStored v with e | s <;> simp [hs]

namespace Heap

variable {h : Heap} {kind : Kind} {config : Config} {v : Value} {f : FieldDescriptor}

theorem accepts_bare {d : MessageDescriptor} (hv : ∀ r, v ≠ .message r) :
    h.accepts (.message d) config v =
      (config.isScalarWrapper d.fullName && d.boxField?.any fun f => f.kind.acceptsBare v) := by
  cases v <;> first | rfl | exact absurd rfl (hv _)

section

variable (hh : Reachable {p} h) (hkeys : p.PlainKeys)

include hh hkeys

/-- A type stores the values that fit it. -/
theorem Reachable.toStored_isOk (hk : kind.Of p) (hv : v.Within h) :
    (∃ s, h.toStored kind v config = .ok s) ↔ h.accepts kind config v = true := by
  have bare (hkind : h.toStored kind v config = (kind.scalarToStored v).map .scalar)
      (haccepts : h.accepts kind config v = kind.acceptsBare v) :
      (∃ s, h.toStored kind v config = .ok s) ↔ h.accepts kind config v = true := by
    rw [hkind, haccepts, ← kind.scalarToStored_isOk]
    simp only [Except.map_ok]
    exact ⟨fun ⟨_, s, hs, _⟩ => ⟨s, hs⟩, fun ⟨s, hs⟩ => ⟨_, s, hs, rfl⟩⟩
  cases kind with
  | scalar t => exact bare rfl rfl
  | enum d => exact bare rfl rfl
  | message d =>
    by_cases hmessage : ∃ r, v = .message r
    · obtain ⟨r, rfl⟩ := hmessage
      have hr : h.Has ⟨.message, r⟩ := hv.has rfl
      constructor
      · rintro ⟨s, hs⟩
        obtain ⟨m, hm, -⟩ := Except.map_ok.1 hs
        rcases MessageDescriptor.toStored_cases hm with ⟨_, _, hr, hname, -⟩ | ⟨hne, -⟩
        · cases hr
          exact beq_iff_eq.2 hname
        · exact absurd rfl (hne r)
      · intro hname
        obtain ⟨m, hm, htakes⟩ := ((hh.storage_sound hkeys).1 r hr).2.2
        have hd : (h.cell r).content.descriptor = d :=
          MessageDescriptor.eq_of_fullName (hh.typed.message hr).among (hk d rfl) (beq_iff_eq.1 hname)
        exact ⟨_, toStored_message hd hm (htakes.descriptor.trans hd)⟩
    · have hv (r : Ref .message) : v ≠ .message r := fun he => hmessage ⟨r, he⟩
      rw [accepts_bare hv]
      unfold Heap.toStored Kind.toStored
      simp only [Except.map_ok]
      rw [MessageDescriptor.toStored_bare hv]
      by_cases hwrapper : config.isScalarWrapper d.fullName = true
      · rw [if_pos hwrapper, hwrapper, Bool.true_and, ← d.box_isOk]
        exact ⟨fun ⟨_, m, hm, _⟩ => ⟨m, hm⟩, fun ⟨m, hm⟩ => ⟨_, m, hm, rfl⟩⟩
      · simp [hwrapper]

/-- So is an item of a view. -/
theorem Reachable.check_isOk (hk : kind.Of p) (hv : v.Within h) :
    (∃ s, h.check kind config v = .ok s) ↔ h.accepts kind config v = true := by
  simp only [check_ok]
  exact hh.toStored_isOk hkeys hk hv

/-- So is a pair. -/
theorem Reachable.checkUpdate_isOk {e : Value × Value} (hf : f.Of p) (hkey : e.1.Within h)
    (hvalue : e.2.Within h) :
    (∃ u, h.checkUpdate { field := f, config := config } e = .ok u) ↔ h.AcceptsPair f config e := by
  obtain ⟨key, value⟩ := e
  unfold AcceptsPair
  rw [← hh.check_isOk hkeys hf.keyKind hkey, ← hh.check_isOk hkeys hf.valueKind hvalue]
  by_cases habsent : value = .absent
  · subst habsent
    rw [checkUpdate_absent]
    constructor
    · rintro ⟨u, hu⟩
      obtain ⟨s, hs, hu⟩ := Except.bind_ok.1 hu
      by_cases hlegacy : f.isLegacy config = true
      · exact ⟨⟨s, hs⟩, .inl ⟨rfl, hlegacy⟩⟩
      · simp only [if_neg hlegacy] at hu
        cases hu
    · rintro ⟨⟨s, hs⟩, ⟨-, hlegacy⟩ | ⟨t, ht⟩⟩
      · exact ⟨(s, none), Except.bind_ok.2 ⟨s, hs, if_pos hlegacy⟩⟩
      · cases ht
  · rw [checkUpdate_of_ne habsent]
    constructor
    · rintro ⟨u, hu⟩
      obtain ⟨s, hs, hu⟩ := Except.bind_ok.1 hu
      obtain ⟨t, ht, -⟩ := Except.bind_ok.1 hu
      exact ⟨⟨s, hs⟩, .inr ⟨t, ht⟩⟩
    · rintro ⟨⟨s, hs⟩, ⟨hnone, -⟩ | ⟨t, ht⟩⟩
      · exact absurd hnone habsent
      · exact ⟨(s, some t), Except.bind_ok.2 ⟨s, hs, Except.bind_ok.2 ⟨t, ht, rfl⟩⟩⟩

end

/-- The error of an integer that is given for a type and is out of range. -/
theorem check_overflow {t : ScalarType} {n : Int} (hkind : kind.scalar? config = some t)
    (ht : t.range?.isSome) (hn : h.accepts kind config (.int n) = false) :
    h.check kind config (.int n) = .error (.overflow n t.name) := by
  obtain ⟨r, hr⟩ := Option.isSome_iff_exists.1 ht
  have hthere : Value.int n ≠ .absent := nofun
  have hbare (q : Ref .message) : Value.int n ≠ .message q := nofun
  rw [check_eq_toStored hthere]
  cases kind with
  | scalar t' =>
    cases hkind
    have hstored := ScalarType.toStored_overflow hr hn
    exact congrArg (Except.map Stored.scalar) hstored
  | enum d => cases hkind
  | message d =>
    unfold Kind.scalar? at hkind
    by_cases hwrapper : config.isScalarWrapper d.fullName = true
    · simp only [if_pos hwrapper] at hkind
      obtain ⟨g, hg, hkind⟩ := Option.bind_eq_some_iff.1 hkind
      have hgkind : g.kind = .scalar t := by
        revert hkind
        rcases g.kind with t' | d' | d' <;> intro hkind <;> cases hkind
        rfl
      have hn : t.accepts (.int n) = false := by
        rw [accepts_bare hbare, hwrapper, hg, Bool.true_and, Option.any_some, hgkind] at hn
        exact hn
      have hbox : d.box (.int n) = .error (.overflow n t.name) := by
        have hstored : (Kind.scalar t).scalarToStored (.int n) = .error (.overflow n t.name) :=
          ScalarType.toStored_overflow hr hn
        unfold MessageDescriptor.box
        simp only [hg, hgkind, hstored]
      have hstored : d.toStored h h.contents (.int n) config = .error (.overflow n t.name) := by
        rw [MessageDescriptor.toStored_bare hbare, if_pos hwrapper, hbox]
      exact congrArg (Except.map Stored.message) hstored
    · simp [hwrapper] at hkind

end Heap

/-- What an operation gives is a heap of the run, too. -/
theorem Heap.Reachable.of_run {pools : Set Pool} {h g : Heap} {α : Type} {op : Operation α}
    {a : Except Error α} (hh : Reachable pools h) (hop : op.Within pools h) (hrun : op.run h = (a, g)) :
    Reachable pools g := by
  have hafter : Reachable pools (op.run h).2 := hh.tail (.operation op hop)
  rw [hrun] at hafter
  exact hafter

namespace Script

variable {h h' : Heap} {f : FieldDescriptor} {v : Value} {config : Config} {e : Error}

/-- What is made from a view fails only as the view does, if views can be flushed. -/
theorem flush_isOk {t : Shelf} {s : Script (Ref t)} {flush : Heap → Ref t → Except Error Stored}
    (hflush : ∀ q g, s.run h = (.ok q, g) → ∃ x, flush g q = .ok x) :
    (∃ stored h', Script.run (do
        let view ← s
        return some (← reading (flush · view))) h = (.ok stored, h')) ↔
      ∃ q g, s.run h = (.ok q, g) := by
  constructor
  · rintro ⟨stored, h', hrun⟩
    obtain ⟨q, g, hq, -⟩ := bind_ok.1 hrun
    exact ⟨q, g, hq⟩
  · rintro ⟨q, g, hq⟩
    obtain ⟨x, hx⟩ := hflush q g hq
    exact ⟨some x, g, bind_ok.2 ⟨q, g, hq, bind_ok.2 ⟨x, g, reading_ok.2 ⟨hx, rfl⟩, rfl⟩⟩⟩

section

variable (hh : Heap.Reachable {p} h) (hkeys : p.PlainKeys) (hf : f.Of p) (hv : v.Within h)

include hh hkeys hf hv

/-- A view of a list field is made from the sequences whose items fit. -/
theorem repeatedOf_isOk : (∃ q g, (repeatedOf f v config).run h = (.ok q, g)) ↔
    v.isSequence = true ∧ ∃ items, h.iterate v = .ok items ∧
      ∀ w ∈ items, h.accepts f.kind config w = true := by
  constructor
  · rintro ⟨q, g, hrun⟩
    have hsequence : v.isSequence = true := by
      cases v <;> first | rfl | cases hrun
    rw [repeatedOf_of_isSequence hsequence] at hrun
    obtain ⟨items, _, hreading, hrun⟩ := bind_ok.1 hrun
    obtain ⟨hitems, rfl⟩ := reading_ok.1 hreading
    obtain ⟨checked, mid, hchecked, -⟩ := bind_ok.1 hrun
    have hwithin := hh.closed.iterate hv hitems
    obtain ⟨stored, hstored, -⟩ :=
      ((normalizeAll_performs hh.closed hwithin).ok_iff (.refl ∅ h)).1 hchecked
    refine ⟨hsequence, items, hitems, fun w hw => ?_⟩
    exact (hh.check_isOk hkeys hf.kind (hwithin w hw)).1 (Except.mapM_isOk_iff.1 ⟨stored, hstored⟩ w hw)
  · rintro ⟨hsequence, items, hitems, hfit⟩
    have hwithin := hh.closed.iterate hv hitems
    obtain ⟨stored, hstored⟩ := Except.mapM_isOk_iff.2 fun w hw =>
      (hh.check_isOk hkeys hf.kind (hwithin w hw)).2 (hfit w hw)
    obtain ⟨hchecked, -⟩ := (normalizeAll_performs hh.closed hwithin).ok (.refl ∅ h) hstored
    rw [repeatedOf_of_isSequence hsequence]
    exact ⟨_, _, bind_ok.2 ⟨items, h, reading_ok.2 ⟨hitems, rfl⟩, bind_ok.2 ⟨_, _, hchecked, rfl⟩⟩⟩

/-- A view of a map field is made from the mappings whose pairs fit. -/
theorem mapOf_isOk (hmap : f.isMap = true) : (∃ q g, (mapOf f v config).run h = (.ok q, g)) ↔
    ∃ entries, h.mappingEntries? v = some entries ∧ ∀ e ∈ entries, h.AcceptsPair f config e := by
  rcases hentries : h.mappingEntries? v with _ | entries
  · rw [mapOf_of_none hmap hentries]
    simp
  have hwithin := hh.closed.mappingEntries hv hentries
  rw [mapOf_of_some hmap hentries]
  constructor
  · rintro ⟨q, g, hrun⟩
    obtain ⟨updates, mid, hupdates, -⟩ := bind_ok.1 hrun
    obtain ⟨stored, hstored, -⟩ :=
      ((checkPairs_performs hh.closed hwithin).ok_iff (.refl ∅ h)).1 hupdates
    refine ⟨entries, rfl, fun e he => ?_⟩
    exact (hh.checkUpdate_isOk hkeys hf (hwithin e he).1 (hwithin e he).2).1
      (Except.mapM_isOk_iff.1 ⟨stored, hstored⟩ e he)
  · rintro ⟨_, he, hfit⟩
    cases he
    obtain ⟨stored, hstored⟩ := Except.mapM_isOk_iff.2 fun e he =>
      (hh.checkUpdate_isOk hkeys hf (hwithin e he).1 (hwithin e he).2).2 (hfit e he)
    obtain ⟨hupdates, -⟩ := (checkPairs_performs hh.closed hwithin).ok (.refl ∅ h) hstored
    exact ⟨_, _, bind_ok.2 ⟨_, _, hupdates, bind_ok.2 ⟨_, _, rfl, rfl⟩⟩⟩

variable (hfrom : v.From {p})

include hfrom

/-- A map field takes the mappings whose pairs fit. -/
theorem storedFor_map_isOk (hmap : f.isMap = true) :
    (∃ stored h', (storedFor f v config).run h = (.ok stored, h')) ↔
      ∃ entries, h.mappingEntries? v = some entries ∧ ∀ e ∈ entries, h.AcceptsPair f config e := by
  have hpool : f.message.pool ∈ ({p} : Set Pool) := hf.pool
  rw [storedFor_of_isMap hmap, flush_isOk, mapOf_isOk hh hkeys hf hv hmap]
  intro q g hrun
  obtain ⟨-, hhas, hfield⟩ := (mapOf_runs hh.closed (.given hpool hf.declared) hv).ok hrun
  have hop : (Operation.mapOf f v config).Within {p} h :=
    ⟨by simpa [Operation.values], by simpa [Operation.values], hpool, hf.declared⟩
  exact (hh.of_run hop hrun).exists_map hkeys hhas (hfield ▸ hmap)

/-- A list field takes the sequences whose items fit. -/
theorem storedFor_list_isOk (hlist : f.isList = true) :
    (∃ stored h', (storedFor f v config).run h = (.ok stored, h')) ↔
      v.isSequence = true ∧ ∃ items, h.iterate v = .ok items ∧
        ∀ w ∈ items, h.accepts f.kind config w = true := by
  have hpool : f.message.pool ∈ ({p} : Set Pool) := hf.pool
  rw [storedFor_of_isList hlist, flush_isOk, repeatedOf_isOk hh hkeys hf hv]
  intro q g hrun
  obtain ⟨-, hhas, -⟩ := (repeatedOf_runs hh.closed (.given hpool hf.declared) hv).ok hrun
  have hop : (Operation.repeatedOf f v config).Within {p} h :=
    ⟨by simpa [Operation.values], by simpa [Operation.values], hpool, hf.declared⟩
  exact (hh.of_run hop hrun).exists_repeated hkeys hhas

omit hfrom in
/-- Any other field takes the values that fit its type, and may take that there is none. -/
theorem scalarFor_isOk : (∃ stored h', (scalarFor f v config).run h = (.ok stored, h')) ↔
    v = .absent ∧ (f.kind.isMessage = true ∨ f.isLegacy config = true) ∨
      h.accepts f.kind config v = true := by
  rw [← hh.toStored_isOk hkeys hf.kind hv]
  by_cases habsent : v = .absent
  · subst habsent
    simp only [scalarFor, true_and, exists_false, toStored_absent, or_false]
    rcases hoptional : f.kind.isMessage || f.isLegacy config with _ | _
    · simp only [Bool.false_eq_true, if_false, run_throw]
      simp_all
    · simp only [if_true, run_pure]
      simp_all
  · rw [scalarFor_of_ne habsent]
    constructor
    · rintro ⟨stored, h', hok⟩
      obtain ⟨s, _, hreading, -⟩ := bind_ok.1 hok
      exact .inr ⟨s, (reading_ok.1 hreading).1⟩
    · rintro (⟨hno, -⟩ | ⟨s, hs⟩)
      · exact absurd hno habsent
      · exact ⟨some s, h, bind_ok.2 ⟨s, h, reading_ok.2 ⟨hs, rfl⟩, rfl⟩⟩

/-- **What fits a field can be stored in it**, and nothing else. -/
theorem storedFor_isOk : (∃ stored h', (storedFor f v config).run h = (.ok stored, h')) ↔
    h.AcceptsFor f config v := by
  by_cases hmap : f.isMap = true
  · rw [storedFor_map_isOk hh hkeys hf hv hfrom hmap]
    constructor
    · rintro ⟨entries, hentries, hpairs⟩
      exact .map hmap hentries hpairs
    · rintro (⟨-, hentries, hpairs⟩ | ⟨hlist⟩ | ⟨hno⟩ | ⟨hno⟩)
      · exact ⟨_, hentries, hpairs⟩
      · rw [FieldDescriptor.isMap_of_isList hlist] at hmap
        cases hmap
      all_goals
        rw [hno] at hmap
        cases hmap
  have hnoMap : f.isMap = false := by simpa using hmap
  by_cases hlist : f.isList = true
  · rw [storedFor_list_isOk hh hkeys hf hv hfrom hlist]
    constructor
    · rintro ⟨hsequence, items, hitems, hfit⟩
      exact .list hlist hsequence hitems hfit
    · rintro (⟨hmap'⟩ | ⟨-, hsequence, hitems, hfit⟩ | ⟨-, hno⟩ | ⟨-, hno⟩)
      · exact absurd hmap' hmap
      · exact ⟨hsequence, _, hitems, hfit⟩
      all_goals
        rw [hno] at hlist
        cases hlist
  have hnoList : f.isList = false := by simpa using hlist
  rw [storedFor_single hnoMap hnoList, scalarFor_isOk hh hkeys hf hv]
  constructor
  · rintro (⟨habsent, hoptional⟩ | hfit)
    · exact .unset hnoMap hnoList habsent hoptional
    · exact .single hnoMap hnoList hfit
  · rintro (⟨hmap'⟩ | ⟨hlist'⟩ | ⟨-, -, habsent, hoptional⟩ | ⟨-, -, hfit⟩)
    · exact absurd hmap' hmap
    · exact absurd hlist' hlist
    · exact .inl ⟨habsent, hoptional⟩
    · exact .inr hfit

omit hfrom in
/-- An integer that is out of range is named by the error, if everything in front of it fits. -/
theorem storedFor_overflow {kind : Kind} {t : ScalarType} {n : Int}
    (hrefused : h.RefusesAt f config v kind (.int n)) (hkind : kind.scalar? config = some t)
    (ht : t.range?.isSome) : ∃ g, (storedFor f v config).run h = (.error (.overflow n t.name), g) := by
  -- the pairs of a mapping are checked one after another
  have pairs {before after : List (Value × Value)} {e : Value × Value} (hmap : f.isMap = true)
      (hentries : h.mappingEntries? v = some (before ++ e :: after))
      (hbefore : ∀ e ∈ before, h.AcceptsPair f config e)
      (he : h.checkUpdate { field := f, config := config } e = .error (.overflow n t.name)) :
      ∃ g, (storedFor f v config).run h = (.error (.overflow n t.name), g) := by
    have hwithin := hh.closed.mappingEntries hv hentries
    have herror : (before ++ e :: after).mapM (h.checkUpdate { field := f, config := config }) =
        .error (.overflow n t.name) := by
      refine Except.mapM_error_of_append (fun e hmem => ?_) he
      have he := hwithin e (List.mem_append_left _ hmem)
      exact (hh.checkUpdate_isOk hkeys hf he.1 he.2).2 (hbefore e hmem)
    obtain ⟨g, -, hrun⟩ := (checkPairs_performs hh.closed hwithin).error (.refl ∅ h) herror
    rw [storedFor_of_isMap hmap]
    refine ⟨g, bind_error.2 (.inl ?_)⟩
    rw [mapOf_of_some hmap hentries]
    exact bind_error.2 (.inl hrun)
  generalize hw : Value.int n = w at hrefused
  cases hrefused with
  | @key before after e hmap hentries hbefore hkey =>
    refine pairs hmap hentries hbefore (Except.bind_error.2 (.inl ?_))
    rw [← hw] at hkey ⊢
    exact Heap.check_overflow hkind ht hkey
  | @value before after e hmap hentries hbefore hkey hvalue =>
    have hwithin := hh.closed.mappingEntries hv hentries e (List.mem_append_right _ (.head _))
    obtain ⟨s, hs⟩ := (hh.check_isOk hkeys hf.keyKind hwithin.1).2 hkey
    refine pairs hmap hentries hbefore ?_
    obtain ⟨key, value⟩ := e
    cases hw
    refine Except.bind_error.2 (.inr ⟨s, hs, Except.bind_error.2 (.inl ?_)⟩)
    exact Heap.check_overflow hkind ht hvalue
  | @item before after w hlist hsequence hitems hbefore hitem =>
    cases hw
    have hwithin := hh.closed.iterate hv hitems
    have herror : (before ++ .int n :: after).mapM (h.check f.kind config) =
        .error (.overflow n t.name) := by
      refine Except.mapM_error_of_append (fun w hmem => ?_) (Heap.check_overflow hkind ht hitem)
      exact (hh.check_isOk hkeys hf.kind (hwithin w (List.mem_append_left _ hmem))).2 (hbefore w hmem)
    obtain ⟨g, -, hrun⟩ := (normalizeAll_performs hh.closed hwithin).error (.refl ∅ h) herror
    rw [storedFor_of_isList hlist, repeatedOf_of_isSequence hsequence]
    refine ⟨g, bind_error.2 (.inl (bind_error.2 (.inr ⟨_, h, reading_ok.2 ⟨hitems, rfl⟩, ?_⟩)))⟩
    exact bind_error.2 (.inl hrun)
  | single hmap hlist hvalue =>
    cases hw
    have hstored := Heap.check_overflow hkind ht hvalue
    rw [storedFor_single hmap hlist]
    exact ⟨h, bind_error.2 (.inl (Prod.ext hstored rfl))⟩

end

/-- **A field takes just the values that fit it**, on the heaps of a run with one pool whose map keys are
integers, booleans or texts. If the first part that does not fit is an integer out of range, the error
names it and the type whose range it is, and all cells are as they were. -/
theorem setField_accepts (hh : Heap.Reachable {p} h) (hkeys : p.PlainKeys) {r : Ref .message}
    {name : String} (hop : (Operation.assign (.message r) name v).Within {p} h)
    (hf : (h.cell r).content.descriptor.field? name = some f) (hthawed : (h.cell r).frozen = false) :
    ((∃ h', (setField r name v).run h = (.ok (), h')) ↔ h.AcceptsFor f (h.cell r).config v) ∧
      ∀ kind t n, h.RefusesAt f (h.cell r).config v kind (.int n) →
        kind.scalar? (h.cell r).config = some t → t.range?.isSome →
        ∃ h', (setField r name v).run h = (.error (.overflow n t.name), h') ∧ h.Grows h' := by
  have hr : h.Has ⟨.message, r⟩ := (hop.within _ (.head _)).has rfl
  have hv : v.Within h := hop.within v (.tail _ (.head _))
  have hfrom : v.From {p} := hop.typed v (.tail _ (.head _))
  have hfield : f.Of p :=
    FieldDescriptor.of_mem (hh.typed.message hr).among (MessageDescriptor.field?_eq_some.1 hf).1
  constructor
  · rw [← storedFor_isOk hh hkeys hfield hv hfrom]
    constructor
    · rintro ⟨h', hrun⟩
      obtain ⟨stored, mid, hstored, -⟩ := (setField_ok hf hthawed).1 hrun
      exact ⟨stored, mid, hstored⟩
    · rintro ⟨stored, mid, hstored⟩
      exact ⟨_, (setField_ok hf hthawed).2 ⟨stored, mid, hstored, rfl⟩⟩
  · intro kind t n hrefused hkind ht
    -- a number out of range is found while the value is converted, before any write
    obtain ⟨g, hstored⟩ := storedFor_overflow hh hkeys hfield hv hrefused hkind ht
    have hrun : (setField r name v).run h = (.error (.overflow n t.name), g) := by
      unfold setField
      refine bind_error.2 (.inr ⟨_, h, rfl, bind_error.2 (.inr ⟨(), h, ?_, ?_⟩)⟩)
      · exact checkMutable_ok.2 ⟨hthawed, rfl⟩
      · simp only [hf]
        exact bind_error.2 (.inl hstored)
    have hruns : Runs {p} _ h (setField r name v) _ := setField_runs hh.closed hr hv
    exact ⟨g, hrun, hruns.error hrun⟩

end Script

namespace Sample

/-- The depth of a node takes five, and it does not take an integer of more than 32 bits. -/
theorem depth_takes_int32 : Heap.Reachable {pool} edited ∧ pool.PlainKeys ∧
    (∃ h', (Script.setField root "depth" (.int 5)).run edited = (.ok (), h')) ∧
    ∃ h', (Script.setField root "depth" (.int (2 ^ 31))).run edited =
      (.error (.overflow (2 ^ 31) "int32"), h') := by
  have hkeys : pool.PlainKeys := by decide
  have hop (n : Int) : (Operation.assign (.message root) "depth" (.int n)).Within {pool} edited := by
    refine within_of_given (fun w hw => ?_) trivial
    rcases List.mem_pair.1 hw with rfl | rfl
    · exact given_message {pool} (by decide)
    · exact given {pool} edited _ nofun nofun rfl nofun
  have haccepts (n : Int) := Script.setField_accepts reachable_edited hkeys (hop n) rfl rfl
  refine ⟨reachable_edited, hkeys, (haccepts 5).1.2 (.single rfl rfl (by decide)), ?_⟩
  obtain ⟨h', hrun, -⟩ := (haccepts (2 ^ 31)).2 _ .int32 _ (.single rfl rfl (by decide)) rfl rfl
  exact ⟨h', hrun⟩

end Sample

end Protoscript
