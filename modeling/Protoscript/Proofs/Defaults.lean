import Protoscript.Proofs.Filling
import Protoscript.Proofs.Foreign
import Protoscript.Proofs.Paths
import Protoscript.Proofs.Standing

/-!
# Filling in the defaults of a message

Defaults are filled in in what a message holds, pending changes included, and the message keeps no views
afterwards. What its attributes and those of the messages inside are read as stays: an unset field reads
as its default, so that it does not matter whether the default is stored.

* `MessageDescriptor.Takes.readsPlain_fillDefaults` — one field;
* `Heap.GivesPlain` — what an attribute of a message inside gives, at any depth;
* `Heap.Reachable.fillDefaults_sound` — what is stored afterwards, and what is read.
-/

namespace Protoscript

variable {p : Pool} {h : Heap}

namespace Message.ReadsPlain

variable {m : Message} {f : FieldDescriptor} {config : Config} {v : Value}

theorem reads (hv : m.ReadsPlain f config v) : h.Reads m f config v := by
  cases hv with
  | absent hmap hlist hunset hf => exact .absent hmap hlist hunset hf
  | scalar hmap hlist hset hget =>
    refine .single hmap hlist ?_ (hget ▸ rfl)
    rcases hhas : m.has f with _ | _
    · have hnever := hset hhas
      unfold FieldDescriptor.readsAbsent at hnever
      rw [hnever, Bool.and_false]
    · rfl

theorem ref?_eq_none (hv : m.ReadsPlain f config v) : v.ref? = none := by
  cases hv with
  | absent => rfl
  | scalar => exact Scalar.ref?_toValue _ _

end Message.ReadsPlain

/-! ## One field -/

theorem FieldDescriptor.readsAbsent_of_not_legacy {f : FieldDescriptor} {config : Config}
    (hlegacy : config.legacyAbsent = false) :
    f.readsAbsent config = (f.inOneof || f.kind.isMessage) := by
  unfold readsAbsent isLegacy
  rw [hlegacy, Bool.false_and, Bool.or_false]

/-- Where no field of proto2 reads as absent, filling in leaves what a field is read as. A zero of the
other sign than the default reads as the default. -/
theorem MessageDescriptor.Takes.readsPlain_fillDefaults {d : MessageDescriptor} {m : Message}
    {f : FieldDescriptor} {config config' : Config} {v : Value} (hm : d.Takes m) (hf : f ∈ d.fields)
    (hlegacy : config.legacyAbsent = false) (hlegacy' : config'.legacyAbsent = false)
    (hv : m.ReadsPlain f config v) : ∃ w, m.fillDefaults.ReadsPlain f config' w ∧
      (w = v ∨ ∀ k : Heap, k.equals v w = .ok true) := by
  have habsent := FieldDescriptor.readsAbsent_of_not_legacy (f := f) hlegacy
  have habsent' := FieldDescriptor.readsAbsent_of_not_legacy (f := f) hlegacy'
  obtain ⟨hgiven, hkept⟩ := hm.stored?_fillDefaults hf
  cases hv with
  | absent hmap hlist hunset hreads =>
    -- what is read as absent has no default that is filled in
    have hno (s : Scalar) : ¬ m.Lacks f s := by
      rintro ⟨-, ⟨honeof, -, -, hkind⟩, -⟩
      rw [habsent, honeof, hkind] at hreads
      cases hreads
    exact ⟨_, .absent hmap hlist ((hm.has_fillDefaults hf hno).trans hunset)
      (habsent'.trans (habsent.symm.trans hreads)), .inl rfl⟩
  | @scalar s hmap hlist hset hget =>
    by_cases hlacks : ∃ t, m.Lacks f t
    · obtain ⟨t, ht⟩ := hlacks
      have hnever : f.readsAbsent config' = false := by
        rw [habsent', ht.single.1, ht.single.2.2.2]
        rfl
      refine ⟨t.toValue f.kind, .scalar hmap hlist (fun _ => hnever)
        (Message.get_of_stored? rfl (hgiven t ht)), ?_⟩
      have hdefault : f.defaultScalar? = some t := by
        unfold FieldDescriptor.defaultScalar?
        rw [ht.declared]
      rcases hs : m.stored? f with _ | u
      · left
        have hsame : Stored.scalar t = .scalar s := by
          rw [← hget, Message.get_of_none hs, Stored.defaultOf_single hmap hlist, Stored.singleDefault,
            hdefault]
        rw [Stored.scalar.inj hsame]
      · right
        -- what is stored may be the other zero, which equals the default
        intro k
        obtain rfl : u = .scalar s := by rw [← hget, Message.get_of_stored? rfl hs]
        have hequal : s.equals t = true := by
          have hunset := Message.isDefaultOf_of_not_has hs ht.unset
          simp only [Stored.isDefaultOf, hdefault, Bool.and_eq_true] at hunset
          exact hunset.2
        have hholds := ((hm.stored hf hs).kind hmap hlist).holdsScalar
        unfold Heap.equals
        rw [hholds.equals_toValue (FieldDescriptor.takes_declared ht.declared), hequal]
    · have hno := not_exists.1 hlacks
      have hget' : m.fillDefaults.get f = .scalar s := by
        rcases hs : m.stored? f with _ | u
        · rw [← hget, Message.get, Message.get, hkept hno, hs]
          rfl
        · obtain rfl : u = .scalar s := by rw [← hget, Message.get_of_stored? rfl hs]
          refine Message.get_of_stored? rfl ((hkept hno).trans ?_)
          rw [hs, Option.map_some, Stored.fillDefaults]
      refine ⟨_, .scalar hmap hlist (fun hunset => ?_) hget', .inl rfl⟩
      rw [habsent', ← habsent]
      exact hset ((hm.has_fillDefaults hf hno).symm.trans hunset)

/-! ## The function of the library -/

/-- The function that fills in, called with a message. -/
def Operation.fillDefaults (l : Library) (r : Ref .message) : Operation Value :=
  .call (.callable (.function l .setDefaults)) [.message r] []

variable {r : Ref .message} {m : Message}

/-- **Filling in succeeds** for a message that is not frozen, and leaves what it held filled in. -/
theorem Operation.run_fillDefaults (l : Library) (hm : h.contents r = .ok m)
    (hfrozen : (h.cell r).frozen = false) : (Operation.fillDefaults l r).run h =
      (.ok (.message r), h.put r { h.cell r with content := m.fillDefaults, views := [] }) := by
  have hrun : (Operation.fillDefaults l r).run h =
      (Script.fillDefaults r >>= fun _ => pure (Value.message r)).run h := rfl
  rw [hrun]
  simp only [Script.fillDefaults, Script.replace, Script.contents, Script.checkMutable, Script.run_bind,
    Script.run_cell, hfrozen, Bool.false_eq_true, if_false, Script.run_reading, hm, Script.run_put,
    Script.run_pure]

namespace Heap

/-- Whether an attribute of a message that is reached from another one gives a value that is no object,
where no field reads as absent for being one of proto2. -/
def GivesPlain (h : Heap) (r : Ref .message) (path : List Hop) (name : String) (v : Value) : Prop :=
  ∃ q g k, h.ReadsAlong r path q g ∧ (g.cell q).config.legacyAbsent = false ∧
    (Operation.attr (.message q) name).run g = (.ok (some v), k) ∧ v.ref? = none

/-- What an attribute gives is what the field is read as, out of what the message holds with pending
changes. -/
theorem Reachable.readsPlain (hlaw : p.Lawful) (hh : Reachable {p} h) (hr : h.Has ⟨.message, r⟩)
    (hm : h.contents r = .ok m) {name : String} {v : Value} {k : Heap}
    (hrun : (Operation.attr (.message r) name).run h = (.ok (some v), k)) (hnone : v.ref? = none) :
    ∃ f ∈ m.descriptor.fields, f.name = name ∧ m.ReadsPlain f (h.cell r).config v := by
  have hdescriptor := descriptor_contents hm
  rcases hu : lookupName name (h.cell r).views with _ | u
  · rcases hf : (h.cell r).content.descriptor.field? name with _ | f
    · have habsent : (Script.attrBy Script.readField r name).run h = (.ok none, h) :=
        Script.attrBy_absent hu hf
      cases habsent.symm.trans hrun
    · obtain ⟨w, h', hrun', -, hreads⟩ := hh.reads_first hr hu hf
      cases hrun'.symm.trans hrun
      have hsame : m.stored? f = (h.cell r).content.stored? f := by
        refine hh.stored?_unviewed hlaw hr hf (fun w hw => ?_) hm
        cases hu.symm.trans (lookupName_of_mem (hh.typed.message hr).distinct hw)
      obtain ⟨hmem, hname⟩ := MessageDescriptor.field?_eq_some.1 hf
      exact ⟨f, hdescriptor ▸ hmem, hname, (hreads.plain hnone).congr hsame⟩
  · cases (run_attr_kept hu).symm.trans hrun
    have hview := Script.mem_of_lookupName hu
    obtain ⟨f, hf, hreads⟩ := hh.current r _ hview hnone
    obtain ⟨hmem, hname⟩ := MessageDescriptor.field?_eq_some.1 hf
    exact ⟨f, hdescriptor ▸ hmem, hname, hreads.congr (hh.stored?_plain hlaw hf hview hm hnone)⟩

theorem Reachable.fillDefaults (hh : Reachable {p} h) (hr : h.Has ⟨.message, r⟩) {l : Library}
    {result : Except Error Value} {h' : Heap}
    (hrun : (Operation.fillDefaults l r).run h = (result, h')) : Reachable {p} h' := by
  -- which library the function is of does not matter
  have hop : (Operation.fillDefaults ⟨0, ⟨p, {}⟩⟩ r).Within {p} h := by
    refine Sample.within_of_given (List.forall_mem_cons.2 ⟨?_, List.forall_mem_singleton.2
      (Sample.given_message _ hr)⟩) trivial
    have hno : ∀ items, Value.callable (.function ⟨0, ⟨p, {}⟩⟩ .setDefaults) ≠ .tuple items := nofun
    exact ⟨(Value.all_iff hno).2 fun _ hp => (by cases hp),
      (Value.all_iff hno).2 ⟨fun _ hp => Option.some.inj hp.symm, fun _ he => (by cases he)⟩⟩
  have hafter := hh.tail (.operation _ hop)
  rwa [show (Operation.fillDefaults ⟨0, ⟨p, {}⟩⟩ r).run h = (result, h') from hrun] at hafter

/-- **Filling in defaults** succeeds for a message that is not frozen. Fields that lack a default hold
it afterwards, at every depth, all others are set as they were and hold what they held, and filling in
again changes nothing. What an attribute of the message or of one inside gives, unless it is an object,
it gives afterwards, but for the sign of a zero; this is so where no list or map belongs to a oneof and
no field reads as absent for being one of proto2. -/
theorem Reachable.fillDefaults_sound (hkeys : p.PlainKeys) (hh : Reachable {p} h)
    (hr : h.Has ⟨.message, r⟩) (hfrozen : (h.cell r).frozen = false) (l : Library) :
    ∃ h' m n, (Operation.fillDefaults l r).run h = (.ok (.message r), h') ∧
      h.contents r = .ok m ∧ h'.contents r = .ok n ∧ m.Filled n ∧
      (Operation.fillDefaults l r).run h' = (.ok (.message r), h') ∧
      (p.Lawful → (h.cell r).config.legacyAbsent = false → ∀ path name v,
        h.GivesPlain r path name v → ∃ w, h'.GivesPlain r path name w ∧
          (w = v ∨ ∀ k : Heap, k.equals v w = .ok true)) := by
  obtain ⟨m, hm, -⟩ := hh.exists_contents hkeys hr
  have htakes := hh.typed.contents hh.closed hr hm
  let h' := h.put r { h.cell r with content := m.fillDefaults, views := [] }
  have hrun : (Operation.fillDefaults l r).run h = (.ok (.message r), h') :=
    Operation.run_fillDefaults l hm hfrozen
  have hcell : h'.cell r = { h.cell r with content := m.fillDefaults, views := [] } :=
    cell_put_self h r _ hr
  have hpristine : h'.Pristine (h.cell r).config r m.fillDefaults :=
    ⟨has_put.2 hr, by rw [hcell], by rw [hcell], by rw [hcell]⟩
  refine ⟨h', m, m.fillDefaults, hrun, hm, hpristine.contents, htakes.filled, ?_, ?_⟩
  · rw [Operation.run_fillDefaults l hpristine.contents (by rw [hcell]; exact hfrozen),
      htakes.fillDefaults_fillDefaults, hcell, ← hcell, put_cell]
  · rintro hlaw hlegacy path name v ⟨q, g, k, halong, hlegacy', hgives, hnone⟩
    obtain ⟨hg, hq, y, hy, hpart⟩ := halong.inside hkeys hlaw hh hr hm
    obtain ⟨f, hf, rfl, hreads⟩ := hg.readsPlain hlaw hq hy hgives hnone
    have hytakes := hg.typed.contents hg.closed hq hy
    have hh' : Reachable {p} h' := hh.fillDefaults hr hrun
    obtain ⟨q', g', halong', hg', hq'⟩ :=
      hpristine.readsAlong hkeys hh' (htakes.part?_fillDefaults hpart)
    obtain ⟨w, hw, hvw⟩ :=
      hytakes.readsPlain_fillDefaults (hytakes.descriptor ▸ hf) hlegacy' hlegacy hreads
    -- the attribute is read for the first time
    have hfield : (g'.cell q').content.descriptor.field? f.name = some f := by
      rw [hq'.content, (Message.takes_fillDefaults hytakes).descriptor]
      exact MessageDescriptor.field?_eq_some.2 ⟨hytakes.descriptor ▸ hf, rfl⟩
    obtain ⟨u, k', hgives', -, hreads'⟩ :=
      hg'.reads_first hq'.has (by rw [hq'.views]; rfl) hfield
    rw [hq'.content, hq'.config] at hreads'
    have hplain : k'.Reads y.fillDefaults f (h.cell r).config w := hw.reads
    obtain rfl := hplain.eq_of_ref? hreads' rfl (fun _ hs => hs) hw.ref?_eq_none
    exact ⟨u, ⟨q', g', k', halong', hq'.config ▸ hlegacy, hgives', hw.ref?_eq_none⟩, hvw⟩

end Heap

/-! ## Dials -/

namespace Sample

/-- A field with a declared default, whose presence is not tracked. -/
def defaulted (name : String) (number : Nat) (t : ScalarType) (s : Scalar)
    (hs : (KindRef.scalar t).takes s = true) : FieldInfo where
  name := name
  jsonName := name
  number := number
  isRepeated := false
  kind := .scalar t
  hasPresence := false
  declaredDefault := some s
  oneof := none
  takes_default := fun _ h => Option.some.inj h ▸ hs
  repeated_presence := fun _ _ => rfl

/-- A pool of dials, which declare defaults, with a dial in them. -/
def dials : Pool where
  id := 16
  messages := [{
    name := "Dial"
    fullName := "Dial"
    package := ""
    edition := .proto3
    parent := none
    isMapEntry := false
    fields := [defaulted "level" 1 .double (.f64 (Double.zero false)) rfl,
      defaulted "turns" 2 .int32 (.i32 5) rfl, field "inner" 3 (.message 0) false (some 0)]
    nodup_numbers := by decide
    nodup_names := by decide }]
  enums := []
  nodup_names := by decide
  kinds_within := by decide

def dial : MessageDescriptor := ⟨dials, 0⟩

def innerField : FieldDescriptor := ⟨dial, field "inner" 3 (.message 0) false (some 0)⟩

/-- A dial whose level is zero with the other sign, with a dial in it. -/
def dialTree : Message :=
  .mk dial [(1, .scalar (.f64 (Double.zero true))), (3, .message (.empty dial))] []

def dialled : Heap where
  messages := #[{ content := dialTree, config := .strict }]

theorem takes_dialTree : dial.Takes dialTree := by
  have hlevel : (Message.mk dial [(1, .scalar (.f64 (Double.zero true)))] []).Conforms :=
    (Message.Conforms.empty dial).set (f := ⟨dial, _⟩) (.head _) (.single rfl rfl (.scalar rfl))
  exact ⟨rfl, hlevel.set (f := innerField)
    (.tail _ (.tail _ (.head _))) (.single rfl rfl (.message rfl (.empty dial)))⟩

theorem reachable_dialled : Heap.Reachable {dials} dialled := by
  have hrun : ((Operation.wrap ⟨dials, .strict⟩ dialTree).run {}).2 = dialled := rfl
  rw [← hrun]
  exact .single (.operation _ ⟨nofun, nofun, ⟨Set.mem_singleton _, by decide⟩,
    takes_dialTree.conforms⟩)

/-- The dial inside reads its default. -/
theorem gives_turns : dialled.GivesPlain root [.field 3] "turns" (.int 5) := by
  let inside : Heap := ((Operation.attr (.message root) "inner").run dialled).2
  have hrun : (Operation.attr (.message root) "inner").run dialled = (.ok (some (.message right)), inside) :=
    rfl
  have hfield : (dialled.cell root).content.descriptor.field? "inner" = some innerField := rfl
  have hvisits : dialled.Visits root (.field 3) right inside := .field hfield hrun
  exact ⟨right, inside, ((Operation.attr (.message right) "turns").run inside).2,
    .step hvisits (.here _ _), rfl, rfl, rfl⟩

/-- The defaults of a dial and of the dial inside are filled in. -/
theorem dial_filled : dials.PlainKeys ∧ Heap.Reachable {dials} dialled ∧
    dialled.Has ⟨.message, root⟩ ∧ (dialled.cell root).frozen = false ∧
    ∃ h' m n, (Operation.fillDefaults ⟨0, ⟨dials, {}⟩⟩ root).run dialled = (.ok (.message root), h') ∧
      dialled.contents root = .ok m ∧ h'.contents root = .ok n ∧ m.Filled n ∧
      (Operation.fillDefaults ⟨0, ⟨dials, {}⟩⟩ root).run h' = (.ok (.message root), h') ∧
      dials.Lawful ∧ (dialled.cell root).config.legacyAbsent = false ∧
      dialled.GivesPlain root [.field 3] "turns" (.int 5) ∧
      ∃ w, h'.GivesPlain root [.field 3] "turns" w ∧
        (w = .int 5 ∨ ∀ k : Heap, k.equals (.int 5) w = .ok true) := by
  have hkeys : dials.PlainKeys := by decide
  have hlaw : dials.Lawful := by decide
  have hroot : dialled.Has ⟨.message, root⟩ := (by decide : 0 < 1)
  obtain ⟨h', m, n, hrun, hm, hn, hfilled, hagain, hreads⟩ :=
    reachable_dialled.fillDefaults_sound hkeys hroot rfl ⟨0, ⟨dials, {}⟩⟩
  exact ⟨hkeys, reachable_dialled, hroot, rfl, h', m, n, hrun, hm, hn, hfilled, hagain, hlaw, rfl,
    gives_turns, hreads hlaw rfl _ _ _ gives_turns⟩

/-- A message with a number and a list in a oneof, after the list was read. -/
def listRead : Heap where
  messages := #[{ content := five, views := [("items", .repeated ⟨0⟩)], config := .strict }]
  repeateds := #[{ choiceItems with config := .strict }]

theorem reachable_listRead : Heap.Reachable {choices} listRead := by
  let unread : Heap := { messages := #[{ content := five, config := .strict }] }
  have hwrap : ((Operation.wrap ⟨choices, .strict⟩ five).run {}).2 = unread := rfl
  have hunread : Heap.Reachable {choices} unread := by
    rw [← hwrap]
    exact .single (.operation _ ⟨nofun, nofun, ⟨Set.mem_singleton _, by decide⟩, conforms_five⟩)
  have hread : ((Operation.attr (.message root) "items").run unread).2 = listRead := rfl
  rw [← hread]
  exact hunread.tail (.operation _ (within_of_message {choices} unread rfl (by decide) trivial))

/-- **Where a list belongs to a oneof**, filling in writes a view of it back first, so that a number that
was read is absent afterwards; and a zero that has the other sign than the default is replaced by it. -/
theorem filled_otherwise :
    (choices.PlainKeys ∧ Heap.Reachable {choices} listRead ∧ (listRead.cell root).frozen = false ∧
      (listRead.cell root).config.legacyAbsent = false ∧ listRead.GivesPlain root [] "depth" (.int 5) ∧
      ∃ h', (Operation.fillDefaults ⟨0, ⟨choices, .strict⟩⟩ root).run listRead = (.ok (.message root), h') ∧
        h'.GivesPlain root [] "depth" .absent) ∧
    dials.PlainKeys ∧ Heap.Reachable {dials} dialled ∧ (dialled.cell root).frozen = false ∧
      (dialled.cell root).config.legacyAbsent = false ∧
      dialled.GivesPlain root [] "level" (.float (Double.zero true)) ∧
      ∃ h', (Operation.fillDefaults ⟨0, ⟨dials, .strict⟩⟩ root).run dialled = (.ok (.message root), h') ∧
        h'.GivesPlain root [] "level" (.float (Double.zero false)) ∧
        Value.float (Double.zero false) ≠ .float (Double.zero true) := by
  have here {h : Heap} {name : String} {v : Value} (hlegacy : (h.cell root).config.legacyAbsent = false)
      (hrun : ((Operation.attr (.message root) name).run h).1 = .ok (some v)) (hnone : v.ref? = none) :
      h.GivesPlain root [] name v :=
    ⟨root, h, _, .here _ _, hlegacy, Prod.ext hrun rfl, hnone⟩
  have hlist : listRead.contents root = .ok (.mk choice [(2, .list [])] []) := by
    rw [Heap.contents_eq]
    rfl
  have hdial : dialled.contents root = .ok dialTree := Heap.contents_of_views_eq_nil rfl
  have hchoice : (Message.mk choice [(2, .list [])] []).fillDefaults = .mk choice [(2, .list [])] [] := by
    rw [Message.fillDefaults_mk]
    rfl
  have hfilled : dialTree.fillDefaults = .mk dial [(1, .scalar (.f64 (Double.zero false))),
      (2, .scalar (.i32 5)), (3, .message (.mk dial [(1, .scalar (.f64 (Double.zero false))),
        (2, .scalar (.i32 5))] []))] [] := by
    rw [dialTree, Message.fillDefaults_mk]
    rfl
  refine ⟨⟨by decide, reachable_listRead, rfl, rfl, here rfl rfl rfl, _,
    Operation.run_fillDefaults _ hlist rfl, ?_⟩, by decide, reachable_dialled, rfl, rfl, here rfl rfl rfl, _,
    Operation.run_fillDefaults _ hdial rfl, ?_, ?_⟩
  · rw [hchoice]
    exact here rfl rfl rfl
  · rw [hfilled]
    exact here rfl rfl rfl
  · exact fun he => absurd (Value.float.inj he) (by decide)

end Sample

end Protoscript
