import Protoscript.Proofs.Runs
import Protoscript.Proofs.Fields

/-!
# Checked and read values

Values go into views checked: converted for the field and read back, which copies messages. Values
come out of stored messages as they are read. Both make new cells only.

* `Heap.Adopts` — new cells that hold nothing old;
* `Heap.adopt_shows` — what a stored value is read as;
* `Script.normalize_runs`, `Script.normalizeAll_runs` — what checks give.
-/

namespace Protoscript

/-! ## Types of converted messages -/

@[simp] theorem MessageDescriptor.same_self (d : MessageDescriptor) : d.same d = true := by
  simp [MessageDescriptor.same]

namespace Message

theorem descriptor_of_absorbField? {inner : Message → List UInt8 → Option Message} {depth : Nat}
    {m n : Message} {number : Nat} {w : WireValue}
    (h : m.absorbField? inner depth number w = some n) : n.descriptor = m.descriptor := by
  unfold absorbField? at h
  repeat' split at h
  all_goals first
    | cases h; rfl
    | (simp only [Option.map_eq_some_iff, Option.bind_eq_bind, Option.bind_eq_some_iff] at h
       obtain ⟨_, _, rfl⟩ := h
       exact descriptor_set _ _ _)
    | (simp only [Option.pure_def, Option.bind_eq_bind, Option.bind_eq_some_iff,
        Option.some.injEq] at h
       obtain ⟨_, _, _, _, rfl⟩ := h
       exact descriptor_set _ _ _)
    | cases h

theorem descriptor_of_absorbWith? {inner : Message → List UInt8 → Option Message} {depth : Nat}
    {m n : Message} {bytes : List UInt8} (h : m.absorbWith? inner depth bytes = some n) :
    n.descriptor = m.descriptor := by
  unfold absorbWith? at h
  simp only [Option.bind_eq_bind, Option.bind_eq_some_iff] at h
  obtain ⟨fields, -, hfold⟩ := h
  clear * - hfold
  induction fields generalizing m with
  | nil =>
    cases hfold
    rfl
  | cons field rest ih =>
    rw [List.foldlM_cons, Option.bind_eq_bind, Option.bind_eq_some_iff] at hfold
    obtain ⟨mid, hmid, hrest⟩ := hfold
    exact (ih hrest).trans (descriptor_of_absorbField? hmid)

/-- What is read from bytes for a type is of that type. -/
theorem descriptor_of_ofWire? {d : MessageDescriptor} {bytes : List UInt8} {m : Message}
    (h : ofWire? d bytes = some m) : m.descriptor = d :=
  descriptor_of_absorbWith? (m := .empty d) h

/-- What a message is taken over as: itself if it is of the type, else what its bytes are read as. -/
theorem adopt_ok {d : MessageDescriptor} {m n : Message} : m.adopt d = .ok n ↔
    m.descriptor.same d = true ∧ n = m ∨
      m.descriptor.same d = false ∧ ofWire? d m.toWire = some n := by
  unfold adopt
  by_cases hsame : m.descriptor.same d = true
  · simp [hsame, eq_comm]
  · rw [if_neg hsame]
    rcases hwire : ofWire? d m.toWire with _ | x <;> simp [hsame]

theorem adopt_self {d : MessageDescriptor} {m : Message} (hm : m.descriptor = d) :
    m.adopt d = .ok m :=
  adopt_ok.2 (.inl ⟨hm ▸ MessageDescriptor.same_self d, rfl⟩)

/-- A message that was taken over for a type is of the same type. -/
theorem same_of_adopt {d : MessageDescriptor} {m n : Message} (h : m.adopt d = .ok n) :
    n.descriptor.same d := by
  rcases adopt_ok.1 h with ⟨hsame, rfl⟩ | ⟨-, hwire⟩
  · exact hsame
  · rw [descriptor_of_ofWire? hwire, MessageDescriptor.same_self]

end Message

namespace MessageDescriptor

variable {h : Heap} {flush : Ref .message → Except Error Message} {d : MessageDescriptor}
  {f : FieldDescriptor} {r : Ref .message} {v : Value} {config : Config} {m n : Message}

theorem field_of_boxField? (hf : d.boxField? = some f) : d.field? "value" = some f ∧
    f.isList = false ∧ f.isMap = false ∧ f.kind.isMessage = false := by
  obtain ⟨hfield, hsingle⟩ := Option.filter_eq_some_iff.1 hf
  simp only [Bool.and_eq_true, Bool.not_eq_true'] at hsingle
  exact ⟨hfield, hsingle.1.1, hsingle.1.2, hsingle.2⟩

theorem box_ok : d.box v = .ok m ↔ ∃ f s, d.boxField? = some f ∧
    f.kind.scalarToStored v = .ok s ∧ m = (Message.empty d).set f (.scalar s) := by
  unfold box
  rcases d.boxField? with _ | f
  · simp
  · rcases hs : f.kind.scalarToStored v with e | s <;> simp [hs, eq_comm]

/-- A boxed scalar is of the wrapper's type. -/
theorem descriptor_of_box (hm : d.box v = .ok m) : m.descriptor = d := by
  obtain ⟨f, s, -, -, rfl⟩ := box_ok.1 hm
  exact Message.descriptor_set _ _ _

/-- A message of the name of a type is converted to what it is taken over as. -/
theorem toStored_of_message : d.toStored h flush (.message r) config =
    if h.fullName r = d.fullName then flush r >>= (·.adopt d)
    else .error (.messageTypeMismatch d.fullName (h.fullName r)) := by
  unfold toStored
  by_cases hname : h.fullName r = d.fullName
  · rw [if_pos hname]
    simp only [hname, bne_self_eq_false, Bool.false_eq_true, if_false]
    cases flush r <;> rfl
  · rw [if_neg hname]
    exact if_pos (bne_iff_ne.2 hname)

/-- Any other value is boxed, if the type is a wrapper. -/
theorem toStored_bare (hv : ∀ r, v ≠ .message r) : d.toStored h flush v config =
    if config.isScalarWrapper d.fullName then d.box v
    else .error (.typeMismatch v d.fullName) := by
  cases v <;> first | rfl | exact absurd rfl (hv _)

/-- What a message type converts: messages of its name, and scalars that it wraps. -/
theorem toStored_cases (hs : d.toStored h flush v config = .ok m) :
    (∃ r n, v = .message r ∧ h.fullName r = d.fullName ∧ flush r = .ok n ∧ n.adopt d = .ok m) ∨
      (∀ r, v ≠ .message r) ∧ config.isScalarWrapper d.fullName = true ∧ d.box v = .ok m := by
  by_cases hmessage : ∃ r, v = .message r
  · obtain ⟨r, rfl⟩ := hmessage
    rw [toStored_of_message] at hs
    split at hs
    · obtain ⟨n, hn, hadopt⟩ := Except.bind_ok.1 hs
      exact .inl ⟨r, n, rfl, ‹_›, hn, hadopt⟩
    · cases hs
  · have hv (r : Ref .message) : v ≠ .message r := fun he => hmessage ⟨r, he⟩
    rw [toStored_bare hv] at hs
    split at hs
    · exact .inr ⟨hv, ‹_›, hs⟩
    · cases hs

/-- What a message type converts values to is of that type. -/
theorem same_of_toStored (hs : d.toStored h flush v config = .ok m) : m.descriptor.same d := by
  rcases toStored_cases hs with ⟨r, n, -, -, -, hadopt⟩ | ⟨-, -, hbox⟩
  · exact Message.same_of_adopt hadopt
  · rw [descriptor_of_box hbox, same_self]

end MessageDescriptor

namespace Kind

/-- **Conversion.** A type converts a value to a scalar that it takes, or to a message of it. -/
theorem toStored_ok {h : Heap} {flush : Ref .message → Except Error Message} {kind : Kind}
    {v : Value} {config : Config} {s : Stored} (hs : kind.toStored h flush v config = .ok s) :
    (∃ x, s = .scalar x ∧ kind.scalarToStored v = .ok x) ∨
      ∃ d m, kind = .message d ∧ s = .message m ∧ d.toStored h flush v config = .ok m := by
  unfold toStored at hs
  split at hs
  · obtain ⟨m, hm, rfl⟩ := Except.map_ok.1 hs
    exact .inr ⟨_, m, rfl, rfl, hm⟩
  · obtain ⟨x, hx, rfl⟩ := Except.map_ok.1 hs
    exact .inl ⟨x, rfl, hx⟩

/-- What a type takes as a scalar, it stores as one. -/
theorem toStored_of_scalarToStored {h : Heap} {flush : Ref .message → Except Error Message}
    {kind : Kind} {v : Value} {config : Config} {s : Scalar} (hs : kind.scalarToStored v = .ok s) :
    kind.toStored h flush v config = .ok (.scalar s) := by
  cases kind with
  | message d => cases hs
  | scalar | enum => exact Except.map_ok.2 ⟨s, hs, rfl⟩

end Kind

/-- A message of a type is stored as what it is flushed to. -/
theorem Heap.toStored_message {h : Heap} {flush : Ref .message → Except Error Message}
    {d : MessageDescriptor} {q : Ref .message} {m : Message} {config : Config}
    (hd : (h.cell q).content.descriptor = d) (hm : flush q = .ok m) (hmd : m.descriptor = d) :
    (Kind.message d).toStored h flush (.message q) config = .ok (.message m) := by
  have hname : h.fullName q = d.fullName := congrArg MessageDescriptor.fullName hd
  refine Except.map_ok.2 ⟨m, ?_, rfl⟩
  rw [MessageDescriptor.toStored_of_message, if_pos hname, hm]
  exact Message.adopt_self hmd

theorem Scalar.ref?_toValue (kind : Kind) (s : Scalar) : (s.toValue kind).ref? = none := by
  cases s with
  | bytes b =>
    simp only [toValue]
    cases ofUtf8? b <;> rfl
  | enumNumber n => cases kind <;> rfl
  | _ => rfl

theorem Scalar.toValue_ne_tuple (kind : Kind) (s : Scalar) (items : List Value) :
    s.toValue kind ≠ .tuple items := by
  cases s with
  | bytes b =>
    simp only [toValue]
    cases ofUtf8? b <;> simp
  | enumNumber n => cases kind <;> simp [toValue]
  | _ => simp [toValue]

theorem Scalar.newTo_toValue (h : Heap) (kind : Kind) (s : Scalar) : (s.toValue kind).NewTo h :=
  Value.newTo_of_ref?_none (s.toValue_ne_tuple kind) (s.ref?_toValue kind)

theorem MapKey.newTo_toValue (h : Heap) (k : MapKey) : k.toValue.NewTo h := by
  cases k <;> exact Value.newTo_of_ref?_none (by simp [toValue]) rfl

/-! ## What is read -/

namespace Heap

variable {pools : Set Pool} {h mid h' : Heap}

/-- Changes that only make cells, which hold nothing that was there before. -/
structure Adopts (pools : Set Pool) (h h' : Heap) : Prop where
  changes : h.Changes pools h'
  grows : h.Grows h'
  own {p : Place} (hp : h'.Has p) (hnew : ¬ h.Has p) : ∀ v ∈ (h'.cell p.2).values, v.NewTo h

theorem Adopts.refl (pools : Set Pool) (h : Heap) : h.Adopts pools h :=
  ⟨.refl, .refl ∅ h, fun hp hnew => absurd hp hnew⟩

theorem Adopts.trans (ha : h.Adopts pools mid) (hb : mid.Adopts pools h') : h.Adopts pools h' := by
  refine ⟨ha.changes.trans hb.changes, ha.grows.trans hb.grows, fun {p} hp hnew v hv => ?_⟩
  by_cases hm : mid.Has p
  · rw [hb.grows.cell hm] at hv
    exact ha.own hm hnew v hv
  · exact (hb.own hp hm v hv).earlier fun _ => ha.grows.has

/-- One more new cell that holds nothing old. -/
theorem Adopts.alloc (ha : h.Adopts pools mid) {s : Shelf} {c : Cell s}
    (hc : mid.Change pools (mid.alloc s c)) (hg : mid.Grows (mid.alloc s c))
    (hown : ∀ v ∈ Cell.values c, v.NewTo h) : h.Adopts pools (mid.alloc s c) := by
  refine ⟨ha.changes.tail hc, ha.grows.trans hg, fun {p} hp hnew v hv => ?_⟩
  rcases has_alloc hp with rfl | hold
  · rw [cell_alloc_self] at hv
    exact hown v hv
  · rw [cell_alloc_of_has mid c hold] at hv
    exact ha.own hold hnew v hv

theorem not_has_fresh (h : Heap) (s : Shelf) : ¬ h.Has ⟨s, h.fresh s⟩ := Nat.lt_irrefl _

/-- What a stored value is read as: a new value that shows it, and the values of several that share
nothing. -/
structure AdoptsAs (pools : Set Pool) (h h' : Heap) (vs : List Value) : Prop extends
    Adopts pools h h' where
  new : ∀ v ∈ vs, v.NewTo h
  within : ∀ v ∈ vs, v.Within h'
  nodup : (vs.filterMap Value.ref?).Nodup

theorem AdoptsAs.nil (pools : Set Pool) (h : Heap) : AdoptsAs pools h h [] :=
  ⟨.refl pools h, fun _ hv => absurd hv List.not_mem_nil, fun _ hv => absurd hv List.not_mem_nil,
    .nil⟩

/-- Values that were made one after another share nothing. -/
theorem AdoptsAs.cons {v : Value} {vs : List Value} (ha : AdoptsAs pools h mid [v])
    (hb : AdoptsAs pools mid h' vs) : AdoptsAs pools h h' (v :: vs) := by
  refine ⟨ha.toAdopts.trans hb.toAdopts, fun w hw => ?_, fun w hw => ?_, ?_⟩
  · rcases List.mem_cons.1 hw with rfl | hw
    · exact ha.new w List.mem_cons_self
    · exact (hb.new w hw).earlier fun _ => ha.grows.has
  · rcases List.mem_cons.1 hw with rfl | hw
    · exact (ha.within w List.mem_cons_self).grow hb.grows
    · exact hb.within w hw
  · rcases hv : v.ref? with _ | p
    · rw [List.filterMap_cons_none hv]
      exact hb.nodup
    · rw [List.filterMap_cons_some hv]
      refine List.nodup_cons.2 ⟨fun hmem => ?_, hb.nodup⟩
      obtain ⟨w, hw, hwp⟩ := List.mem_filterMap.1 hmem
      exact (hb.new w hw).not_has hwp
        ((ha.within v List.mem_cons_self).has (Value.place?_of_ref? hv))

/-- One value that leads to a new cell. -/
theorem AdoptsAs.alloc (ha : h.Adopts pools mid) {s : Shelf} {c : Cell s} {v : Value}
    (hc : mid.Change pools (mid.alloc s c)) (hg : mid.Grows (mid.alloc s c))
    (hown : ∀ v ∈ Cell.values c, v.NewTo h) (hv : v.ref? = some ⟨s, mid.fresh s⟩) :
    AdoptsAs pools h (mid.alloc s c) [v] := by
  refine ⟨ha.alloc hc hg hown, fun w hw => ?_, fun w hw => ?_, ?_⟩
  · rw [List.mem_singleton.1 hw]
    exact Value.newTo_of_ref? hv fun hhas => not_has_fresh mid s (ha.grows.has hhas)
  · rw [List.mem_singleton.1 hw]
    exact within_of_ref? hv (has_fresh_alloc mid s c)
  · rw [List.filterMap_cons_some hv]
    exact List.nodup_singleton _

/-- A new message. -/
theorem newMessage_shows {m : Message} (config : Config) (kind : Kind) (hm : h.Source pools m) :
    AdoptsAs pools h (h.newMessage m config).2 [(h.newMessage m config).1] ∧
      (h.newMessage m config).2.Shows kind config (.message m) (h.newMessage m config).1 := by
  refine ⟨AdoptsAs.alloc (s := .message) (.refl pools h) (.message hm)
    (h.grows_alloc_message rfl) (fun v hv => absurd hv List.not_mem_nil) rfl, ?_⟩
  refine ⟨h.fresh .message, rfl, has_fresh_alloc h .message _, ?_⟩
  have hcell : (h.alloc .message { content := m, config := config }).cell (h.fresh .message) =
      { content := m, config := config } := cell_alloc_self h (s := .message) _
  exact ⟨congrArg MessageCell.content hcell, congrArg MessageCell.views hcell,
    congrArg MessageCell.config hcell⟩

mutual

/-- **Reading a stored value** makes new cells only, and gives a value that shows it. -/
theorem adopt_shows (pools : Set Pool) (h : Heap) (kind : Kind) (config : Config) :
    ∀ s : Stored, (∀ m, s.Contains m → ∀ g, h.Grows g → g.Source pools m) →
      AdoptsAs pools h (h.adopt kind config s).2 [(h.adopt kind config s).1] ∧
        (h.adopt kind config s).2.Shows kind config s (h.adopt kind config s).1
  | .scalar s, _ => by
    rw [adopt]
    refine ⟨⟨.refl pools h, fun w hw => ?_, fun w hw => ?_, ?_⟩, rfl⟩
    · rw [List.mem_singleton.1 hw]
      exact s.newTo_toValue h kind
    · rw [List.mem_singleton.1 hw]
      exact s.within_toValue h kind
    · rw [List.filterMap_cons_none (s.ref?_toValue kind)]
      exact .nil
  | .message m, hsrc => by
    rw [adopt]
    exact newMessage_shows config kind (hsrc m .message h (.refl ∅ h))
  | .list items, hsrc => by
    rw [adopt]
    obtain ⟨ha, hs⟩ := adoptItems_shows pools h kind config items fun s hmem m hm =>
      hsrc m (.list hmem hm)
    refine ⟨AdoptsAs.alloc (s := .list) ha.toAdopts (.list ha.within)
      (grows_alloc _ (s := .list) (by decide) _) ha.new rfl, ?_⟩
    exact ⟨_, rfl, has_fresh_alloc _ .list _⟩
  | .map entries, hsrc => by
    rw [adopt]
    obtain ⟨ha, hs⟩ := adoptEntries_shows pools h kind config entries fun e hmem m hm =>
      hsrc m (.map hmem hm)
    have hkeys (g : Heap) {e : Value × Value}
        (he : e ∈ (adoptEntries h kind config entries).1) : e.1.Within g ∧ e.1.NewTo g := by
      obtain ⟨stored, -, hkey, -⟩ := exists_of_forall₂ hs he
      rw [hkey]
      exact ⟨MapKey.within_toValue g _, MapKey.newTo_toValue g _⟩
    have hvalues {e : Value × Value} (he : e ∈ (adoptEntries h kind config entries).1) :
        e.2 ∈ (adoptEntries h kind config entries).1.map (·.2) := List.mem_map.2 ⟨e, he, rfl⟩
    refine ⟨AdoptsAs.alloc (s := .dict) ha.toAdopts
      (.dict fun e he => ⟨(hkeys _ he).1, ha.within _ (hvalues he)⟩)
      (grows_alloc _ (s := .dict) (by decide) _) (fun v hv => ?_) rfl, ?_⟩
    · obtain ⟨e, he, hv⟩ := List.mem_flatMap.1 hv
      rcases List.mem_pair.1 hv with rfl | rfl
      · exact (hkeys h he).2
      · exact ha.new _ (hvalues he)
    · exact ⟨_, rfl, has_fresh_alloc _ .dict _⟩

/-- Reading stored items one after another gives values that show them and share nothing. -/
theorem adoptItems_shows (pools : Set Pool) (h : Heap) (kind : Kind) (config : Config) :
    ∀ items : List Stored,
      (∀ s ∈ items, ∀ m, s.Contains m → ∀ g, h.Grows g → g.Source pools m) →
      AdoptsAs pools h (h.adoptItems kind config items).2 (h.adoptItems kind config items).1 ∧
        List.Forall₂ ((h.adoptItems kind config items).2.Shows kind config) items
          (h.adoptItems kind config items).1
  | [], _ => by
    rw [adoptItems]
    exact ⟨.nil pools h, .nil⟩
  | item :: rest, hsrc => by
    rw [adoptItems]
    obtain ⟨ha, hs⟩ := adopt_shows pools h kind config item (hsrc item List.mem_cons_self)
    obtain ⟨hb, ht⟩ := adoptItems_shows pools (h.adopt kind config item).2 kind config rest
      fun s hmem m hm g hg => hsrc s (List.mem_cons_of_mem _ hmem) m hm g (ha.grows.trans hg)
    exact ⟨ha.cons hb, .cons (hs.lasts hb.grows.lasts) ht⟩

/-- Reading stored entries one after another gives entries that show them and share nothing. -/
theorem adoptEntries_shows (pools : Set Pool) (h : Heap) (kind : Kind) (config : Config) :
    ∀ entries : List (MapKey × Stored),
      (∀ e ∈ entries, ∀ m, e.2.Contains m → ∀ g, h.Grows g → g.Source pools m) →
      AdoptsAs pools h (h.adoptEntries kind config entries).2
          ((h.adoptEntries kind config entries).1.map (·.2)) ∧
        List.Forall₂
          (fun stored e => e.1 = stored.1.toValue ∧
            (h.adoptEntries kind config entries).2.Shows kind config stored.2 e.2)
          entries (h.adoptEntries kind config entries).1
  | [], _ => by
    rw [adoptEntries]
    exact ⟨.nil pools h, .nil⟩
  | (key, value) :: rest, hsrc => by
    rw [adoptEntries]
    obtain ⟨ha, hs⟩ := adopt_shows pools h kind config value (hsrc (key, value) List.mem_cons_self)
    obtain ⟨hb, ht⟩ := adoptEntries_shows pools (h.adopt kind config value).2 kind config rest
      fun e hmem m hm g hg => hsrc e (List.mem_cons_of_mem _ hmem) m hm g (ha.grows.trans hg)
    exact ⟨ha.cons hb, .cons ⟨rfl, hs.lasts hb.grows.lasts⟩ ht⟩

end

theorem Knows.grow {f : FieldDescriptor} (hf : Knows pools h f) (hg : h.Grows h') :
    Knows pools h' f := by
  cases hf with
  | given hpool hf => exact .given hpool hf
  | message hr hf =>
    have hcell := hg.cell hr
    exact .message (hg.has hr) (by rw [hcell]; exact hf)
  | repeated hr => exact (congrArg RepeatedCell.field (hg.cell hr)) ▸ .repeated (hg.has hr)
  | map hr => exact (congrArg MapCell.field (hg.cell hr)) ▸ .map (hg.has hr)

end Heap

namespace Script

variable {pools : Set Pool} {h : Heap} {f : FieldDescriptor} {kind : Kind} {config : Config}

/-- Whether values were made by the checks of a type, one after another. -/
structure Checked (pools : Set Pool) (h h' : Heap) (kind : Kind) (vs : List Value) : Prop extends
    Heap.AdoptsAs pools h h' vs where
  normal : ∀ v ∈ vs, h'.Normal kind v

/-- **A checked value** is a new one, in the form of its type. -/
theorem normalize_runs {v : Value} (hf : h.Knows pools f)
    (hk : kind = f.kind ∨ kind = f.keyKind ∨ kind = f.valueKind) (hv : v.Within h) :
    Runs pools ∅ h (normalize kind v config) fun h' x => Checked pools h h' kind [x] := by
  unfold normalize
  split
  · exact .throw
  · refine .bind_reading fun s hs => ?_
    rcases Kind.toStored_ok hs with ⟨x, rfl, hx⟩ | ⟨d, m, rfl, rfl, hm⟩
    · refine .of_keeps .refl (.refl ∅ h) fun a h' hrun => ?_
      cases hrun
      obtain ⟨ha, -⟩ := Heap.adopt_shows pools h kind config (.scalar x) nofun
      refine ⟨ha, fun w hw => ?_⟩
      rw [List.mem_singleton.1 hw]
      exact .scalar hx
    · obtain ⟨ha, q, hq, hhas, hcontent, -⟩ :=
        Heap.newMessage_shows config (.message d) (.stored hf hk hv hs)
      cases hq
      refine .of_keeps ha.changes ha.grows fun a h' hrun => ?_
      cases hrun
      refine ⟨ha, fun w hw => ?_⟩
      rw [List.mem_singleton.1 hw]
      have hsame : m.descriptor.same d := MessageDescriptor.same_of_toStored hm
      exact .message rfl hhas ((congrArg (fun n => n.descriptor.same d) hcontent).trans hsame)

/-- Checked values share nothing. -/
theorem normalizeAll_runs {values : List Value} (hf : h.Knows pools f)
    (hk : kind = f.kind ∨ kind = f.keyKind ∨ kind = f.valueKind)
    (hvalues : ∀ v ∈ values, v.Within h) :
    Runs pools ∅ h (normalizeAll kind values config) fun h' xs => Checked pools h h' kind xs := by
  unfold normalizeAll
  induction values generalizing h with
  | nil =>
    rw [List.mapM_nil]
    exact .pure ⟨.nil pools h, fun _ hv => absurd hv List.not_mem_nil⟩
  | cons v rest ih =>
    rw [List.mapM_cons]
    refine .bind (normalize_runs hf hk (hvalues v List.mem_cons_self)) (fun mid x _ hg hx => ?_)
      fun _ hp => absurd hp id
    have hrest : ∀ w ∈ rest, w.Within mid := fun w hw => (hvalues w (.tail _ hw)).grow hg
    refine .bind (ih (hf.grow hg) hrest) (fun h' xs _ hg' hxs => .pure ?_) fun _ hp => absurd hp id
    refine ⟨hx.toAdoptsAs.cons hxs.toAdoptsAs, fun w hw => ?_⟩
    rcases List.mem_cons.1 hw with rfl | hw
    · exact (hx.normal w List.mem_cons_self).lasts hg'.lasts
    · exact hxs.normal w hw

end Script

end Protoscript
