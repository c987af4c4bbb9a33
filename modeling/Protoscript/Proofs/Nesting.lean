import Protoscript.Proofs.Absorbing
import Protoscript.Proofs.Instances

/-!
# How deep messages nest

Bytes are read with a limit on how deep messages and groups nest. What a decoded message carries under
numbers that are not declared keeps to the limit, at every depth; whether the messages in it do has to be
assumed, as an entry of a map without a value gives an empty message below the last level.

* `Message.NestsWithin` — whether messages nest at most so deep;
* `Message.FitsWithin` — whether what is not declared can be written, at every depth;
* `Message.fitsWithin_ofWire?` — this is so for what was decoded;
* `Message.absorb?_toWire` — the encoding of such a message is read into another one.
-/

namespace Protoscript

namespace Message

/-- Whether a message lies in one of the fields of a message. -/
def Encloses (m c : Message) : Prop :=
  ∃ f ∈ m.descriptor.fields, ∃ s, m.stored? f = some s ∧ s.Contains c

/-- Whether messages nest at most so deep in a message. -/
def NestsWithin : (depth : Nat) → Message → Prop
  | 0, m => ∀ c, ¬ m.Encloses c
  | depth + 1, m => ∀ c, m.Encloses c → c.NestsWithin depth

/-- Whether the wire can carry what is not declared in a message, and in the messages in it. -/
def FitsWithin : (depth : Nat) → Message → Prop
  | 0, m => m.UndeclaredFits 0
  | depth + 1, m => m.UndeclaredFits (depth + 1) ∧ ∀ c, m.Encloses c → c.FitsWithin depth

theorem undeclaredFits_empty (d : MessageDescriptor) (room : Nat) : (empty d).UndeclaredFits room :=
  ⟨.nil, fun _ hu => absurd hu List.not_mem_nil⟩

theorem not_encloses_empty (d : MessageDescriptor) (c : Message) : ¬ (empty d).Encloses c := by
  rintro ⟨f, -, s, hs, -⟩
  cases hs

theorem fitsWithin_empty (d : MessageDescriptor) (depth : Nat) : (empty d).FitsWithin depth := by
  cases depth with
  | zero => exact undeclaredFits_empty d 0
  | succ depth => exact ⟨undeclaredFits_empty d _, fun c hc => absurd hc (not_encloses_empty d c)⟩

/-! ## Reading back -/

/-- **The encoding of a message** that nests within the limit is read into another one of its type. The
induction is on the limit. -/
theorem absorb?_toWire {p : Pool} (hwritten : ∀ f : FieldDescriptor, f.Of p → f.Written) {depth : Nat}
    {d : MessageDescriptor} (hd : d.Among {p}) {x y : Message} (hx : d.Takes x) (hy : d.Takes y)
    (hfits : y.FitsWithin depth) (hnests : y.NestsWithin depth) (hlength : y.toWire.length < UInt64.size) :
    ∃ z, absorb? depth x y.toWire = some z ∧ ∀ whole, Onto whole x y z := by
  have hfields : ∀ f ∈ d.fields, f.Written := fun f hf => hwritten f (FieldDescriptor.of_mem hd hf)
  -- on how deep messages may nest
  induction depth generalizing d x y with
  | zero =>
    refine absorbWith?_toWire (fun _ _ _ _ _ hnone => by cases hnone) hfields hy hfits
      (fun f hf s hs c hc => ?_) hlength hx
    exact absurd ⟨f, hy.descriptor.symm ▸ hf, s, hs, hc⟩ (hnests c)
  | succ depth ih =>
    refine absorbWith?_toWire (fun _ _ _ _ hm h => takes_absorb? hm h) hfields hy hfits.1
      (fun f hf s hs c hc o ho => ?_) hlength hx
    have hof := FieldDescriptor.of_mem hd hf
    have hholds := hy.stored hf hs
    obtain ⟨hcd, hconforms⟩ := hholds.contains hof hc
    have hc' : y.Encloses c := ⟨f, hy.descriptor.symm ▸ hf, s, hs, hc⟩
    have hle : c.toWire.length ≤ y.toWire.length := by
      have hfield := FieldDescriptor.length_toWire_of_contains hholds hc
      have hall := length_toWire_le (takes_bare hy) hf hs
      rw [toWire_eq y, hy.descriptor, writeFields_append, List.length_append]
      omega
    exact ih hcd ho ⟨rfl, hconforms⟩ (hfits.2 c hc') (hnests c hc') (by omega)
      fun g hg => hwritten g (FieldDescriptor.of_mem hcd hg)

end Message

/-! ## What was decoded fits -/

theorem lookupNumber_mem {α : Type} {number : Nat} {entries : List (Nat × α)} {value : α}
    (h : lookupNumber number entries = some value) : (number, value) ∈ entries := by
  induction entries with
  | nil => cases h
  | cons e rest ih =>
    rw [lookupNumber] at h
    split at h
    · rename_i hnumber
      cases h
      exact hnumber ▸ List.mem_cons_self
    · exact List.mem_cons_of_mem _ (ih h)

section

variable {inner : Message → List UInt8 → Option Message} {depth : Nat} {P : Message → Prop}
  (htakes : ∀ d m bytes n, MessageDescriptor.Takes d m → inner m bytes = some n → d.Takes n)
  (hinner : ∀ d m bytes n, MessageDescriptor.Takes d m → P m → inner m bytes = some n → P n)
  (hempty : ∀ d, P (.empty d))

include hinner hempty

/-- The messages in a single value that was read. -/
theorem Kind.contains_readStored? {kind : Kind} {old : Option Stored} {w : WireValue} {s : Stored}
    (hold : ∀ u ∈ old, kind.Holds u) (hP : ∀ u ∈ old, ∀ c, u.Contains c → P c)
    (h : kind.readStored? inner old w = some s) : ∀ c, s.Contains c → P c := by
  intro c hc
  unfold readStored? at h
  split at h
  · split at h
    · obtain ⟨n, hn, rfl⟩ := Option.map_eq_some_iff.1 h
      cases hc
      exact hinner _ _ _ _ (.of_holds (hold _ rfl)) (hP _ rfl _ .message) hn
    · obtain ⟨n, hn, rfl⟩ := Option.map_eq_some_iff.1 h
      cases hc
      exact hinner _ _ _ _ (.empty _) (hempty _) hn
    · cases h
  · obtain ⟨a, -, rfl⟩ := Option.map_eq_some_iff.1 h
    cases hc

omit hinner in
theorem Stored.contains_singleDefault {f : FieldDescriptor} {c : Message}
    (hc : (Stored.singleDefault f).Contains c) : P c := by
  unfold singleDefault at hc
  split at hc
  · cases hc
  · cases hc
    exact hempty _
  · obtain _ | ⟨hs, -⟩ := hc
    cases hs

include htakes

/-- The messages in an entry that was read. -/
theorem contains_readMapEntry {entry : MessageDescriptor} {bytes : List UInt8} {e : MapKey × Stored}
    (h : readMapEntry inner depth entry bytes = some e) : ∀ c, e.2.Contains c → P c := by
  obtain ⟨key, value⟩ := e
  unfold readMapEntry at h
  simp only [Option.bind_eq_bind, Option.bind_eq_some_iff] at h
  obtain ⟨fields, -, ⟨k, v⟩, hfold, hkey⟩ := h
  have hvalue : (FieldDescriptor.entryValue entry).kind.Holds v ∧ ∀ c, v.Contains c → P c := by
    refine Option.foldlM_keeps
      (P := fun e : Stored × Stored => (FieldDescriptor.entryValue entry).kind.Holds e.2 ∧
        ∀ c, e.2.Contains c → P c) (fun e field _ e' he hstep => ?_)
      ⟨FieldDescriptor.holds_singleDefault, fun c hc => Stored.contains_singleDefault hempty hc⟩ hfold
    split at hstep
    · obtain ⟨s, hs, rfl⟩ := Option.map_eq_some_iff.1 hstep
      exact he
    · split at hstep
      · obtain ⟨s, hs, rfl⟩ := Option.map_eq_some_iff.1 hstep
        have hold : ∀ u ∈ some e.2, (FieldDescriptor.entryValue entry).kind.Holds u :=
          fun u hu => Option.some.inj hu ▸ he.1
        exact ⟨Kind.holds_readStored? htakes hold hs,
          Kind.contains_readStored? hinner hempty hold (fun u hu => Option.some.inj hu ▸ he.2) hs⟩
      · split at hstep <;> cases hstep
        exact he
  cases k with
  | scalar s =>
    obtain ⟨key', -, heq⟩ := Option.map_eq_some_iff.1 hkey
    cases heq
    exact hvalue.2
  | _ => cases hkey

omit htakes hinner hempty in
/-- Lists and maps hold no messages unless something was stored. -/
theorem FieldDescriptor.contains_getD {f : FieldDescriptor} {old : Option Stored}
    (hrepeated : f.isMap = true ∨ f.isList = true) (hP : ∀ u ∈ old, ∀ c, u.Contains c → P c) :
    ∀ c, (old.getD (.defaultOf f)).Contains c → P c := by
  intro c hc
  rcases old with _ | u
  · rw [Option.getD_none] at hc
    unfold Stored.defaultOf at hc
    split at hc
    · obtain _ | _ | ⟨he, -⟩ := hc
      cases he
    · rename_i hmap
      rw [if_pos (hrepeated.resolve_left hmap)] at hc
      obtain _ | ⟨hs, -⟩ := hc
      cases hs
  · exact hP u rfl c hc

/-- The messages in what a field holds after a value was read. -/
theorem FieldDescriptor.contains_readInto? {f : FieldDescriptor} {old : Option Stored} {w : WireValue}
    {t : Stored} (hold : ∀ u ∈ old, f.Holds u) (hP : ∀ u ∈ old, ∀ c, u.Contains c → P c)
    (h : f.readInto? inner depth old w = some t) : ∀ c, t.Contains c → P c := by
  intro c hc
  unfold readInto? at h
  split at h
  · rename_i hmap
    have hdefault : ∀ c, (old.getD (.defaultOf f)).Contains c → P c := contains_getD (.inl hmap) hP
    split at h
    · rename_i entry bytes entries _ hget
      rw [hget] at hdefault
      obtain ⟨e, he, rfl⟩ := Option.map_eq_some_iff.1 h
      obtain _ | _ | ⟨hmem, hc⟩ := hc
      rcases mem_insertKey hmem with rfl | hmem
      · exact contains_readMapEntry htakes hinner hempty he c hc
      · exact hdefault c (.map hmem hc)
    · cases h
  split at h
  · rename_i hlist
    have hdefault : ∀ c, (old.getD (.defaultOf f)).Contains c → P c := contains_getD (.inr hlist) hP
    split at h
    · rename_i items hget
      rw [hget] at hdefault
      -- items are read from nothing, unlike single messages
      have hitem {w : WireValue} {s : Stored} (hs : f.kind.readStored? inner none w = some s) :
          ∀ c, s.Contains c → P c :=
        Kind.contains_readStored? hinner hempty (fun _ hu => by cases hu) (fun _ hu => by cases hu) hs
      split at h
      · simp only [Option.bind_eq_bind, Option.bind_eq_some_iff] at h
        obtain ⟨values, -, new, hnew, heq⟩ := h
        cases heq
        obtain _ | ⟨hs, hc⟩ := hc
        rcases List.mem_append.1 hs with hs | hs
        · exact hdefault c (.list hs hc)
        · exact Option.mapM_all (fun w _ s hs => hitem hs) hnew _ hs c hc
      · obtain ⟨item, hread, rfl⟩ := Option.map_eq_some_iff.1 h
        obtain _ | ⟨hs, hc⟩ := hc
        rcases List.mem_append.1 hs with hs | hs
        · exact hdefault c (.list hs hc)
        · rw [List.mem_singleton.1 hs] at hc
          exact hitem hread c hc
    · cases h
  · rename_i hmap hlist
    refine Kind.contains_readStored? hinner hempty (fun u hu => ?_) hP h c hc
    exact (hold u hu).kind (by simpa using hmap) (by simpa using hlist)

/-- Whether what is not declared in a message fits, and the messages in it have a property. -/
structure Message.FitsWith (depth : Nat) (P : Message → Prop) (m : Message) : Prop where
  undeclared : m.UndeclaredFits depth
  inside : ∀ c, m.Encloses c → P c

omit htakes hinner hempty in
theorem Message.FitsWith.keep {m : Message} (hm : m.FitsWith depth P) {number : Nat} {w : WireValue}
    (hnumber : IsFieldNumber number) (hw : w.Fits depth) : (m.keep number w).FitsWith depth P where
  undeclared := by
    refine ⟨sorted_insertNumber hm.undeclared.sorted, fun u hu => ?_⟩
    rcases mem_insertNumber hu with rfl | hu
    · refine ⟨hnumber, fun v hv => ?_⟩
      rcases List.mem_append.1 hv with hv | hv
      · rcases hlookup : lookupNumber number m.unknown with _ | vs
        · rw [hlookup] at hv
          cases hv
        · rw [hlookup] at hv
          exact (hm.undeclared.fits _ (lookupNumber_mem hlookup)).2 v hv
      · rwa [List.mem_singleton.1 hv]
    · exact hm.undeclared.fits u hu
  inside := hm.inside

omit htakes hinner hempty in
theorem Message.FitsWith.set {d : MessageDescriptor} {m : Message} (hd : d.Takes m)
    (hm : m.FitsWith depth P) {f : FieldDescriptor} (hf : f ∈ d.fields) {t : Stored}
    (ht : ∀ c, t.Contains c → P c) : (m.set f t).FitsWith depth P where
  undeclared := by
    have hunknown := hd.unknown_set hf t
    exact ⟨hunknown ▸ hm.undeclared.sorted, hunknown ▸ hm.undeclared.fits⟩
  inside := by
    rintro c ⟨g, hg, s, hs, hc⟩
    rw [descriptor_set, hd.descriptor] at hg
    by_cases hnumber : g.number = f.number
    · rw [stored?_set_self m hnumber] at hs
      cases hs
      exact ht c hc
    · rw [stored?_set_of_ne m hnumber] at hs
      rcases m.stored?_select_eq f g with hnone | hsame
      · rw [hnone] at hs
        cases hs
      · rw [hsame] at hs
        exact hm.inside c ⟨g, hd.descriptor.symm ▸ hg, s, hs, hc⟩

/-- One numbered value. -/
theorem Message.fitsWith_absorbField? {d : MessageDescriptor} {m n : Message} (hd : d.Takes m)
    (hm : m.FitsWith depth P) {number : Nat} {w : WireValue} (hnumber : IsFieldNumber number)
    (hw : w.Fits depth) (h : m.absorbField? inner depth number w = some n) : n.FitsWith depth P := by
  rcases hdeclared : d.numbered? number with _ | f
  · rw [← hd.descriptor] at hdeclared
    unfold absorbField? at h
    rw [hdeclared] at h
    cases h
    exact hm.keep hnumber hw
  · have hf := MessageDescriptor.numbered?_mem hdeclared
    obtain rfl : f.number = number := by
      obtain ⟨info, hinfo, rfl⟩ := Option.map_eq_some_iff.1 hdeclared
      exact beq_iff_eq.1 (List.find?_some hinfo :)
    rw [absorbField?_eq hd hf] at h
    obtain ⟨t, ht, rfl⟩ := Option.map_eq_some_iff.1 h
    refine hm.set hd hf (FieldDescriptor.contains_readInto? htakes hinner hempty
      (fun u hu => hd.stored hf hu) (fun u hu c hc => ?_) ht)
    exact hm.inside c ⟨f, hd.descriptor.symm ▸ hf, u, hu, hc⟩

/-- Everything that bytes hold. -/
theorem Message.fitsWith_absorbWith? {d : MessageDescriptor} {m n : Message} (hd : d.Takes m)
    (hm : m.FitsWith depth P) {bytes : List UInt8} (h : m.absorbWith? inner depth bytes = some n) :
    n.FitsWith depth P := by
  rw [absorbWith?_eq] at h
  obtain ⟨fields, hfields, hfold⟩ := Option.bind_eq_some_iff.1 h
  have hfit := fits_of_readFields? hfields
  refine (Option.foldlM_keeps (P := fun m : Message => d.Takes m ∧ m.FitsWith depth P)
    (fun m e he n hm hread => ?_) ⟨hd, hm⟩ hfold).2
  obtain ⟨hnumber, hw⟩ := hfit e he
  exact ⟨takes_absorbField? htakes hm.1 hread,
    fitsWith_absorbField? htakes hinner hempty hm.1 hm.2 hnumber hw hread⟩

end

namespace Message

/-- Bytes that are read into a message leave it one that fits. The induction is on the limit. -/
theorem fitsWithin_absorb? {depth : Nat} {d : MessageDescriptor} {m n : Message} {bytes : List UInt8}
    (hd : d.Takes m) (hm : m.FitsWithin depth) (h : absorb? depth m bytes = some n) :
    n.FitsWithin depth := by
  induction depth generalizing d m n bytes with
  | zero =>
    exact (fitsWith_absorbWith? (P := fun _ => True) (fun _ _ _ _ _ hnone => by cases hnone)
      (fun _ _ _ _ _ _ _ => trivial) (fun _ => trivial) hd ⟨hm, fun _ _ => trivial⟩ h).undeclared
  | succ depth ih =>
    have hn := fitsWith_absorbWith? (P := FitsWithin depth) (fun _ _ _ _ hm h => takes_absorb? hm h)
      (fun _ _ _ _ hd hm h => ih hd hm h) (fitsWithin_empty · depth) hd ⟨hm.1, hm.2⟩ h
    exact ⟨hn.undeclared, hn.inside⟩

/-- **What was decoded fits.** -/
theorem fitsWithin_ofWire? {d : MessageDescriptor} {m : Message} {bytes : List UInt8}
    (h : ofWire? d bytes = some m) : m.FitsWithin wireDepth :=
  fitsWithin_absorb? (.empty d) (fitsWithin_empty d wireDepth) h

end Message

end Protoscript
