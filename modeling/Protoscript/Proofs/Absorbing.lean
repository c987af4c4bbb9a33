import Protoscript.Proofs.WireFields

/-!
# The encoding of a message is read into another one

The fields of a message are written one after the other, and then what it carries under numbers that are
not declared. Reading that into another message of the type reads the one on top of the other.

* `MessageDescriptor.Adds` — a message with one field more, and what that makes of reading it on top of
  another one (`Message.Onto.skip`, `Message.Onto.cons`);
* `Message.absorbAll?_fieldsToWire` — the fields are read, by induction with any message to read into;
* `Message.UndeclaredFits`, `MessageDescriptor.Reads` — whether what is written can be read back;
* `Message.absorbWith?_toWire` — the encoding of a message is read into another one;
* `Message.absorbWith?_toWire_append` — two encodings, one behind the other.
-/

namespace Protoscript

/-! ## One field after the other -/

section

variable {d : MessageDescriptor} {f g : FieldDescriptor} {s t : Stored} {rest : List (Nat × Stored)}
  {x z : Message}

namespace Message

theorem stored?_cons (number : Nat) : (mk d ((number, s) :: rest) []).stored? g =
    if number = g.number then some s else (mk d rest []).stored? g := rfl

theorem has_iff_counts (hs : x.stored? f = some s) : x.has f = true ↔ f.Counts s := by
  unfold FieldDescriptor.Counts
  rw [has_of_some hs]
  simp

end Message

namespace MessageDescriptor.Takes

/-- The field that comes first is held by none of those after it. -/
theorem stored?_tail (h : d.Takes (.mk d ((f.number, s) :: rest) [])) :
    (Message.mk d rest []).stored? f = none := by
  obtain ⟨-, ⟨sorted⟩⟩ := h
  obtain ⟨hfirst, -⟩ := List.pairwise_cons.1 sorted
  unfold Message.stored?
  rw [← Option.not_isSome_iff_eq_none, lookupNumber_isSome_iff]
  exact fun hmem => Nat.lt_irrefl _ (hfirst f.number hmem)

theorem stored?_of_tail (h : d.Takes (.mk d ((f.number, s) :: rest) []))
    (ht : (Message.mk d rest []).stored? g = some t) :
    (Message.mk d ((f.number, s) :: rest) []).stored? g = some t := by
  rw [Message.stored?_cons]
  split
  · rename_i hnumber
    have hnone := h.stored?_tail
    unfold Message.stored? at hnone ht
    rw [hnumber, ht] at hnone
    cases hnone
  · exact ht

/-- The fields after the first one are those of a message of the type. -/
theorem tail (h : d.Takes (.mk d ((f.number, s) :: rest) [])) : d.Takes (.mk d rest []) := by
  have hof {g : FieldDescriptor} {t : Stored} (ht : (Message.mk d rest []).stored? g = some t) :=
    h.stored?_of_tail ht
  obtain ⟨-, ⟨sorted, declared, held, single, -⟩⟩ := h
  refine ⟨rfl, .mk (List.pairwise_cons.1 sorted).2 (fun e he => declared e (.tail _ he))
    (fun g hg t ht => held g hg t (hof ht)) (fun g hg hsome k hk => ?_)
    fun _ he => absurd he List.not_mem_nil⟩
  obtain ⟨t, ht⟩ := Option.isSome_iff_exists.1 hsome
  have hnone := single g hg (Option.isSome_iff_exists.2 ⟨t, hof ht⟩) k hk
  rw [Option.eq_none_iff_forall_ne_some] at hnone ⊢
  exact fun u hu => hnone u (hof hu)

end MessageDescriptor.Takes

/-- Whether a message holds something in one field more than another one of the type. -/
structure MessageDescriptor.Adds (d : MessageDescriptor) (y' : Message) (f : FieldDescriptor) (s : Stored)
    (y : Message) : Prop where
  field : f ∈ d.fields
  takes : d.Takes y
  rest : d.Takes y'
  stored : y.stored? f = some s
  absent : y'.stored? f = none
  other : ∀ g : FieldDescriptor, g.number ≠ f.number → y.stored? g = y'.stored? g
  unknown : y.unknown = y'.unknown

theorem MessageDescriptor.Takes.adds (hf : f ∈ d.fields)
    (h : d.Takes (.mk d ((f.number, s) :: rest) [])) :
    d.Adds (.mk d rest []) f s (.mk d ((f.number, s) :: rest) []) where
  field := hf
  takes := h
  rest := h.tail
  stored := by rw [Message.stored?_cons, if_pos rfl]
  absent := h.stored?_tail
  other g hne := by rw [Message.stored?_cons, if_neg hne.symm]
  unknown := rfl

/-- A member of a oneof is in the fields of the message. -/
theorem MessageDescriptor.mem_of_siblings (hf : f ∈ d.fields) (hg : g ∈ f.siblings) : g ∈ d.fields :=
  (mem_fields.1 hf).1 ▸ (FieldDescriptor.rivals_iff.1 (show f.Rivals g from hg)).2.1

variable {whole : Prop} {y y' : Message}

namespace MessageDescriptor.Adds

theorem has_other (h : d.Adds y' f s y) (hne : g.number ≠ f.number) : y.has g = y'.has g :=
  Message.has_congr (h.other g hne)

theorem has_absent (h : d.Adds y' f s y) : y'.has f = false := Message.has_of_none h.absent

theorem under (h : d.Adds y' f s y) (number : Nat) : y.under number = y'.under number := by
  unfold Message.under
  rw [h.unknown]

/-- No other member of the field's oneof is held. -/
theorem stored?_of_rivals (h : d.Adds y' f s y) (hg : f.Rivals g) : y'.stored? g = none := by
  have hnone := h.takes.siblings_eq_none h.field (Option.isSome_iff_exists.2 ⟨s, h.stored⟩) g hg
  rwa [h.other g (FieldDescriptor.rivals_iff.1 hg).2.2.2] at hnone

theorem has_of_rivals (h : d.Adds y' f s y) (hg : f.Rivals g) : y'.has g = false :=
  Message.has_of_none (h.stored?_of_rivals hg)

end MessageDescriptor.Adds

namespace Message

/-- Only what is set in the message that is read matters. -/
theorem OntoAt.of_same (hg : g ∈ d.fields) (hhas : ∀ k ∈ d.fields, y.has k = y'.has k)
    (hstored : y.has g = true → y.stored? g = y'.stored? g) (h : Message.OntoAt whole x y' z g) :
    Message.OntoAt whole x y z g := by
  have hdisplaces : y.Displaces g ↔ y'.Displaces g :=
    exists_congr fun k => and_congr_right fun hk => by
      rw [hhas k (MessageDescriptor.mem_of_siblings hg hk)]
  have hyg := hhas g hg
  refine ⟨?_, fun hno => h.kept (hyg ▸ hno), fun hxg hset u v hu hv => ?_,
    fun hxg hset u v w hu hv hw => ?_⟩
  · rw [h.set, hyg, hdisplaces]
  · exact h.fresh hxg (hyg ▸ hset) u v (hstored hset ▸ hu) hv
  · exact h.onto hxg (hyg ▸ hset) u v w hu (hstored hset ▸ hv) hw

/-- A field that does not count changes nothing. -/
theorem Onto.skip (h : d.Adds y' f s y) (hno : ¬ f.Counts s) (hz : Message.Onto whole x y' z) :
    Message.Onto whole x y z := by
  have hunset : y.has f = false := by simpa using (has_iff_counts h.stored).not.2 hno
  have hhas : ∀ k ∈ d.fields, y.has k = y'.has k := by
    intro k hk
    by_cases hnumber : k.number = f.number
    · rw [MessageDescriptor.eq_of_number hk h.field hnumber, hunset, h.has_absent]
    · exact h.has_other hnumber
  have hd : y.descriptor = y'.descriptor := h.takes.descriptor.trans h.rest.descriptor.symm
  refine .of_fields (hz.descriptor.trans hd.symm) (fun g hg => ?_)
    fun hwhole number => by rw [h.under, hz.under hwhole]
  have hgd : g ∈ d.fields := h.takes.descriptor ▸ hg
  refine .of_same hgd hhas (fun hset => h.other g fun hnumber => ?_) (hz.at_field (hd ▸ hg))
  rw [MessageDescriptor.eq_of_number hgd h.field hnumber, hunset] at hset
  cases hset

section

variable (h : d.Adds y' f s y) (hset : f.Counts s)

include h hset

/-- The field that is read first holds what it gives. -/
theorem ontoAt_first (hgives : f.Gives (x.stored? f) s t) (ht : f.Counts t)
    (hz : Message.OntoAt whole (x.set f t) y' z f) : Message.OntoAt whole x y z f := by
  have hyf : y.has f = true := (has_iff_counts h.stored).2 hset
  have hwritten : (x.set f t).stored? f = some t := stored?_set_self x rfl t
  have hundisplaced : ¬ y'.Displaces f := fun ⟨k, hk, hkset⟩ => by
    rw [h.has_of_rivals hk] at hkset
    cases hkset
  have hzf : z.has f = true := hz.set.2 (.inr ⟨hundisplaced, (has_iff_counts hwritten).2 ht⟩)
  have hzstored : z.stored? f = some t := (hz.kept h.has_absent hzf).trans hwritten
  refine ⟨by simp [hyf, hzf], fun hno => ?_, fun hxf _ u v hu hv => ?_, fun _ _ u v w hu hv hw => ?_⟩
  · rw [hyf] at hno
    cases hno
  · obtain rfl : s = u := Option.some.inj (h.stored.symm.trans hu)
    obtain rfl : t = v := Option.some.inj (hzstored.symm.trans hv)
    refine hgives.fresh (fun u hu => FieldDescriptor.isDefaultOf_of_not_counts fun hcounts => ?_) whole
    rw [(has_iff_counts hu).2 hcounts] at hxf
    cases hxf
  · obtain rfl : s = v := Option.some.inj (h.stored.symm.trans hv)
    obtain rfl : t = w := Option.some.inj (hzstored.symm.trans hw)
    exact hgives.onto u hu whole

/-- The other members of its oneof are unset. -/
theorem ontoAt_rival (hrivals : f.Rivals g) (hz : Message.OntoAt whole (x.set f t) y' z g) :
    Message.OntoAt whole x y z g := by
  have hmessage : f ∈ f.message.fields := (MessageDescriptor.mem_fields.1 h.field).1.symm ▸ h.field
  have hyno : y.has g = false :=
    (h.has_other (FieldDescriptor.rivals_iff.1 hrivals).2.2.2).trans (h.has_of_rivals hrivals)
  have hdisplaces : y.Displaces g :=
    ⟨f, FieldDescriptor.Rivals.symm hmessage hrivals, (has_iff_counts h.stored).2 hset⟩
  have hzno : z.has g = false := by
    have hxno : (x.set f t).has g = false := has_of_none (stored?_set_of_rivals x hrivals t)
    have hiff := hz.set
    rw [h.has_of_rivals hrivals, hxno] at hiff
    simpa using hiff
  constructor <;> simp [hyno, hzno, hdisplaces]

omit hset in
/-- Any other field is read as if the first one was not there. -/
theorem ontoAt_other (hg : g ∈ d.fields) (hne : g.number ≠ f.number) (hrivals : ¬ f.Rivals g)
    (hz : Message.OntoAt whole (x.set f t) y' z g) : Message.OntoAt whole x y z g := by
  have hmessage : f.message = d := (MessageDescriptor.mem_fields.1 h.field).1
  have hsame : (x.set f t).stored? g = x.stored? g :=
    stored?_set_of_not_rivals x (hmessage.symm ▸ hg) hne hrivals t
  have hdisplaces : y.Displaces g ↔ y'.Displaces g := by
    refine exists_congr fun k => and_congr_right fun hk => ?_
    rw [h.has_other]
    intro hkf
    obtain rfl := MessageDescriptor.eq_of_number (MessageDescriptor.mem_of_siblings hg hk) h.field hkf
    exact hrivals (FieldDescriptor.Rivals.symm ((MessageDescriptor.mem_fields.1 hg).1.symm ▸ hg) hk)
  obtain ⟨hzset, hkept, hfresh, honto⟩ := hz
  rw [has_congr hsame] at hzset hfresh honto
  rw [hsame] at hkept honto
  refine ⟨?_, ?_, ?_, ?_⟩
  · rw [hzset, h.has_other hne, hdisplaces]
  · rwa [h.has_other hne]
  · rwa [h.has_other hne, h.other g hne]
  · rwa [h.has_other hne, h.other g hne]

/-- A field that counts is read first, and then the others are read. -/
theorem Onto.cons (hx : d.Takes x) (hgives : f.Gives (x.stored? f) s t) (ht : f.Counts t)
    (hz : Message.Onto whole (x.set f t) y' z) : Message.Onto whole x y z := by
  have hd : y.descriptor = y'.descriptor := h.takes.descriptor.trans h.rest.descriptor.symm
  refine .of_fields (hz.descriptor.trans hd.symm) (fun g hg => ?_) fun hwhole number => ?_
  · have hgd : g ∈ d.fields := h.takes.descriptor ▸ hg
    have hzg := hz.at_field (hd ▸ hg)
    by_cases hnumber : g.number = f.number
    · obtain rfl := MessageDescriptor.eq_of_number hgd h.field hnumber
      exact ontoAt_first h hset hgives ht hzg
    by_cases hrivals : f.Rivals g
    · exact ontoAt_rival h hset hrivals hzg
    · exact ontoAt_other h hgd hnumber hrivals hzg
  · have hsame : (x.set f t).under number = x.under number := by
      unfold Message.under
      rw [hx.unknown_set h.field]
    rw [h.under, hz.under hwhole, hsame]

end

end Message

end

/-- Whether numbered values are read back, as fields of a type, from what they are written as. -/
structure MessageDescriptor.Reads (d : MessageDescriptor) (depth : Nat) (fields : List (Nat × WireValue)) :
    Prop where
  fit : FieldsFit depth fields
  entries : ∀ e ∈ fields, ∀ f, d.numbered? e.1 = some f → f.isMap = true → e.2.code = 2

theorem MessageDescriptor.Reads.append {d : MessageDescriptor} {depth : Nat}
    {xs ys : List (Nat × WireValue)} (hx : d.Reads depth xs) (hy : d.Reads depth ys) :
    d.Reads depth (xs ++ ys) where
  fit e he := (List.mem_append.1 he).elim (hx.fit e) (hy.fit e)
  entries e he := (List.mem_append.1 he).elim (hx.entries e) (hy.entries e)

/-! ## All fields -/

namespace Message

theorem fieldsToWire_cons {d : MessageDescriptor} {f : FieldDescriptor} (hf : f ∈ d.fields) (s : Stored)
    (rest : List (Nat × Stored)) :
    fieldsToWire d ((f.number, s) :: rest) = s.toWire f ++ fieldsToWire d rest := by
  rw [fieldsToWire, MessageDescriptor.numbered?_number hf]

/-- The first field of a message of a type is declared. -/
theorem exists_first {d : MessageDescriptor} {number : Nat} {s : Stored} {rest : List (Nat × Stored)}
    (hy : d.Takes (.mk d ((number, s) :: rest) [])) : ∃ f ∈ d.fields, f.number = number := by
  obtain ⟨-, ⟨-, declared⟩⟩ := hy
  exact declared _ List.mem_cons_self

section

variable {inner : Message → List UInt8 → Option Message} {depth : Nat} {d : MessageDescriptor}
  (hinner : ∀ d m bytes n, MessageDescriptor.Takes d m → inner m bytes = some n → d.Takes n)

include hinner

theorem takes_absorbAll? {m n : Message} (hm : d.Takes m) {fields : List (Nat × WireValue)}
    (h : m.absorbAll? inner depth fields = some n) : d.Takes n :=
  Option.foldlM_keeps (fun _ _ _ _ hm h => takes_absorbField? hinner hm h) hm h

/-- The fields of a message are read into another one, one after the other. -/
theorem absorbAll?_fieldsToWire (hwritten : ∀ f ∈ d.fields, f.Written) {fs : List (Nat × Stored)}
    (hy : d.Takes (.mk d fs []))
    (hback : ∀ f ∈ d.fields, ∀ s, (mk d fs []).stored? f = some s → ∀ m, s.Contains m → m.ReadsBack inner)
    (hlength : (writeFields (fieldsToWire d fs)).length < UInt64.size) {x : Message} (hx : d.Takes x) :
    ∃ z, x.absorbAll? inner depth (fieldsToWire d fs) = some z ∧ ∀ whole, Onto whole x (.mk d fs []) z := by
  induction fs generalizing x with
  | nil =>
    refine ⟨x, rfl, fun whole => .of_fields (hx.descriptor) (fun f hf => ?_) fun _ number => ?_⟩
    · have hempty (g : FieldDescriptor) : (mk d [] []).has g = false := rfl
      have hno : ¬ (mk d [] []).Displaces f := fun ⟨g, _, hg⟩ => by cases hg
      exact ⟨by simp [hempty, hno], fun _ _ => rfl, fun _ hset => (by cases hset),
        fun _ hset => (by cases hset)⟩
    · exact (List.append_nil _).symm
  | cons e rest ih =>
    obtain ⟨number, s⟩ := e
    obtain ⟨f, hf, rfl⟩ := exists_first hy
    have hadds := hy.adds hf
    have hs := hadds.stored
    have hholds := hy.stored hf hs
    have hfields := fieldsToWire_cons hf s rest
    rw [hfields, writeFields_append, List.length_append] at hlength
    have ih {x : Message} (hx : d.Takes x) := ih hadds.rest
      (fun g hg t ht => hback g hg t (hy.stored?_of_tail ht)) (by omega) hx
    -- a field that does not count writes nothing
    by_cases hset : f.Counts s
    · obtain ⟨ws, t, hwire, hws, hread, hgives, hcounts⟩ : f.ReadsBack inner depth (x.stored? f) s :=
        FieldDescriptor.readsBack (hwritten f hf) hholds hset (fun u hu => hx.stored hf hu)
          (hback f hf s hs) (by omega)
      have ht : f.Holds t := FieldDescriptor.holds_readAll? hinner hf (fun u hu => hx.stored hf hu) hread
      obtain ⟨z, hz, honto⟩ := ih (hx.set hf ht)
      refine ⟨z, ?_, fun whole => .cons hadds hset hx hgives hcounts (honto whole)⟩
      rw [hfields, hwire, absorbAll?_append, absorbAll?_eq hinner hf hx hws, hread]
      exact hz
    · obtain ⟨z, hz, honto⟩ := ih hx
      refine ⟨z, ?_, fun whole => .skip hadds hset (honto whole)⟩
      rw [hfields, FieldDescriptor.toWire_of_not_counts hholds hset]
      exact hz

end

/-! ## What is not declared -/

/-- What a message carries under numbers that its type does not declare, as numbered values. -/
def undeclared (m : Message) : List (Nat × WireValue) := m.unknown.flatMap fun u => u.2.map (u.1, ·)

theorem toWire_eq (m : Message) :
    m.toWire = writeFields (fieldsToWire m.descriptor m.fields ++ m.undeclared) := by
  cases m
  rw [toWire]
  rfl

/-- The values of one number among numbered values. -/
def valuesOf (number : Nat) (fields : List (Nat × WireValue)) : List WireValue :=
  (fields.filter fun e => e.1 == number).map (·.2)

theorem under_keep (m : Message) (number other : Nat) (w : WireValue) :
    (m.keep number w).under other = m.under other ++ valuesOf other [(number, w)] := by
  unfold under keep
  by_cases h : number = other
  · subst h
    simp [valuesOf]
  · rw [unknown_mk, lookupNumber_insertNumber_of_ne (Ne.symm h)]
    simp [valuesOf, h]

/-- Values under numbers that are not declared are kept. -/
theorem absorbAll?_undeclared {inner : Message → List UInt8 → Option Message} {depth : Nat}
    {fields : List (Nat × WireValue)} {x : Message}
    (hno : ∀ e ∈ fields, x.descriptor.numbered? e.1 = none) :
    ∃ z, x.absorbAll? inner depth fields = some z ∧ z.descriptor = x.descriptor ∧ z.fields = x.fields ∧
      ∀ number, z.under number = x.under number ++ valuesOf number fields := by
  -- every undeclared field is kept, after those that are there
  induction fields generalizing x with
  | nil => exact ⟨x, rfl, rfl, rfl, fun _ => (List.append_nil _).symm⟩
  | cons e rest ih =>
    obtain ⟨number, w⟩ := e
    obtain ⟨hfirst, hrest⟩ := List.forall_mem_cons.1 hno
    have hkeep : ∀ e ∈ rest, (x.keep number w).descriptor.numbered? e.1 = none := hrest
    obtain ⟨z, hz, hdescriptor, hfields, hunder⟩ := ih hkeep
    refine ⟨z, ?_, hdescriptor, hfields, fun other => ?_⟩
    · rw [absorbAll?_cons, absorbField?, hfirst]
      exact hz
    · rw [hunder, under_keep, List.append_assoc]
      refine congrArg (x.under other ++ ·) ?_
      unfold valuesOf
      rw [← List.map_append, ← List.filter_append]
      rfl

/-- What a message carries under a number is what it is written with under that number. -/
theorem under_eq_valuesOf {m : Message} (hnodup : (m.unknown.map (·.1)).Nodup) (number : Nat) :
    m.under number = valuesOf number m.undeclared := by
  unfold under undeclared valuesOf
  generalize m.unknown = unknown at hnodup
  induction unknown with
  | nil => rfl
  | cons u rest ih =>
    obtain ⟨hfirst, hrest⟩ := List.nodup_cons.1 hnodup
    rw [List.flatMap_cons, List.filter_append, List.map_append, ← ih hrest, lookupNumber]
    split
    · rename_i hnumber
      obtain rfl := hnumber
      have hnone : lookupNumber u.1 rest = none := by
        rwa [← Option.not_isSome_iff_eq_none, lookupNumber_isSome_iff]
      simp [hnone, List.filter_map, Function.comp_def]
    · rename_i hnumber
      simp [hnumber]

/-! ## The message -/

/-- Whether the wire can carry what a message carries under numbers that are not declared, with groups
nested at most `room` deep. -/
structure UndeclaredFits (room : Nat) (m : Message) : Prop where
  sorted : (m.unknown.map (·.1)).Pairwise (· < ·)
  fits : ∀ u ∈ m.unknown, IsFieldNumber u.1 ∧ ∀ w ∈ u.2, w.Fits room

section

variable {inner : Message → List UInt8 → Option Message} {depth : Nat} {d : MessageDescriptor}
  {x y : Message}

/-- Fields are written as values under their numbers. -/
theorem code_of_mem_fieldsToWire {fs : List (Nat × Stored)} (hy : d.Takes (.mk d fs []))
    {e : Nat × WireValue} (he : e ∈ fieldsToWire d fs) :
    ∃ f ∈ d.fields, e.1 = f.number ∧ e.2.code ≠ 3 ∧ (f.isMap = true → e.2.code = 2) := by
  induction fs with
  | nil => cases he
  | cons first rest ih =>
    obtain ⟨number, s⟩ := first
    obtain ⟨f, hf, rfl⟩ := exists_first hy
    have hadds := hy.adds hf
    rw [fieldsToWire_cons hf] at he
    rcases List.mem_append.1 he with he | he
    · exact ⟨f, hf, FieldDescriptor.code_of_mem_toWire (hy.stored hf hadds.stored) he⟩
    · exact ih hadds.rest he

/-- The values of a field are no longer than those of all fields. -/
theorem length_toWire_le {fs : List (Nat × Stored)} (hy : d.Takes (.mk d fs [])) {f : FieldDescriptor}
    (hf : f ∈ d.fields) {s : Stored} (hs : (mk d fs []).stored? f = some s) :
    (writeFields (s.toWire f)).length ≤ (writeFields (fieldsToWire d fs)).length := by
  induction fs with
  | nil => cases hs
  | cons first rest ih =>
    obtain ⟨number, t⟩ := first
    obtain ⟨g, hg, rfl⟩ := exists_first hy
    have hadds := hy.adds hg
    rw [fieldsToWire_cons hg, writeFields_append, List.length_append]
    by_cases hnumber : f.number = g.number
    · obtain rfl := MessageDescriptor.eq_of_number hf hg hnumber
      obtain rfl : t = s := Option.some.inj (hadds.stored.symm.trans hs)
      omega
    · rw [hadds.other f hnumber] at hs
      have := ih hadds.rest hs
      omega

/-- A message without what it carries under numbers that are not declared. -/
theorem takes_bare (hy : d.Takes y) : d.Takes (mk d y.fields []) := by
  obtain ⟨hd, ⟨sorted, declared, held, single, -⟩⟩ := hy
  rw [hd] at declared held single
  exact ⟨rfl, .mk sorted declared held single fun _ he => absurd he List.not_mem_nil⟩

/-- The values that a message is written as fit. -/
theorem fieldsFit_toWire (hwritten : ∀ f ∈ d.fields, f.Written) (hy : d.Takes y)
    (hfits : y.UndeclaredFits depth)
    (hlength : (writeFields (fieldsToWire d y.fields)).length < UInt64.size) :
    FieldsFit depth (fieldsToWire d y.fields ++ y.undeclared) := by
  intro e he
  rcases List.mem_append.1 he with he | he
  · obtain ⟨f, hf, hnumber, hcode, -⟩ := code_of_mem_fieldsToWire (takes_bare hy) he
    exact ⟨hnumber ▸ (hwritten f hf).number, fits_of_mem_fields he hcode hlength depth⟩
  · obtain ⟨u, hu, he⟩ := List.mem_flatMap.1 he
    obtain ⟨w, hw, rfl⟩ := List.mem_map.1 he
    exact ⟨(hfits.fits u hu).1, (hfits.fits u hu).2 w hw⟩

/-- Nothing under a number that is not declared is declared. -/
theorem numbered?_of_mem_undeclared (hy : d.Takes y) {e : Nat × WireValue} (he : e ∈ y.undeclared) :
    d.numbered? e.1 = none := by
  obtain ⟨rfl, ⟨-, -, -, -, undeclared⟩⟩ := hy
  obtain ⟨u, hu, he⟩ := List.mem_flatMap.1 he
  obtain ⟨w, -, rfl⟩ := List.mem_map.1 he
  exact undeclared u hu

theorem absorbWith?_eq (x : Message) (bytes : List UInt8) : x.absorbWith? inner depth bytes =
    (readFields? (fun number =>
      match x.descriptor.numbered? number with
      | some f => f.isMap
      | none => false) depth bytes).bind (x.absorbAll? inner depth) := rfl

/-- The values that a message is written as are read back. -/
theorem reads_toWire (hwritten : ∀ f ∈ d.fields, f.Written) (hy : d.Takes y)
    (hfits : y.UndeclaredFits depth) (hlength : y.toWire.length < UInt64.size) :
    d.Reads depth (fieldsToWire d y.fields ++ y.undeclared) where
  fit := by
    rw [toWire_eq, hy.descriptor, writeFields_append, List.length_append] at hlength
    exact fieldsFit_toWire hwritten hy hfits (by omega)
  entries e he g hg hmap := by
    rcases List.mem_append.1 he with he | he
    · obtain ⟨f, hf, hnumber, -, hcode⟩ := code_of_mem_fieldsToWire (takes_bare hy) he
      rw [hnumber, MessageDescriptor.numbered?_number hf] at hg
      cases hg
      exact hcode hmap
    · rw [numbered?_of_mem_undeclared hy he] at hg
      cases hg

theorem absorbWith?_writeFields (hx : d.Takes x) {fields : List (Nat × WireValue)}
    (hfields : d.Reads depth fields) :
    x.absorbWith? inner depth (writeFields fields) = x.absorbAll? inner depth fields := by
  rw [absorbWith?_eq, hx.descriptor, readFields?_writeFields hfields.fit, Option.bind_some]
  intro e he halways
  split at halways
  · exact hfields.entries e he _ ‹_› halways
  · cases halways

/-- **The encoding of a message** is read into another one of its type, if those of the messages inside
are. -/
theorem absorbWith?_toWire
    (hinner : ∀ d m bytes n, MessageDescriptor.Takes d m → inner m bytes = some n → d.Takes n)
    (hwritten : ∀ f ∈ d.fields, f.Written) (hy : d.Takes y) (hfits : y.UndeclaredFits depth)
    (hback : ∀ f ∈ d.fields, ∀ s, y.stored? f = some s → ∀ m, s.Contains m → m.ReadsBack inner)
    (hlength : y.toWire.length < UInt64.size) (hx : d.Takes x) :
    ∃ z, x.absorbWith? inner depth y.toWire = some z ∧ ∀ whole, Onto whole x y z := by
  have hreads := reads_toWire hwritten hy hfits hlength
  rw [toWire_eq, hy.descriptor, writeFields_append, List.length_append] at hlength
  -- what is declared, and then what is not
  obtain ⟨m, hm, honto⟩ : ∃ m, x.absorbAll? inner depth (fieldsToWire d y.fields) = some m ∧
      ∀ whole, Onto whole x (mk d y.fields []) m :=
    absorbAll?_fieldsToWire hinner hwritten (takes_bare hy) hback (by omega) hx
  have hmd := (takes_absorbAll? hinner hx hm).descriptor
  obtain ⟨z, hz, hzd, hzfields, hunder⟩ : ∃ z, m.absorbAll? inner depth y.undeclared = some z ∧ _ :=
    absorbAll?_undeclared fun e he => by rw [hmd, numbered?_of_mem_undeclared hy he]
  refine ⟨z, ?_, fun whole => .of_fields ?_ (fun f hf => ?_) fun hwhole number => ?_⟩
  · rw [toWire_eq, hy.descriptor, absorbWith?_writeFields hx hreads, absorbAll?_append, hm]
    exact hz
  · exact hzd.trans (hmd.trans hy.descriptor.symm)
  · have hsame : z.stored? f = m.stored? f := by
      unfold stored?
      rw [hzfields]
    have hf : f ∈ d.fields := hy.descriptor ▸ hf
    have hfirst : OntoAt whole x y m f := by
      refine .of_same hf ?_ ?_ ((honto whole).at_field hf)
      · exact fun _ _ => rfl
      · exact fun _ => rfl
    obtain ⟨hset, hkept, hfresh, honto⟩ := hfirst
    rw [← has_congr hsame] at hset hkept
    rw [← hsame] at hkept hfresh honto
    exact ⟨hset, hkept, hfresh, honto⟩
  · have hnone : (mk d y.fields []).under number = [] := rfl
    rw [hunder, (honto whole).under hwhole, hnone, List.append_nil, under_eq_valuesOf
      (hfits.sorted.imp Nat.ne_of_lt)]

/-- Two encodings, one behind the other, are read as one after the other. -/
theorem absorbWith?_toWire_append {y' : Message}
    (hinner : ∀ d m bytes n, MessageDescriptor.Takes d m → inner m bytes = some n → d.Takes n)
    (hx : d.Takes x) (hy : d.Takes y) (hreads : d.Reads depth (fieldsToWire d y.fields ++ y.undeclared))
    (hy' : d.Takes y') (hreads' : d.Reads depth (fieldsToWire d y'.fields ++ y'.undeclared)) :
    x.absorbWith? inner depth (y.toWire ++ y'.toWire) =
      (x.absorbWith? inner depth y.toWire).bind fun m => m.absorbWith? inner depth y'.toWire := by
  rw [toWire_eq, toWire_eq, hy.descriptor, hy'.descriptor, ← writeFields_append,
    absorbWith?_writeFields hx (hreads.append hreads'), absorbAll?_append, absorbWith?_writeFields hx hreads]
  refine Option.bind_congr fun m hm => ?_
  rw [absorbWith?_writeFields (takes_absorbAll? hinner hx hm) hreads']

end

end Message

end Protoscript
