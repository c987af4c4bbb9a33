import Protoscript.Proofs.Nesting

/-!
# Merging messages and putting encodings behind each other

The wire format has messages merged by putting the encoding of one behind that of the other. Merging
decoded messages gives what is decoded from there, except for what the second message carries under
numbers that are not declared: it is lost wherever a message of the second one is merged into one of the
first, the messages themselves included.

* `Pool.Writable`, `Pool.writable_ofFiles` — whether the wire can carry the fields of a pool;
* `Message.KeepsAll` — whether nothing is lost;
* `Message.absorb?_toWire_append` — encodings behind each other are read one after the other;
* `Message.Alike.merge` — a merged message is the same on the wire as the one that is read on top;
* `Message.KeepsAll.of_alike` — as a whole only if nothing is lost;
* `Heap.Reachable.merge_decoded` — both, for the function of the library.
-/

namespace Protoscript

/-! ## Pools whose fields can be written -/

instance (number : Nat) : Decidable (IsFieldNumber number) :=
  inferInstanceAs (Decidable (0 < number ∧ number < 536870912))

/-- Whether the wire can carry the fields of a pool as the language of schemas has it: their numbers are
ones that fields can have, and the entries of maps have a key and a value. -/
def Pool.Writable (p : Pool) : Prop :=
  ∀ m ∈ p.messages, (∀ f ∈ m.fields, IsFieldNumber f.number) ∧
    (m.isMapEntry = true → 1 ∈ m.fields.map (·.number) ∧ 2 ∈ m.fields.map (·.number))

instance (p : Pool) : Decidable p.Writable :=
  inferInstanceAs (Decidable (∀ m ∈ p.messages, (∀ f ∈ m.fields, IsFieldNumber f.number) ∧
    (m.isMapEntry = true → 1 ∈ m.fields.map (·.number) ∧ 2 ∈ m.fields.map (·.number))))

variable {p : Pool}

/-- In a pool that was made from files, numbers are ones that fields can have. -/
theorem Pool.writable_ofFiles {id : Nat} {files : List FileDecl} (h : Pool.ofFiles id files = .ok p)
    (hentries : ∀ m ∈ p.messages, m.isMapEntry = true →
      1 ∈ m.fields.map (·.number) ∧ 2 ∈ m.fields.map (·.number)) : p.Writable := by
  refine fun m hm => ⟨fun f hf => ?_, hentries m hm⟩
  obtain ⟨hnumber, -⟩ := of_files h m hm f hf
  simp only [isFieldNumber, Bool.and_eq_true, decide_eq_true_eq] at hnumber
  unfold IsFieldNumber
  omega

theorem MessageDescriptor.number_numbered? {d : MessageDescriptor} {number : Nat}
    (h : number ∈ d.info.fields.map (·.number)) : ((d.numbered? number).getD default).number = number := by
  obtain ⟨info, hinfo, hnumber⟩ := List.mem_map.1 h
  rcases hfind : d.info.fields.find? fun f => f.number == number with _ | found
  · simpa [hnumber] using List.find?_eq_none.1 hfind info hinfo
  · unfold numbered?
    rw [hfind]
    exact beq_iff_eq.1 (List.find?_some hfind :)

/-- The wire can carry the fields of such a pool, if no list or map of it belongs to a oneof. -/
theorem FieldDescriptor.Of.written {f : FieldDescriptor} (hf : f.Of p) (hlaw : p.Lawful)
    (hwritable : p.Writable) : f.Written := by
  have hentry (hmap : f.isMap = true) (entry : MessageDescriptor) (hkind : f.kind = .message entry) :
      1 ∈ entry.info.fields.map (·.number) ∧ 2 ∈ entry.info.fields.map (·.number) := by
    refine (hwritable _ (hf.kind entry hkind).info_mem).2 ?_
    unfold isMap at hmap
    rw [hkind, Bool.and_eq_true] at hmap
    exact hmap.2
  refine ⟨?_, fun h => ?_, fun hmap entry hkind => ?_, fun hmap entry hkind => ?_⟩
  · exact (hwritable _ hf.info_mem).1 f.info (MessageDescriptor.mem_fields.1 hf.declared).2
  · exact f.info.repeated_presence (isRepeated_of h) (hf.oneof_eq_none hlaw h)
  · exact MessageDescriptor.number_numbered? (hentry hmap entry hkind).1
  · exact MessageDescriptor.number_numbered? (hentry hmap entry hkind).2

/-! ## One encoding behind the other -/

namespace Message

theorem FitsWithin.undeclaredFits {depth : Nat} {m : Message} (h : m.FitsWithin depth) :
    m.UndeclaredFits depth := by
  cases depth with
  | zero => exact h
  | succ depth => exact h.1

/-- **Encodings behind each other** are read one after the other. -/
theorem absorb?_toWire_append {depth : Nat} {d : MessageDescriptor} {x y y' : Message}
    (hwritten : ∀ f ∈ d.fields, f.Written) (hx : d.Takes x) (hy : d.Takes y) (hy' : d.Takes y')
    (hfits : y.FitsWithin depth) (hfits' : y'.FitsWithin depth) (hlength : y.toWire.length < UInt64.size)
    (hlength' : y'.toWire.length < UInt64.size) :
    absorb? depth x (y.toWire ++ y'.toWire) =
      (absorb? depth x y.toWire).bind fun m => absorb? depth m y'.toWire := by
  have hreads := reads_toWire hwritten hy hfits.undeclaredFits hlength
  have hreads' := reads_toWire hwritten hy' hfits'.undeclaredFits hlength'
  cases depth with
  | zero => exact absorbWith?_toWire_append (fun _ _ _ _ _ hnone => by cases hnone) hx hy hreads hy' hreads'
  | succ depth =>
    exact absorbWith?_toWire_append (fun _ _ _ _ hm h => takes_absorb? hm h) hx hy hreads hy' hreads'

/-! ## Merging -/

/-- Whether merging `src` into `dst` loses nothing that is not declared: `src` carries nothing under such
numbers, and neither does any message of it that is merged into one of `dst`. -/
inductive KeepsAll : Message → Message → Prop
  | mk {dst src : Message} (under : ∀ number, src.under number = [])
    (merged : ∀ f ∈ src.descriptor.fields, ∀ m n, dst.stored? f = some (.message m) →
      src.stored? f = some (.message n) → KeepsAll m n) : KeepsAll dst src

variable {whole : Prop} {x x' : Message} {f : FieldDescriptor}

namespace Alike

theorem set (h : x.Alike whole x') (hf : f ∈ x.descriptor.fields) : x'.has f = x.has f := by
  cases h with
  | mk _ hset => exact hset f hf

theorem stored (h : x.Alike whole x') (hf : f ∈ x.descriptor.fields) (hxf : x.has f = true)
    {s t : Stored} (hs : x.stored? f = some s) (ht : x'.stored? f = some t) : s.Alike whole t := by
  cases h with
  | mk _ _ hstored => exact hstored f hf hxf s t hs ht

theorem under (h : x.Alike whole x') (hwhole : whole) (number : Nat) :
    x'.under number = x.under number := by
  cases h with
  | mk _ _ _ hunder => exact hunder hwhole number

/-- What is set in a message is stored in one that is the same on the wire, and the same. -/
theorem exists_stored (h : x.Alike whole x') (hf : f ∈ x.descriptor.fields) (hxf : x.has f = true)
    {s : Stored} (hs : x.stored? f = some s) : ∃ t, x'.stored? f = some t ∧ s.Alike whole t := by
  obtain ⟨t, ht⟩ := Option.isSome_iff_exists.1 (isSome_of_has ((h.set hf).trans hxf))
  exact ⟨t, ht, h.stored hf hxf hs ht⟩

end Alike

end Message

/-- Merging leaves what is not declared as it is. -/
theorem MessageDescriptor.Takes.under_merge {d : MessageDescriptor} {x y : Message} (hx : d.Takes x)
    (hy : d.Takes y) (number : Nat) : (x.merge y).under number = x.under number := by
  unfold Message.under
  rw [hx.unknown_merge hy]

section

variable {whole : Prop}

/-- What is laid over a value is the same on the wire as what is read on top of it. That this is so for
messages is known by induction. -/
theorem Stored.Onto.over_alike {u u' s t : Stored} (h : Stored.Onto whole u' s t)
    (hu : u.Alike whole u')
    (ih : ∀ x x' y z : Message, u = .message x → s = .message y → x.Alike whole x' →
      Message.Onto whole x' y z → (x.merge y).Alike whole z) : (s.over (some u)).Alike whole t := by
  cases h with
  | scalar =>
    rw [Stored.over_scalar]
    exact .scalar (.inl rfl)
  | message h =>
    cases hu with
    | message hu => exact .message (ih _ _ _ _ rfl rfl hu h)
  | list h =>
    cases hu with
    | list hlength hitems =>
      exact Stored.alike_list.2 (List.rel_append (Stored.alike_list.1 (.list hlength hitems)) h)
  | map h =>
    cases hu with
    | map hkeys hvalues =>
      exact Stored.alike_map.2 (Stored.alike_overlay (Stored.alike_map.1 (.map hkeys hvalues)) h)

/-- **Merging.** A merged message is the same on the wire as the one that is read on top of what is the
same, and as a whole if nothing is lost. The induction is on the message merged in. -/
theorem Message.Alike.merge {d : MessageDescriptor} {x x' y z : Message} (hx : d.Takes x)
    (hy : d.Takes y) (hxx' : x.Alike whole x') (honto : Message.Onto whole x' y z)
    (hkeeps : whole → x.KeepsAll y) : (x.merge y).Alike whole z := by
  have hmerged := hx.merge hy
  have hset : ∀ f ∈ d.fields, z.has f = (x.merge y).has f := by
    intro f hf
    rw [Bool.eq_iff_iff, (honto.at_field (hy.descriptor.symm ▸ hf)).set, hx.has_merge hy hf,
      hxx'.set (hx.descriptor.symm ▸ hf)]
  refine .mk ?_ (fun f hf => hset f (hmerged.descriptor ▸ hf)) (fun f hf hmf s t hs ht => ?_)
    fun hwhole number => ?_
  · rw [honto.descriptor, hy.descriptor, hmerged.descriptor]
  · have hf : f ∈ d.fields := hmerged.descriptor ▸ hf
    have hxfields : f ∈ x.descriptor.fields := hx.descriptor.symm ▸ hf
    have hat := honto.at_field (hy.descriptor.symm ▸ hf)
    have hzf : z.has f = true := (hset f hf).trans hmf
    by_cases hyf : y.has f = true
    · obtain ⟨v, hv⟩ := Option.isSome_iff_exists.1 (isSome_of_has hyf)
      rw [hx.stored?_merge_of_has hy hf hyf, hv, Option.map_some, Option.some.injEq] at hs
      subst hs
      by_cases hxf : x.has f = true
      · obtain ⟨u, hu⟩ := Option.isSome_iff_exists.1 (isSome_of_has hxf)
        obtain ⟨u', hu', huu'⟩ := hxx'.exists_stored hxfields hxf hu
        rw [hu]
        refine (hat.onto ((hxx'.set hxfields).trans hxf) hyf u' v t hu' hv ht).over_alike huu' ?_
        rintro m m' n o rfl rfl hmm' hon
        have hlt := sizeOf_stored?_lt hv
        obtain ⟨e, hkind, hn⟩ := (hy.stored hf hv).messageType
        refine Message.Alike.merge ((hx.stored hf hu).sameType hkind) hn hmm' hon fun hwhole => ?_
        obtain ⟨-, hkept⟩ := hkeeps hwhole
        exact hkept f (hy.descriptor.symm ▸ hf) m n hu hv
      · have hxf : x.has f = false := by simpa using hxf
        rw [MessageDescriptor.Takes.over_of_not_has (hy.stored hf hv) hxf]
        exact hat.fresh ((hxx'.set hxfields).trans hxf) hyf v t hv ht
    · -- what is not set in the message merged in is kept
      obtain ⟨hno, hxf⟩ := ((hx.has_merge hy hf).1 hmf).resolve_left hyf
      have hyf : y.has f = false := by simpa using hyf
      rw [hy.stored?_merge_of_not_displaces hf hyf hno] at hs
      rw [hat.kept hyf hzf] at ht
      exact hxx'.stored hxfields hxf hs ht
  · obtain ⟨hnone, -⟩ := hkeeps hwhole
    rw [honto.under hwhole, hnone, List.append_nil, hxx'.under hwhole, hx.under_merge hy]
termination_by sizeOf y
decreasing_by
  simp only [Stored.message.sizeOf_spec] at hlt
  omega

/-- **A merged message** is the same on the wire as a whole only if nothing is lost. The induction is on
the message merged in. -/
theorem Message.KeepsAll.of_alike {d : MessageDescriptor} {x x' y z : Message} (hx : d.Takes x)
    (hy : d.Takes y) (hxx' : x.Alike True x') (honto : Message.Onto True x' y z)
    (h : (x.merge y).Alike True z) : x.KeepsAll y := by
  refine .mk (fun number => ?_) fun f hf m n hm hn => ?_
  · -- reading keeps the unknown data of both, merging only that of the first
    have hjoined := h.under trivial number
    rw [honto.under trivial, hx.under_merge hy, hxx'.under trivial] at hjoined
    simpa using hjoined
  · have hfd : f ∈ d.fields := hy.descriptor ▸ hf
    have hxfields : f ∈ x.descriptor.fields := hx.descriptor.symm ▸ hfd
    have hxf : x.has f = true := has_of_stored_message hm
    have hyf : y.has f = true := has_of_stored_message hn
    obtain ⟨m', hm', hmm'⟩ := hxx'.exists_stored hxfields hxf hm
    have hmerged : (x.merge y).stored? f = some (.message (m.merge n)) := by
      rw [hx.stored?_merge_of_has hy hfd hyf, hn, hm]
      rfl
    obtain ⟨o, ho, hmo⟩ := h.exists_stored ((hx.merge hy).descriptor.symm ▸ hfd)
      ((hx.has_merge hy hfd).2 (.inl hyf)) hmerged
    have hon := (honto.at_field hf).onto ((hxx'.set hxfields).trans hxf) hyf _ _ _ hm' hn ho
    have hlt := sizeOf_stored?_lt hn
    obtain ⟨e, hkind, hne⟩ := (hy.stored hfd hn).messageType
    cases hmm' with
    | message hmm' =>
      cases hmo with
      | message hmo =>
        cases hon with
        | message hon =>
          exact Message.KeepsAll.of_alike ((hx.stored hfd hm).sameType hkind) hne hmm' hon hmo
termination_by sizeOf y
decreasing_by
  simp only [Stored.message.sizeOf_spec] at hlt
  omega

end

/-- Whether a message was decoded and can be written: there is no NaN in it, messages nest within the
limit, and lengths are 64-bit numbers. -/
structure Message.Decoded (d : MessageDescriptor) (m : Message) : Prop where
  decoded : ∃ bytes, ofWire? d bytes = some m
  nanFree : m.NanFree
  nests : m.NestsWithin wireDepth
  length : m.toWire.length < UInt64.size

theorem Message.Decoded.takes {d : MessageDescriptor} {m : Message} (hm : m.Decoded d) : d.Takes m := by
  obtain ⟨bytes, hbytes⟩ := hm.decoded
  exact takes_ofWire? hbytes

/-- **Merging decoded messages** gives what is decoded from their encodings behind each other, and all of
it if and only if nothing is lost. -/
theorem Message.Decoded.merge {d : MessageDescriptor} {x y : Message} (hlaw : p.Lawful)
    (htracks : p.TracksPresence) (hwritable : p.Writable) (hd : d.Among {p}) (hx : x.Decoded d)
    (hy : y.Decoded d) : ∃ w, ofWire? d (x.toWire ++ y.toWire) = some w ∧ d.Takes w ∧
      (x.merge y).equals w = true ∧ ((x.merge y).Alike True w ↔ x.KeepsAll y) := by
  have hwritten : ∀ f : FieldDescriptor, f.Of p → f.Written := fun f hf => hf.written hlaw hwritable
  have hfits {m : Message} (hm : m.Decoded d) : m.FitsWithin wireDepth := by
    obtain ⟨bytes, hbytes⟩ := hm.decoded
    exact fitsWithin_ofWire? hbytes
  obtain ⟨x', hread, hfirst⟩ := absorb?_toWire hwritten hd (.empty d) hx.takes (hfits hx) hx.nests hx.length
  have hx' : d.Takes x' := takes_absorb? (.empty d) hread
  obtain ⟨w, hread', hsecond⟩ := absorb?_toWire hwritten hd hx' hy.takes (hfits hy) hy.nests hy.length
  have hw : d.Takes w := takes_absorb? hx' hread'
  have hmerge (whole : Prop) (hkeeps : whole → x.KeepsAll y) : (x.merge y).Alike whole w :=
    .merge hx.takes hy.takes (hfirst whole).alike (hsecond whole) hkeeps
  refine ⟨w, ?_, hw, ?_, fun h => .of_alike hx.takes hy.takes (hfirst True).alike (hsecond True) h,
    fun hkeeps => hmerge True fun _ => hkeeps⟩
  · rw [ofWire?, absorb?_toWire_append (fun f hf => hwritten f (FieldDescriptor.of_mem hd hf)) (.empty d)
      hx.takes hy.takes (hfits hx) (hfits hy) hx.length hy.length, hread]
    exact hread'
  · exact (hmerge False False.elim).equals htracks hd (hx.takes.merge hy.takes) hw
      (hx.nanFree.merge htracks hd hx.takes hy.takes hy.nanFree)

/-! ## The function of the library -/

namespace Script

/-- Merges a message into another one, and decodes what is read if the encoding of the one is put behind
that of the other. -/
def mergeAndDecode (library : Library) (fullName : String) (dst src : Value) : Script (Value × Value) := do
  let bytes := (← unwrapMessage dst).toWire ++ (← unwrapMessage src).toWire
  let merged ← callFunction library .merge [dst, src] []
  return (merged, ← decodeMessage library.loader fullName bytes)

variable {h : Heap} {library : Library}

theorem run_unwrapMessage {r : Ref .message} {m : Message} (hm : h.contents r = .ok m) :
    (unwrapMessage (.message r)).run h = (.ok m, h) := by
  simp only [unwrapMessage, contents, run_reading, hm]

/-- Bytes are decoded into a new message. -/
theorem run_decodeMessage {l : Loader} {fullName : String} {d : MessageDescriptor} {bytes : List UInt8}
    {m : Message} (hd : l.pool.message? fullName = some d) (hm : Message.ofWire? d bytes = some m) :
    (decodeMessage l fullName bytes).run h = (.ok (.message (h.fresh .message)),
      h.alloc .message { content := m, config := l.config }) := by
  unfold decodeMessage
  rw [Loader.messageType_eq, hd]
  simp only [run_bind, run_ofExcept, hm]
  rfl

end Script

namespace Heap

variable {h : Heap} {library : Library} {fullName : String} {d : MessageDescriptor}
  {r q : Ref .message} {dst src w : Message}

variable (library) in
/-- What is left in the message merged into, what is in the new one, and whether the two are equal. -/
theorem run_mergeAndDecode (hc : h.Closed) (hd : library.loader.pool.message? fullName = some d)
    (hr : h.Has ⟨.message, r⟩) (hfrozen : (h.cell r).frozen = false) (hdst : h.contents r = .ok dst)
    (hsrc : h.contents q = .ok src) (hx : dst.descriptor = d) (hy : src.descriptor = d)
    (hw : Message.ofWire? d (dst.toWire ++ src.toWire) = some w) :
    ∃ s h', (Script.mergeAndDecode library fullName (.message r) (.message q)).run h =
        (.ok (.message r, .message s), h') ∧
      h'.contents r = .ok (dst.merge src) ∧ h'.contents s = .ok w ∧
      h'.equals (.message r) (.message s) = .ok ((dst.merge src).equals w) := by
  have hname : h.fullName r = h.fullName q := by
    unfold Heap.fullName Message.fullName
    rw [← descriptor_contents hdst, ← descriptor_contents hsrc, hx, hy]
  let mid := h.put r { h.cell r with content := dst.merge src, views := [] }
  have hmid : mid.Closed := hc.put hr fun _ hv => absurd hv List.not_mem_nil
  have hcell : mid.cell r = { h.cell r with content := dst.merge src, views := [] } :=
    cell_put_self h r _ hr
  have hmerged : mid.contents r = .ok (dst.merge src) := by
    rw [contents_of_views_eq_nil (by rw [hcell]), hcell]
  have hrun : (Script.callFunction library .merge [.message r, .message q] []).run h =
      (.ok (.message r), mid) := by
    have hcall : (Script.callFunction library .merge [.message r, .message q] []).run h = _ :=
      Operation.run_merge library r q h
    rw [hcall, Script.run_bind, Script.run_mergeMessage hdst hsrc hfrozen hname]
    rfl
  have hmade := makes_alloc hmid w library.loader.config
  have hkept := (hmade.grows.contents hmid (has_put.2 hr)).trans hmerged
  refine ⟨_, _, ?_, hkept, hmade.contents, ?_⟩
  · simp only [Script.mergeAndDecode, Script.run_bind, Script.run_unwrapMessage hdst,
      Script.run_unwrapMessage hsrc, hrun, Script.run_decodeMessage hd hw, Script.run_pure]
  · have hne : r ≠ mid.fresh .message := fun heq => hmade.new (heq ▸ has_put.2 hr)
    refine equals_messages hne hkept hmade.contents ?_
    rw [(Message.takes_ofWire? hw).descriptor, Message.descriptor_merge, hx]

/-- **Merging is what the wire format says it is.** A decoded message that another one of its type was
merged into equals the message that is decoded from their encodings behind each other. It still carries
what it carried under numbers that are not declared, and the two carry the same there, at every depth, if
and only if the other one carries nothing under such numbers where it is merged in. -/
theorem Reachable.merge_decoded {pools : Set Pool} (hh : Reachable pools h)
    (hlaw : library.loader.pool.Lawful) (htracks : library.loader.pool.TracksPresence)
    (hwritable : library.loader.pool.Writable) (hd : library.loader.pool.message? fullName = some d)
    (hr : h.Has ⟨.message, r⟩) (hfrozen : (h.cell r).frozen = false) (hdst : h.contents r = .ok dst)
    (hsrc : h.contents q = .ok src) (hx : dst.Decoded d) (hy : src.Decoded d) :
    ∃ s h' w, (Script.mergeAndDecode library fullName (.message r) (.message q)).run h =
        (.ok (.message r, .message s), h') ∧
      h'.contents r = .ok (dst.merge src) ∧ h'.contents s = .ok w ∧
      h'.equals (.message r) (.message s) = .ok true ∧
      (∀ number, (dst.merge src).under number = dst.under number) ∧
      ((dst.merge src).Alike True w ↔ dst.KeepsAll src) := by
  have hamong : d.Among {library.loader.pool} := Pool.among_of_message? (Set.mem_singleton _) hd
  obtain ⟨w, hw, -, hequals, hiff⟩ := hx.merge hlaw htracks hwritable hamong hy
  obtain ⟨s, h', hrun, hmerged, hnew, hcompare⟩ := run_mergeAndDecode library hh.closed hd hr hfrozen
    hdst hsrc hx.takes.descriptor hy.takes.descriptor hw
  exact ⟨s, h', w, hrun, hmerged, hnew, hequals ▸ hcompare, hx.takes.under_merge hy.takes, hiff⟩

end Heap

/-! ## Two nodes -/

namespace Sample

/-- A node that carries a number that nodes do not declare. -/
def surplus : Message := .mk node [] [(15, [.varint 1])]

theorem nestsWithin_empty (d : MessageDescriptor) (depth : Nat) : (Message.empty d).NestsWithin depth := by
  cases depth with
  | zero => exact Message.not_encloses_empty d
  | succ depth => exact fun c hc => absurd hc (Message.not_encloses_empty d c)

theorem decoded_empty : (Message.empty node).Decoded node where
  decoded := ⟨[], by cbv⟩
  nanFree := nanFree_node rfl fun _ _ _ hs => by cases hs
  nests := nestsWithin_empty node _
  length := by cbv

theorem decoded_surplus : surplus.Decoded node where
  decoded := ⟨[0x78, 0x01], by cbv⟩
  nanFree := nanFree_node rfl fun _ _ _ hs => by cases hs
  nests := by
    rintro c ⟨f, -, s, hs, -⟩
    cases hs
  length := by cbv

theorem decoded_tree : tree.Decoded node where
  decoded := ⟨[0x12, 0x00], by cbv⟩
  nanFree := nanFree_tree
  nests := by
    rintro c ⟨f, -, s, hs, hc⟩
    obtain rfl := eq_of_stored?_single hs
    cases hc
    exact nestsWithin_empty node _
  length := by cbv

theorem pool_node : pool.message? "Node" = some node := by cbv

/-- A node with a right side is merged into one that carries a number more, which is kept. -/
theorem surplus_merge_decoded :
    Heap.Reachable {pool} (handed surplus tree tree) ∧ pool.Lawful ∧ pool.TracksPresence ∧
      pool.Writable ∧ pool.message? "Node" = some node ∧ (handed surplus tree tree).Has ⟨.message, root⟩ ∧
      ((handed surplus tree tree).cell root).frozen = false ∧
      (handed surplus tree tree).contents root = .ok surplus ∧
      (handed surplus tree tree).contents right = .ok tree ∧ surplus.Decoded node ∧ tree.Decoded node ∧
      ∃ s h' w, (Script.mergeAndDecode ⟨0, ⟨pool, {}⟩⟩ "Node" (.message root) (.message right)).run
            (handed surplus tree tree) = (.ok (.message root, .message s), h') ∧
        h'.contents root = .ok (surplus.merge tree) ∧ h'.contents s = .ok w ∧
        h'.equals (.message root) (.message s) = .ok true ∧
        (∀ number, (surplus.merge tree).under number = surplus.under number) ∧
        ((surplus.merge tree).Alike True w ↔ surplus.KeepsAll tree) := by
  have hreachable : Heap.Reachable {pool} (handed surplus tree tree) :=
    reachable_handed ⟨Set.mem_singleton _, by decide⟩ decoded_surplus.takes takes_tree takes_tree
  have hlaw : pool.Lawful := by decide
  have htracks : pool.TracksPresence := by decide
  have hwritable : pool.Writable := by decide
  have hfirst : (handed surplus tree tree).Carries node root surplus :=
    carries_first rfl decoded_surplus.nanFree
  have hsecond : (handed surplus tree tree).Carries node right tree := carries_second rfl nanFree_tree
  exact ⟨hreachable, hlaw, htracks, hwritable, pool_node, hfirst.has, rfl, hfirst.contents,
    hsecond.contents, decoded_surplus, decoded_tree,
    hreachable.merge_decoded hlaw htracks hwritable pool_node hfirst.has rfl
      hfirst.contents hsecond.contents decoded_surplus decoded_tree⟩

/-- **What a message carries under a number that is not declared** is lost when it is merged into one that
carries nothing: it is in what is decoded from the encodings behind each other, but not in the encoding
of the message merged into. -/
theorem surplus_lost :
    Heap.Reachable {pool} (handed (.empty node) surplus tree) ∧ (Message.empty node).Decoded node ∧
      surplus.Decoded node ∧ (handed (.empty node) surplus tree).contents root = .ok (.empty node) ∧
      (handed (.empty node) surplus tree).contents right = .ok surplus ∧
      ∃ s h' merged, (Script.mergeAndDecode ⟨0, ⟨pool, {}⟩⟩ "Node" (.message root) (.message right)).run
            (handed (.empty node) surplus tree) = (.ok (.message root, .message s), h') ∧
        h'.contents root = .ok merged ∧ h'.contents s = .ok surplus ∧ merged.toWire = [] ∧
        surplus.toWire = [0x78, 0x01] := by
  have hreachable : Heap.Reachable {pool} (handed (.empty node) surplus tree) :=
    reachable_handed ⟨Set.mem_singleton _, by decide⟩ (.empty node) decoded_surplus.takes takes_tree
  have hfirst : (handed (.empty node) surplus tree).Carries node root (.empty node) :=
    carries_first rfl decoded_empty.nanFree
  have hsecond : (handed (.empty node) surplus tree).Carries node right surplus :=
    carries_second rfl decoded_surplus.nanFree
  have hjoined : Message.ofWire? node ((Message.empty node).toWire ++ surplus.toWire) = some surplus := by
    cbv
  obtain ⟨s, h', hrun, hmerged, hnew, -⟩ := Heap.run_mergeAndDecode ⟨0, ⟨pool, {}⟩⟩ hreachable.closed
    pool_node hfirst.has rfl hfirst.contents hsecond.contents rfl rfl hjoined
  refine ⟨hreachable, decoded_empty, decoded_surplus, hfirst.contents, hsecond.contents, s, h', _, hrun,
    hmerged, hnew, ?_, by cbv⟩
  have hnothing : (Message.empty node).merge surplus = .empty node := (Message.merge_eq _ _).trans rfl
  rw [hnothing]
  cbv

end Sample

end Protoscript
