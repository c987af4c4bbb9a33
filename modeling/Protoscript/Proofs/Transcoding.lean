import Protoscript.Proofs.Concatenation
import Protoscript.Proofs.Counterparts
import Protoscript.Proofs.Equivalence

/-!
# Messages taken over from another pool

A message of another pool is written to bytes, and these are read as a message of the type of the same
name. What comes out is as the message was, and so is what equals it.

* `Message.Alike.refl`, `Message.Alike.trans` — messages that are the same on the wire;
* `Message.alike_of_equals` — equal messages are, apart from what is unknown;
* `Likeness.alike` — it does not matter which of two such messages is written into a field;
* `Message.Portable.exists_adopt` — a message that was taken over is like every message that it equals;
* `Message.Portable.isReadBack` — its bytes give a message back that equals it.
-/

namespace Protoscript

variable {whole : Prop}

/-! ## Likeness -/

theorem isEmpty_eq_of_length {α β : Type} {xs : List α} {ys : List β} (h : xs.length = ys.length) :
    ys.isEmpty = xs.isEmpty := by
  cases xs <;> cases ys <;> simp_all

theorem Scalar.equals_congr {a b : Scalar} (h : a = b ∨ a.equals b = true) (c : Scalar) :
    a.equals c = b.equals c := by
  rcases h with rfl | h
  · rfl
  · rw [Bool.eq_iff_iff]
    exact ⟨fun hac => Scalar.equals_trans ((Scalar.equals_comm b a).trans h) hac, Scalar.equals_trans h⟩

/-- Values that are alike are defaults of the same fields. -/
theorem Stored.Alike.isDefaultOf_eq {s t : Stored} (h : s.Alike whole t) (f : FieldDescriptor) :
    t.isDefaultOf f = s.isDefaultOf f := by
  cases h with
  | scalar h => simp only [isDefaultOf, Scalar.equals_congr h]
  | message => rfl
  | list hlength => rw [isDefaultOf, isDefaultOf, isEmpty_eq_of_length hlength]
  | map hkeys =>
    rw [isDefaultOf, isDefaultOf, isEmpty_eq_of_length (by simpa using congrArg List.length hkeys)]

mutual

/-- Every message is like itself. -/
theorem Message.Alike.refl (m : Message) : m.Alike whole m := by
  refine .mk rfl (fun _ _ => rfl) (fun f _ _ s t hs ht => ?_) fun _ _ => rfl
  cases hs.symm.trans ht
  have hlt := Message.sizeOf_stored?_lt hs
  exact Stored.Alike.refl s
termination_by sizeOf m

theorem Stored.Alike.refl (s : Stored) : s.Alike whole s := by
  cases s with
  | scalar => exact .scalar (.inl rfl)
  | message m => exact .message (Message.Alike.refl m)
  | list items =>
    refine Stored.alike_list.2 (List.forall₂_same.2 fun s hs => ?_)
    have hlt := List.sizeOf_lt_of_mem hs
    exact Stored.Alike.refl s
  | map entries =>
    refine Stored.alike_map.2 (List.forall₂_same.2 fun e he => ⟨rfl, ?_⟩)
    have hlt : sizeOf e.2 < 1 + sizeOf entries := by simpa using Stored.sizeOf_value_lt he
    exact Stored.Alike.refl e.2
termination_by sizeOf s

end

mutual

theorem Message.Alike.trans {x y z : Message} (hxy : x.Alike whole y) (hyz : y.Alike whole z) :
    x.Alike whole z := by
  obtain ⟨hd, hset, hstored, hunder⟩ := hxy
  have hf' {f : FieldDescriptor} (hf : f ∈ x.descriptor.fields) : f ∈ y.descriptor.fields := hd ▸ hf
  refine .mk ?_ (fun f hf => (hyz.set (hf' hf)).trans (hset f hf)) (fun f hf hxf s u hs hu => ?_)
    fun hwhole number => (hyz.under hwhole number).trans (hunder hwhole number)
  · obtain ⟨hd', -⟩ := hyz
    exact hd'.trans hd
  · have hyf := (hset f hf).trans hxf
    obtain ⟨t, ht⟩ := Option.isSome_iff_exists.1 (Message.isSome_of_has hyf)
    have hlt := Message.sizeOf_stored?_lt hs
    exact (hstored f hf hxf s t hs ht).trans (hyz.stored (hf' hf) hyf ht hu)
termination_by sizeOf x

theorem Stored.Alike.trans {s t u : Stored} (hst : s.Alike whole t) (htu : t.Alike whole u) :
    s.Alike whole u := by
  cases hst with
  | @scalar a b hab =>
    cases htu with
    | @scalar _ c hbc =>
      refine .scalar ?_
      rcases hbc with rfl | hbc
      · exact hab
      · exact .inr ((Scalar.equals_congr hab c).trans hbc)
  | message hxy =>
    cases htu with
    | message hyz => exact .message (hxy.trans hyz)
  | @list xs ys hlength hitems =>
    cases u with
    | list zs =>
      refine Stored.alike_list.2 (forall₂_comp_of_mem (Stored.alike_list.1 (.list hlength hitems))
        (Stored.alike_list.1 htu) fun s hs t _ u hst htu => ?_)
      have hlt := List.sizeOf_lt_of_mem hs
      exact hst.trans htu
    | _ => cases htu
  | @map xs ys hkeys hvalues =>
    cases u with
    | map zs =>
      refine Stored.alike_map.2 (forall₂_comp_of_mem (Stored.alike_map.1 (.map hkeys hvalues))
        (Stored.alike_map.1 htu) fun e he e' _ e'' h h' => ⟨h.1.trans h'.1, ?_⟩)
      have hlt := Stored.sizeOf_value_lt he
      exact h.2.trans h'.2
    | _ => cases htu
termination_by sizeOf s

end

/-! ## Equal messages -/

theorem MapKey.Before.asymm {kind : Kind} {a b : MapKey} (ha : kind.HoldsKey a) (hb : kind.HoldsKey b)
    (hab : a.Before b) : ¬ b.Before a :=
  fun hba => hab.2 (MapKey.le_antisymm (ha.storage hb) hab.1 hba.1)

/-- Ascending keys are given by what keys there are. -/
theorem MapKey.eq_of_subset {kind : Kind} {xs ys : List MapKey} (hxs : xs.Pairwise Before)
    (hys : ys.Pairwise Before) (hkeys : ∀ key ∈ ys, kind.HoldsKey key) (hsub : xs ⊆ ys)
    (hlength : xs.length = ys.length) : xs = ys := by
  have hperm : xs.Perm ys :=
    (List.subperm_of_subset (hxs.imp And.right) hsub).perm_of_length_le (Nat.le_of_eq hlength.symm)
  refine hperm.eq_of_pairwise (fun a b ha hb hab hba => ?_) hxs hys
  exact absurd hba (hab.asymm (hkeys a (hsub ha)) (hkeys b hb))

namespace Stored

variable {s t : Stored} {f : FieldDescriptor}

/-- Equal values are defaults of the same fields. -/
theorem isDefaultOf_of_equals (h : s.equals t = true) (f : FieldDescriptor) :
    s.isDefaultOf f = t.isDefaultOf f := by
  cases s <;> cases t <;> simp only [equals, Bool.false_eq_true, Bool.and_eq_true, beq_iff_eq] at h
  · simp only [isDefaultOf, Scalar.equals_congr (.inr h)]
  · rfl
  · rw [isDefaultOf, isDefaultOf, isEmpty_eq_of_length (listEquals_iff.1 h).length_eq.symm]
  · rw [isDefaultOf, isDefaultOf, isEmpty_eq_of_length h.1.symm]

/-- What has no message in it and equals something has no NaN. -/
theorem nanFree_of_equals (hs : s = .map [] ∨ s = .list [] ∨ ∃ x, s = .scalar x)
    (h : s.equals t = true) : s.NanFree := by
  rcases hs with rfl | rfl | ⟨x, rfl⟩
  · exact .map fun _ he => absurd he List.not_mem_nil
  · exact .list fun _ hs => absurd hs List.not_mem_nil
  · cases t <;> simp only [equals, Bool.false_eq_true] at h
    exact .scalar (Scalar.isNaN_of_equals h)

end Stored

variable {p : Pool}

/-- Whether a field without presence is set can be read off what it reads as, if the default is no NaN. -/
theorem FieldDescriptor.Of.has_eq (hp : p.TracksPresence) {f : FieldDescriptor} (hf : f.Of p)
    (hno : f.hasPresence = false) {m : Message} (hfree : m.stored? f = none → (Stored.defaultOf f).NanFree) :
    m.has f = !(m.get f).isDefaultOf f := by
  rcases hs : m.stored? f with _ | s
  · rw [Message.has_of_none hs, Message.get_of_none hs, hf.isDefaultOf_defaultOf hp hno (hfree hs)]
    rfl
  · rw [Message.has_of_some hs, Message.get_of_stored? rfl hs, hno, Bool.false_or]

theorem Message.AgreeOn.has_eq (hp : p.TracksPresence) {x y : Message} {f : FieldDescriptor} (hf : f.Of p)
    (h : x.AgreeOn y f) : y.has f = x.has f := by
  rcases hpresence : f.hasPresence with _ | _
  · have hequals := h.get (by simp [hpresence])
    have hflat := hf.default_of_no_presence hp hpresence
    have hx : x.stored? f = none → (Stored.defaultOf f).NanFree := fun hnone => by
      rw [Message.get, hnone] at hequals
      exact Stored.nanFree_of_equals hflat hequals
    have hy : y.stored? f = none → (Stored.defaultOf f).NanFree := fun hnone => by
      have hget : y.get f = .defaultOf f := by
        rw [Message.get, hnone]
        rfl
      rw [hget, Stored.equals_flat hflat, Stored.flatEquals_eq hflat] at hequals
      exact Stored.nanFree_of_equals hflat hequals
    rw [hf.has_eq hp hpresence hx, hf.has_eq hp hpresence hy, Stored.isDefaultOf_of_equals hequals]
  · exact (h.has hpresence).symm

mutual

/-- **Equal messages are alike**, apart from what is unknown. -/
theorem Message.alike_of_equals (hp : p.TracksPresence) {d : MessageDescriptor} (hd : d.Among {p})
    {x y : Message} (hx : d.Takes x) (hy : d.Takes y) (h : x.equals y = true) : x.Alike False y := by
  have hagree := ((Message.equals_iff_agreeOn hp hd hx.descriptor).1 h).2
  refine .mk (hy.descriptor.trans hx.descriptor.symm) (fun f hf => ?_) (fun f hf hset s t hs ht => ?_) False.elim
  all_goals
    have hfd : f ∈ d.fields := hx.descriptor ▸ hf
    have hof := FieldDescriptor.of_mem hd hfd
  · exact (hagree f hfd).has_eq hp hof
  · have hlt := Message.sizeOf_stored?_lt hs
    have hequals := (hagree f hfd).get fun _ => hset
    rw [Message.get, Message.get, hs, ht] at hequals
    exact FieldDescriptor.Of.alike_of_equals hp hof (hx.stored hfd hs) (hy.stored hfd ht) hequals
termination_by (sizeOf x, 0)

theorem Kind.Of.alike_of_equals (hp : p.TracksPresence) {kind : Kind} (hk : kind.Of p) {s t : Stored}
    (hs : kind.Holds s) (ht : kind.Holds t) (h : s.equals t = true) : s.Alike False t := by
  cases hs with
  | scalar =>
    cases t <;> simp only [Stored.equals, Bool.false_eq_true] at h
    exact .scalar (.inr h)
  | @message d x hdx hx =>
    cases ht with
    | scalar => simp [Stored.equals] at h
    | @message _ y hdy hy =>
      rw [Stored.equals] at h
      exact .message (Message.alike_of_equals hp (hk d rfl) ⟨hdx, hx⟩ ⟨hdy, hy⟩ h)
termination_by (sizeOf s, 0)

theorem FieldDescriptor.Of.alike_of_equals (hp : p.TracksPresence) {f : FieldDescriptor} (hf : f.Of p)
    {s t : Stored} (hs : f.Holds s) (ht : f.Holds t) (h : s.equals t = true) : s.Alike False t := by
  cases hs with
  | single hmap hlist hs => exact hf.kind.alike_of_equals hp hs (ht.kind hmap hlist) h
  | @list _ xs hlist hxs =>
    obtain ⟨ys, rfl, hys⟩ := ht.items hlist
    rw [Stored.equals, Stored.listEquals_iff] at h
    refine Stored.alike_list.2 (forall₂_of_mem h fun s hs t ht hst => ?_)
    have hlt := List.sizeOf_lt_of_mem hs
    exact hf.kind.alike_of_equals hp (hxs s hs) (hys t ht) hst
  | @map _ xs hmap _ hxs hxsorted =>
    obtain ⟨ys, rfl, hkeys, hys, hysorted⟩ := ht.entries hmap
    simp only [Stored.equals, Bool.and_eq_true, beq_iff_eq, Stored.mapWithin_iff] at h
    obtain ⟨hlength, hwithin⟩ := h
    -- equal maps have the same keys, and both list them in order
    have hsame : xs.map (·.1) = ys.map (·.1) := by
      have hholds : ∀ key ∈ ys.map (·.1), f.keyKind.HoldsKey key := List.forall_mem_map.2 hkeys
      refine MapKey.eq_of_subset hxsorted hysorted hholds (fun key hkey => ?_) (by simpa using hlength)
      obtain ⟨e, he, rfl⟩ := List.mem_map.1 hkey
      obtain ⟨t, ht, -⟩ := hwithin e he
      exact List.mem_map.2 ⟨_, lookupKey_mem ht, rfl⟩
    have hentries : List.Forall₂ (fun e e' : MapKey × Stored => e.1 = e'.1) xs ys := by
      rwa [← List.forall₂_eq_eq_eq, List.forall₂_map_left_iff, List.forall₂_map_right_iff] at hsame
    refine Stored.alike_map.2 (forall₂_of_mem hentries fun e he e' he' hkey => ⟨hkey, ?_⟩)
    obtain ⟨t, ht, het⟩ := hwithin e he
    rw [hkey, lookupKey_of_mem (nodup_of_before hysorted) he'] at ht
    cases ht
    have hlt := Stored.sizeOf_value_lt he
    exact hf.valueKind.alike_of_equals hp (hxs e he) (hys e' he') het
termination_by (sizeOf s, 1)

end

/-! ## Writing one of two values -/

/-- Whether messages are alike as far as one field goes. -/
structure Message.AlikeAt (x y : Message) (f : FieldDescriptor) : Prop where
  set : y.has f = x.has f
  stored (hset : x.has f = true) {s t : Stored} (hs : x.stored? f = some s) (ht : y.stored? f = some t) :
    s.Alike False t

namespace Message

variable {x y x' y' : Message} {f g : FieldDescriptor} {s t : Stored}

theorem AlikeAt.congr (h : x.AlikeAt y g) (hx : x'.stored? g = x.stored? g)
    (hy : y'.stored? g = y.stored? g) : x'.AlikeAt y' g := by
  refine ⟨by rw [has_congr hx, has_congr hy, h.set], fun hset _ _ hs ht => ?_⟩
  rw [has_congr hx] at hset
  exact h.stored hset (hx ▸ hs) (hy ▸ ht)

theorem AlikeAt.of_none (hx : x.stored? g = none) (hy : y.stored? g = none) : x.AlikeAt y g := by
  refine ⟨by simp only [has, hx, hy], fun _ _ _ hs => ?_⟩
  rw [hx] at hs
  cases hs

theorem AlikeAt.of_some (hx : x.stored? g = some s) (hy : y.stored? g = some t) (h : s.Alike False t) :
    x.AlikeAt y g := by
  refine ⟨by simp only [has, hx, hy, h.isDefaultOf_eq], fun _ _ _ hs ht => ?_⟩
  cases hx.symm.trans hs
  cases hy.symm.trans ht
  exact h

namespace Alike

theorem of_alikeAt (hd : y.descriptor = x.descriptor) (h : ∀ f ∈ x.descriptor.fields, x.AlikeAt y f) :
    x.Alike False y :=
  .mk hd (fun f hf => (h f hf).set) (fun f hf hset _ _ => (h f hf).stored hset) False.elim

theorem descriptor_eq (h : x.Alike whole y) : y.descriptor = x.descriptor := by
  obtain ⟨hd, -⟩ := h
  exact hd

theorem alikeAt (h : x.Alike False y) (hf : f ∈ x.descriptor.fields) : x.AlikeAt y f :=
  ⟨h.set hf, fun hset _ _ => h.stored hf hset⟩

theorem clear (h : x.Alike False y) (f : FieldDescriptor) : (x.clear f).Alike False (y.clear f) := by
  refine of_alikeAt h.descriptor_eq fun g hg => ?_
  by_cases hnumber : g.number = f.number
  · exact .of_none (stored?_clear_self x hnumber) (stored?_clear_self y hnumber)
  · exact (h.alikeAt hg).congr (stored?_clear_of_ne x hnumber) (stored?_clear_of_ne y hnumber)

theorem select (h : x.Alike False y) (f : FieldDescriptor) : (x.select f).Alike False (y.select f) := by
  unfold Message.select
  induction f.siblings generalizing x y with
  | nil => exact h
  | cons g rest ih => exact ih (h.clear g)

/-- Values that are alike may be written into messages that are alike. -/
theorem write (h : x.Alike False y) (f : FieldDescriptor) (hst : s.Alike False t) :
    (x.set f s).Alike False (y.set f t) := by
  refine of_alikeAt ?_ fun g hg => ?_
  · rw [descriptor_set, descriptor_set, h.descriptor_eq]
  by_cases hnumber : g.number = f.number
  · exact .of_some (stored?_set_self x hnumber s) (stored?_set_self y hnumber t) hst
  · rw [descriptor_set, ← descriptor_select x f] at hg
    exact ((h.select f).alikeAt hg).congr (stored?_set_of_ne x hnumber s) (stored?_set_of_ne y hnumber t)

end Alike

end Message

/-- It does not matter which of two messages that are alike is written somewhere. -/
def Likeness.alike : Likeness where
  message := Message.Alike False
  stored := Stored.Alike False
  descriptor := Message.Alike.descriptor_eq
  refl := Message.Alike.refl
  scalar _ := .scalar (.inl rfl)
  lift := .message
  list := Stored.alike_list.2
  map := Stored.alike_map.2
  set {_ _ f _ _} hm hs := hm.write f hs

/-! ## Taking a message over -/

variable {q : Pool}

/-- Whether messages of a second pool can be read as ones of a first pool: the second pool declares the
same types, and what it declares, the wire carries. Pools are told apart by their identities. -/
structure Pool.Receives (p q : Pool) : Prop where
  lawful : p.Lawful
  tracksPresence : p.TracksPresence
  writable : p.Writable
  redeclares : p.Redeclares q
  ids (h : q.id = p.id) : q = p

/-- Two pools made from the same files are such, if no list or map belongs to a oneof and the entries of
maps have a key and a value. -/
theorem Pool.receives_ofFiles {i j : Nat} {files : List FileDecl}
    (hp : Pool.ofFiles i files = .ok p) (hq : Pool.ofFiles j files = .ok q) (hlaw : p.Lawful)
    (hentries : ∀ m ∈ p.messages, m.isMapEntry = true →
      1 ∈ m.fields.map (·.number) ∧ 2 ∈ m.fields.map (·.number)) : p.Receives q where
  lawful := hlaw
  tracksPresence := Pool.tracksPresence_ofFiles hp
  writable := Pool.writable_ofFiles hp hentries
  redeclares := Pool.redeclares_ofFiles hp hq
  ids h := by
    rw [Pool.ofFiles_renumbered hp j] at hq
    cases hq
    obtain rfl : j = p.id := h
    rfl

/-- What another pool's message must be like to be taken over whole: it conforms to its type, neither its
messages nor the groups that are unknown to their types nest too deeply, and its bytes can be counted. -/
structure Message.Portable (q : Pool) (m : Message) : Prop where
  among : m.descriptor.Among {q}
  conforms : m.Conforms
  fits : m.FitsWithin wireDepth
  nests : m.NestsWithin wireDepth
  length : m.toWire.length < UInt64.size

/-- **A message that was taken over** from another pool is one of the first pool, and is like every message
there that equals it. -/
theorem Message.Portable.exists_adopt (hpq : p.Receives q) {x y : Message} (hx : x.Portable q)
    {d : MessageDescriptor} (hd : d.Among {p}) (hy : d.Takes y) (hyx : y.equals x = true) :
    ∃ z, x.adopt d = .ok z ∧ d.Takes z ∧ y.Alike False z := by
  obtain ⟨hlaw, htracks, hwritable, hpq, hids⟩ := hpq
  have hname : d.fullName = x.descriptor.fullName := by
    rw [← hy.descriptor]
    exact (Message.equals_iff.1 hyx).1
  by_cases hsame : x.descriptor.same d = true
  · have hqp : q = p := hids (by
      have hpool := (Bool.and_eq_true_iff.1 hsame).1
      rw [hx.among.pool_eq, hd.pool_eq] at hpool
      exact beq_iff_eq.1 hpool)
    subst hqp
    have hxd : d.Takes x := ⟨MessageDescriptor.eq_of_same hx.among hd hsame, hx.conforms⟩
    exact ⟨x, Message.adopt_ok.2 (.inl ⟨hsame, rfl⟩), hxd, Message.alike_of_equals htracks hd hy hxd hyx⟩
  · have hmoved : d.Takes (x.moved p) := by
      have htakes := MessageDescriptor.Takes.moved hpq hx.among ⟨rfl, hx.conforms⟩
      rwa [MessageDescriptor.counterpart_eq hd hname] at htakes
    have hwire : (x.moved p).toWire = x.toWire := hx.conforms.toWire_moved hpq hx.among
    obtain ⟨z, hz, honto⟩ := Message.absorb?_toWire (fun f hf => hf.written hlaw hwritable) hd
      (MessageDescriptor.Takes.empty d) hmoved (hx.fits.moved hpq hx.conforms hx.among)
      (hx.nests.moved hpq hx.conforms hx.among) (hwire ▸ hx.length)
    rw [hwire] at hz
    have hread : Message.ofWire? d x.toWire = some z := hz
    refine ⟨z, Message.adopt_ok.2 (.inr ⟨by simpa using hsame, hread⟩),
      Message.takes_ofWire? hread, ?_⟩
    have hequals : y.equals (x.moved p) = true := (Message.equals_moved y x).trans hyx
    exact (Message.alike_of_equals htracks hd hy hmoved hequals).trans (honto False).alike

/-! ## Taking a message back -/

section

variable (hlaw : p.Lawful) (htracks : p.TracksPresence) (hwritable : p.Writable)

include hlaw htracks hwritable

/-- **Its bytes give a message back**, if there is no NaN in it. -/
theorem Message.Portable.isReadBack {x : Message} (hx : x.Portable p) (hfree : x.NanFree) :
    x.IsReadBack := by
  have htakes : x.descriptor.Takes x := ⟨rfl, hx.conforms⟩
  obtain ⟨z, hz, honto⟩ := absorb?_toWire (fun f hf => hf.written hlaw hwritable) hx.among
    (.empty x.descriptor) htakes hx.fits hx.nests hx.length
  have hread : ofWire? x.descriptor x.toWire = some z := hz
  exact ⟨z, hread, (honto False).alike.equals htracks hx.among htakes (takes_ofWire? hread) hfree⟩

/-- So it is up to the settings alone whether an envelope gives it back. -/
theorem Message.Portable.roundTrips_iff_separates {h : Heap} {library : Library} {r : Ref .message}
    {m : Message} (hpool : library.loader.pool = p) (hh : Heap.Reachable {p} h)
    (hr : h.Has ⟨.message, r⟩) (hm : h.contents r = .ok m) (hx : m.Portable p) (hfree : m.NanFree)
    (hany : p.DeclaresAny) (hname : PlainName m.fullName) :
    h.RoundTrips library r ↔ (h.cell r).config.Separates := by
  subst hpool
  have hwire := hx.isReadBack hlaw htracks hwritable hfree
  exact ⟨fun ht => ht.separates hm hx.among hany hname,
    fun hsep => .of_separates hh hr hm hx.among hany hname hwire hsep⟩

end

end Protoscript
