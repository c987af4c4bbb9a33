import Protoscript.Proofs.Fields
import Protoscript.Proofs.Lasting

/-!
# What messages hold, on two heaps

The contents of a message are computed from the cells that its views lead to. Two heaps on which
these cells are alike give contents that are alike, in whatever sense stored data can be compared:
as equal, or as equal up to the bits of numbers that are no numbers.

* `Except.Alike` — results that both succeed and are related, or fail with one error;
* `Likeness` — a comparison of messages and stored values that writing fields respects;
* `Heap.Matches` — two heaps that are alike on a set of places;
* `Heap.Matches.contents` — the contents of the messages there are alike.
-/

namespace Protoscript

/-! ## Results -/

/-- Whether two results are related successes or the same failure. -/
inductive Except.Alike {ε α β : Type} (R : α → β → Prop) : Except ε α → Except ε β → Prop
  | ok {a : α} {b : β} (h : R a b) : Alike R (.ok a) (.ok b)
  | error (e : ε) : Alike R (.error e) (.error e)

namespace Except.Alike

variable {ε α β γ δ : Type} {R : α → β → Prop} {T : γ → δ → Prop}

theorem of_eq {x y : Except ε α} (hR : ∀ a, x = .ok a → R' a a) (h : x = y) : Alike R' x y := by
  subst h
  cases x with
  | ok a => exact .ok (hR a rfl)
  | error e => exact .error e

/-- Results that are alike as equal ones are equal. -/
theorem eq {x y : Except ε α} (h : Alike Eq x y) : y = x := by
  cases h with
  | ok h => rw [h]
  | error e => rfl

theorem mono {R' : α → β → Prop} {x : Except ε α} {y : Except ε β} (h : Alike R x y)
    (hR : ∀ a b, x = .ok a → y = .ok b → R a b → R' a b) : Alike R' x y := by
  cases h with
  | ok h => exact .ok (hR _ _ rfl rfl h)
  | error e => exact .error e

theorem trans {R : α → α → Prop} (hR : ∀ {a b c}, R a b → R b c → R a c) {x y z : Except ε α}
    (h : Alike R x y) (h' : Alike R y z) : Alike R x z := by
  cases h with
  | ok hab =>
    cases h' with
    | ok hbc => exact .ok (hR hab hbc)
  | error e => exact h'

theorem map {x : Except ε α} {y : Except ε β} {f : α → γ} {g : β → δ} (h : Alike R x y)
    (hfg : ∀ a b, R a b → T (f a) (g b)) : Alike T (x.map f) (y.map g) := by
  cases h with
  | ok h => exact .ok (hfg _ _ h)
  | error e => exact .error e

theorem bind {x : Except ε α} {y : Except ε β} {f : α → Except ε γ} {g : β → Except ε δ}
    (h : Alike R x y) (hfg : ∀ a b, R a b → Alike T (f a) (g b)) : Alike T (x >>= f) (y >>= g) := by
  cases h with
  | ok h => exact hfg _ _ h
  | error e => exact .error e

/-- Results for all elements of a list. -/
theorem mapM {ι : Type} {xs : List ι} {f : ι → Except ε α} {g : ι → Except ε β}
    (h : ∀ x ∈ xs, Alike R (f x) (g x)) : Alike (List.Forall₂ R) (xs.mapM f) (xs.mapM g) := by
  induction xs with
  | nil => exact .ok .nil
  | cons x rest ih =>
    rw [List.mapM_cons, List.mapM_cons]
    refine bind (h x List.mem_cons_self) fun a b hab => ?_
    refine bind (ih fun y hy => h y (List.mem_cons_of_mem _ hy)) fun as bs habs => ?_
    exact .ok (.cons hab habs)

end Except.Alike

/-! ## Stored data -/

/-- A comparison of messages and stored values that goes through the parts of stored values, and that
writing a field keeps. -/
structure Likeness where
  /-- messages that are alike -/
  message : Message → Message → Prop
  /-- stored values that are alike -/
  stored : Stored → Stored → Prop
  descriptor {m n : Message} (h : message m n) : n.descriptor = m.descriptor
  refl (m : Message) : message m m
  scalar (s : Scalar) : stored (.scalar s) (.scalar s)
  lift {m n : Message} (h : message m n) : stored (.message m) (.message n)
  list {xs ys : List Stored} (h : List.Forall₂ stored xs ys) : stored (.list xs) (.list ys)
  map {es fs : List (MapKey × Stored)}
    (h : List.Forall₂ (fun e f => e.1 = f.1 ∧ stored e.2 f.2) es fs) : stored (.map es) (.map fs)
  set {m n : Message} {f : FieldDescriptor} {s t : Stored} (hm : message m n) (hs : stored s t) :
    message (m.set f s) (n.set f t)

/-- Equality. -/
def Likeness.eq : Likeness where
  message := Eq
  stored := Eq
  descriptor h := by rw [h]
  refl _ := rfl
  scalar _ := rfl
  lift h := by rw [h]
  list h := by rw [List.forall₂_eq_eq_eq] at h; rw [h]
  map h := by
    have hfg : (fun e f : MapKey × Stored => e.1 = f.1 ∧ e.2 = f.2) = Eq := by
      funext e f
      rw [Prod.ext_iff]
    rw [hfg, List.forall₂_eq_eq_eq] at h
    rw [h]
  set hm hs := by rw [hm, hs]

variable (L : Likeness)

/-- Putting alike entries into alike maps. -/
theorem Likeness.insertKey {key : MapKey} {s t : Stored} {es fs : List (MapKey × Stored)}
    (hst : L.stored s t) (h : List.Forall₂ (fun e f => e.1 = f.1 ∧ L.stored e.2 f.2) es fs) :
    List.Forall₂ (fun e f => e.1 = f.1 ∧ L.stored e.2 f.2) (insertKey key s es)
      (insertKey key t fs) := by
  induction h with
  | nil => exact .cons ⟨rfl, hst⟩ .nil
  | @cons e f es fs hef hrest ih =>
    unfold Protoscript.insertKey
    rw [← hef.1]
    split
    · exact .cons ⟨rfl, hst⟩ hrest
    · split
      · exact .cons hef ih
      · exact .cons ⟨rfl, hst⟩ (.cons hef hrest)

theorem Likeness.mapOfEntries {es fs : List (MapKey × Stored)}
    (h : List.Forall₂ (fun e f => e.1 = f.1 ∧ L.stored e.2 f.2) es fs) :
    List.Forall₂ (fun e f => e.1 = f.1 ∧ L.stored e.2 f.2) (mapOfEntries es) (mapOfEntries fs) := by
  have step {as bs : List (MapKey × Stored)}
      (hab : List.Forall₂ (fun e f => e.1 = f.1 ∧ L.stored e.2 f.2) as bs) :
      List.Forall₂ (fun e f => e.1 = f.1 ∧ L.stored e.2 f.2)
        (es.foldl (fun m e => Protoscript.insertKey e.1 e.2 m) as)
        (fs.foldl (fun m e => Protoscript.insertKey e.1 e.2 m) bs) := by
    induction h generalizing as bs with
    | nil => exact hab
    | @cons e f _ _ hef _ ih =>
      refine ih ?_
      change List.Forall₂ _ (Protoscript.insertKey e.1 e.2 as) (Protoscript.insertKey f.1 f.2 bs)
      rw [← hef.1]
      exact L.insertKey hef.2 hab
  exact step .nil

/-! ## Values -/

section

variable {h h' : Heap} {flush flush' : Ref .message → Except Error Message} {L}

/-- What a value is stored as, when what the message is flushed to is alike. -/
theorem Kind.toStored_alike {kind : Kind} {v : Value} {config : Config}
    (hv : ∀ q, v = .message q → h'.fullName q = h.fullName q ∧ ∀ d, kind = .message d →
      Except.Alike L.message (flush q >>= (·.adopt d)) (flush' q >>= (·.adopt d))) :
    Except.Alike L.stored (kind.toStored h flush v config) (kind.toStored h' flush' v config) := by
  cases kind with
  | message d =>
    refine .map (R := L.message) ?_ fun _ _ hm => L.lift hm
    unfold MessageDescriptor.toStored
    split
    · rename_i q
      obtain ⟨hname, hflush⟩ := hv q rfl
      rw [hname]
      split
      · exact .error _
      · have hflush := hflush d rfl
        cases hq : flush q <;> cases hq' : flush' q <;> rw [hq, hq'] at hflush <;> exact hflush
    · split
      · exact .of_eq (fun m _ => L.refl m) rfl
      · exact .error _
  | scalar t => exact .map (.of_eq (fun s _ => rfl) rfl) fun s t hst => hst ▸ L.scalar s
  | enum d => exact .map (.of_eq (fun s _ => rfl) rfl) fun s t hst => hst ▸ L.scalar s

/-- What a value is as a key does not depend on messages. -/
theorem Kind.toMapKey_alike {kind : Kind} {v : Value} {config : Config}
    (hv : Except.Alike L.stored (kind.toStored h flush v config)
      (kind.toStored h' flush' v config)) :
    Except.Alike Eq (kind.toMapKey h flush v config) (kind.toMapKey h' flush' v config) := by
  unfold Kind.toMapKey
  cases kind with
  | scalar t => exact .of_eq (fun _ _ => rfl) rfl
  | enum d => exact .of_eq (fun _ _ => rfl) rfl
  | message d =>
    -- a message is no key
    have never {g : Heap} {fl : Ref .message → Except Error Message} {s : Stored}
        (hs : (Kind.message d).toStored g fl v config = .ok s) : ∃ m, s = .message m := by
      obtain ⟨m, -, rfl⟩ := Except.map_ok.1 hs
      exact ⟨m, rfl⟩
    rcases hs : (Kind.message d).toStored h flush v config with e | s <;>
      rcases ht : (Kind.message d).toStored h' flush' v config with e' | t <;> rw [hs, ht] at hv
    · cases hv
      exact .error _
    · cases hv
    · cases hv
    · obtain ⟨m, rfl⟩ := never hs
      obtain ⟨n, rfl⟩ := never ht
      exact .error _

theorem RepeatedCell.toStored_alike {c : RepeatedCell}
    (hitems : ∀ v ∈ c.items, Except.Alike L.stored (c.kind.toStored h flush v c.config)
      (c.kind.toStored h' flush' v c.config)) :
    Except.Alike L.stored (c.toStored h flush) (c.toStored h' flush') :=
  .map (.mapM hitems) fun _ _ hs => L.list hs

theorem MapCell.toStored_alike {c : MapCell}
    (hkeys : ∀ e ∈ c.entries, Except.Alike L.stored (c.field.keyKind.toStored h flush e.1 c.config)
      (c.field.keyKind.toStored h' flush' e.1 c.config))
    (hvalues : ∀ e ∈ c.entries, Except.Alike L.stored
      (c.field.valueKind.toStored h flush e.2 c.config)
      (c.field.valueKind.toStored h' flush' e.2 c.config)) :
    Except.Alike L.stored (c.toStored h flush) (c.toStored h' flush') := by
  refine Except.Alike.bind (.mapM (R := fun e f => e.1 = f.1 ∧ L.stored e.2 f.2) fun e he => ?_)
    fun es fs hef => .ok (L.map (L.mapOfEntries hef))
  refine .bind (Kind.toMapKey_alike (hkeys e he)) fun key _ hkey => ?_
  subst hkey
  exact .bind (hvalues e he) fun _ _ hs => .ok ⟨rfl, hs⟩

end

/-! ## Heaps -/

namespace Heap

/-- Whether a message is a message of a type where a view has it: among the items of a list, or
among the keys and values of a map. -/
inductive Lists (h : Heap) (S : Set Place) (q : Ref .message) (d : MessageDescriptor) : Prop
  | repeated {r : Ref .repeated} (hr : ⟨.repeated, r⟩ ∈ S) (hq : .message q ∈ (h.cell r).items)
    (hd : (h.cell r).kind = .message d)
  | key {r : Ref .map} {e : Value × Value} (hr : ⟨.map, r⟩ ∈ S) (he : e ∈ (h.cell r).entries)
    (hq : e.1 = .message q) (hd : (h.cell r).field.keyKind = .message d)
  | value {r : Ref .map} {e : Value × Value} (hr : ⟨.map, r⟩ ∈ S) (he : e ∈ (h.cell r).entries)
    (hq : e.2 = .message q) (hd : (h.cell r).field.valueKind = .message d)

/-- Whether a value leads into a set of places, if anywhere, or else to a message made before number
`n`, which the contents of later messages do not follow. -/
def Follows (n : Nat) (S : Set Place) (h : Heap) (v : Value) : Prop :=
  ∀ q, v.ref? = some q → h.Has q ∧ (q ∈ S ∨ ∃ m : Ref .message, q = ⟨.message, m⟩ ∧ m.index < n)

/-- Whether two heaps are alike on a set of places: views are the same but for being frozen, and
messages store what is alike and have the same views, unless their contents are known to be alike. The
set is closed. -/
structure Matches (L : Likeness) (n : Nat) (S : Set Place) (h h' : Heap) : Prop where
  has {p : Place} (hp : p ∈ S) : h.Has p ∧ h'.Has p
  name {q : Ref .message} (hq : h.Has ⟨.message, q⟩) : h'.fullName q = h.fullName q
  message {q : Ref .message} (hq : ⟨.message, q⟩ ∈ S) :
    L.message (h.cell q).content (h'.cell q).content ∧ (h'.cell q).views = (h.cell q).views ∨
      Except.Alike L.message (h.contents q) (h'.contents q)
  repeated {q : Ref .repeated} (hq : ⟨.repeated, q⟩ ∈ S) : (h'.cell q).freeze = (h.cell q).freeze
  map {q : Ref .map} (hq : ⟨.map, q⟩ ∈ S) : (h'.cell q).freeze = (h.cell q).freeze
  closed {p : Place} {v : Value} (hp : p ∈ S) (hv : v ∈ (h.cell p.2).values) : Follows n S h v
  adopt {q : Ref .message} {d : MessageDescriptor} (hq : h.Lists S q d) {m m' : Message}
    (hm : L.message m m') (hok : h.contents q = .ok m) :
    Except.Alike L.message (m.adopt d) (m'.adopt d)

variable {n : Nat} {S : Set Place} {h h' : Heap} {L}

/-- Two ways of flushing messages, on heaps that are alike: what a message is flushed to is alike,
and its contents if anything. -/
def Flushes (L : Likeness) (n : Nat) (S : Set Place) (h : Heap)
    (flush flush' : Ref .message → Except Error Message) : Prop :=
  ∀ q : Ref .message, h.Has ⟨.message, q⟩ → (⟨.message, q⟩ ∈ S ∨ q.index < n) →
    Except.Alike L.message (flush q) (flush' q) ∧ ∀ m, flush q = .ok m → h.contents q = .ok m

section

variable (hS : Matches L n S h h') {flush flush' : Ref .message → Except Error Message}
  (hflush : Flushes L n S h flush flush')

include hS hflush

theorem Matches.toStored {v : Value} {kind : Kind} {config : Config} (hv : Follows n S h v)
    (hlists : ∀ q d, v = .message q → kind = .message d → h.Lists S q d) :
    Except.Alike L.stored (kind.toStored h flush v config) (kind.toStored h' flush' v config) := by
  refine Kind.toStored_alike fun q hq => ?_
  obtain ⟨hhas, hin⟩ := hv ⟨.message, q⟩ (by rw [hq]; rfl)
  obtain ⟨halike, hok⟩ := hflush q hhas (hin.imp_right fun ⟨m, he, hm⟩ => by cases he; exact hm)
  refine ⟨hS.name hhas, fun d hd => ?_⟩
  refine .bind (halike.mono fun m m' hm _ hR => And.intro hR (hok m hm)) fun m m' hm => ?_
  exact hS.adopt (hlists q d hq hd) hm.1 hm.2

theorem Matches.repeatedToStored {q : Ref .repeated} (hq : ⟨.repeated, q⟩ ∈ S) :
    Except.Alike L.stored ((h.cell q).toStored h flush) ((h'.cell q).toStored h' flush') := by
  have hsame : (h'.cell q).toStored h' flush' = (h.cell q).toStored h' flush' :=
    (congrArg (RepeatedCell.toStored h' flush') (hS.repeated hq) :)
  rw [hsame]
  exact RepeatedCell.toStored_alike fun v hv =>
    hS.toStored hflush (hS.closed hq hv) fun m d hm hd => .repeated hq (hm ▸ hv) hd

theorem Matches.mapToStored {q : Ref .map} (hq : ⟨.map, q⟩ ∈ S) :
    Except.Alike L.stored ((h.cell q).toStored h flush) ((h'.cell q).toStored h' flush') := by
  have hsame : (h'.cell q).toStored h' flush' = (h.cell q).toStored h' flush' :=
    (congrArg (MapCell.toStored h' flush') (hS.map hq) :)
  rw [hsame]
  have part {e : Value × Value} (he : e ∈ (h.cell q).entries) {v : Value} (hv : v ∈ [e.1, e.2]) :
      v ∈ Cell.values (h.cell q) := List.mem_flatMap.2 ⟨e, he, hv⟩
  refine MapCell.toStored_alike (fun e he => ?_) fun e he => ?_
  · exact hS.toStored hflush (hS.closed hq (part he (.head _))) fun m d hm hd => .key hq he hm hd
  · exact hS.toStored hflush (hS.closed hq (part he (.tail _ (.head _))))
      fun m d hm hd => .value hq he hm hd

/-- What a view would store is alike. -/
theorem Matches.viewContents {v : Value} (hv : Follows n S h v) :
    Except.Alike (Option.Rel L.stored) (h.viewContents flush v) (h'.viewContents flush' v) := by
  unfold Heap.viewContents
  have held {q : Place} (hq : v.ref? = some q) (hne : q.1 ≠ .message) : q ∈ S := by
    obtain ⟨-, hin | ⟨m, rfl, -⟩⟩ := hv q hq
    · exact hin
    · exact absurd rfl hne
  split
  · rename_i q
    obtain ⟨hhas, hin⟩ := hv ⟨.message, q⟩ rfl
    refine .map (hflush q hhas (hin.imp_right fun ⟨m, he, hm⟩ => by cases he; exact hm)).1
      fun _ _ hm => .some (L.lift hm)
  · rename_i q
    exact .map (hS.repeatedToStored hflush (held (q := ⟨.repeated, q⟩) rfl nofun)) fun _ _ hs => .some hs
  · rename_i q
    exact .map (hS.mapToStored hflush (held (q := ⟨.map, q⟩) rfl nofun)) fun _ _ hs => .some hs
  · exact .ok .none

end

/-- How far the contents of a message follow its views: to later messages. -/
def follow (h : Heap) (r : Ref .message) (child : Ref .message) : Except Error Message :=
  if r.index < child.index ∧ r.index < h.messages.size then h.contents child else .error .cyclic

/-- What a view of a message writes back: its field, and what it would store. -/
def write (h : Heap) (r : Ref .message) (view : String × Value) :
    Except Error (Option (FieldDescriptor × Stored)) :=
  match (h.cell r).content.descriptor.field? view.1 with
  | none => .ok none
  | some f => (h.viewContents (h.follow r) view.2).map (·.map (f, ·))

theorem follow_of_lt {h : Heap} {r q : Ref .message} (hr : h.Has ⟨.message, r⟩)
    (hlt : r.index < q.index) : h.follow r q = h.contents q := if_pos ⟨hlt, hr⟩

theorem follow_ok {h : Heap} {r q : Ref .message} {m : Message} : h.follow r q = .ok m ↔
    (r.index < q.index ∧ h.Has ⟨.message, r⟩) ∧ h.contents q = .ok m := by
  unfold follow
  split
  · exact ⟨fun hm => ⟨‹_›, hm⟩, fun hm => hm.2⟩
  · exact ⟨nofun, fun hm => absurd hm.1 ‹_›⟩

theorem write_of_field {h : Heap} {r : Ref .message} {view : String × Value} {f : FieldDescriptor}
    (hf : (h.cell r).content.descriptor.field? view.1 = some f) :
    h.write r view = (h.viewContents (h.follow r) view.2).map (·.map (f, ·)) := by
  unfold write
  rw [hf]

end Heap

/-- A message after some writes. -/
def Message.writeAll (m : Message) (writes : List (Option (FieldDescriptor × Stored))) : Message :=
  writes.foldl (fun m w => w.elim m fun w => m.set w.1 w.2) m

/-- The last write is made to what the writes before have left. -/
theorem Message.writeAll_concat (m : Message) (ws : List (Option (FieldDescriptor × Stored)))
    (w : Option (FieldDescriptor × Stored)) :
    m.writeAll (ws ++ [w]) = w.elim (m.writeAll ws) fun w => (m.writeAll ws).set w.1 w.2 :=
  List.foldl_append

/-- Alike writes into alike messages. -/
theorem Likeness.writeAll {m n : Message} {ws vs : List (Option (FieldDescriptor × Stored))}
    (hmn : L.message m n)
    (h : List.Forall₂ (Option.Rel fun a b => a.1 = b.1 ∧ L.stored a.2 b.2) ws vs) :
    L.message (m.writeAll ws) (n.writeAll vs) := by
  induction h generalizing m n with
  | nil => exact hmn
  | cons hwv _ ih =>
    refine ih ?_
    cases hwv with
    | none => exact hmn
    | @some a b hab =>
      change L.message (m.set a.1 a.2) (n.set b.1 b.2)
      rw [← hab.1]
      exact L.set hmn hab.2

theorem Message.descriptor_writeAll (m : Message) (ws : List (Option (FieldDescriptor × Stored))) :
    (m.writeAll ws).descriptor = m.descriptor := by
  induction ws generalizing m with
  | nil => rfl
  | cons w rest ih =>
    refine (ih _).trans ?_
    cases w with
    | none => rfl
    | some w => exact descriptor_set m w.1 w.2

namespace Heap

variable {n : Nat} {S : Set Place} {h h' : Heap} {L}

/-- A view writes to its field only. -/
theorem field_of_write {r : Ref .message} {view : String × Value} {f : FieldDescriptor} {s : Stored}
    (hw : h.write r view = .ok (some (f, s))) :
    (h.cell r).content.descriptor.field? view.1 = some f := by
  unfold write at hw
  split at hw
  · cases hw
  · rename_i g hg
    obtain ⟨t, -, ht⟩ := Except.map_ok.1 hw
    cases t with
    | none => cases ht
    | some t =>
      cases ht
      exact hg

/-- A message after what one of the views of a cell writes to it. -/
def writeOnto (h : Heap) (r : Ref .message) (m : Message) (view : String × Value) :
    Except Error Message := do
  match m.descriptor.field? view.1 with
  | none => return m
  | some f =>
    match ← h.viewContents (h.follow r) view.2 with
    | some value => return m.set f value
    | none => return m

theorem foldlM_writeOnto {r : Ref .message} (views : List (String × Value)) (m : Message)
    (hm : m.descriptor = (h.cell r).content.descriptor) :
    views.foldlM (h.writeOnto r) m = (views.mapM (h.write r)).map m.writeAll := by
  induction views generalizing m with
  | nil => rfl
  | cons view rest ih =>
    rw [List.foldlM_cons, List.mapM_cons, write, writeOnto, hm]
    split
    · refine (ih m hm).trans ?_
      rcases rest.mapM (h.write r) with e | ws <;> rfl
    · rename_i f _
      rcases h.viewContents (h.follow r) view.2 with e | s
      · rfl
      · cases s with
        | none =>
          refine (ih m hm).trans ?_
          rcases rest.mapM (h.write r) with e | ws <;> rfl
        | some s =>
          refine (ih (m.set f s) ((Message.descriptor_set m f s).trans hm)).trans ?_
          rcases rest.mapM (h.write r) with e | ws <;> rfl

/-- **The contents of a message** are what it stores after what its views write back. -/
theorem contents_eq (h : Heap) (r : Ref .message) :
    h.contents r = ((h.cell r).views.mapM (h.write r)).map (h.cell r).content.writeAll := by
  rw [Heap.contents]
  exact foldlM_writeOnto _ _ rfl

/-- What messages are flushed to from a message, if the contents of later messages are alike. -/
theorem follow_of {r : Ref .message} (hr : h.Has ⟨.message, r⟩) (hr' : h'.Has ⟨.message, r⟩)
    (hn : n ≤ r.index + 1) (hlater : ∀ q : Ref .message, ⟨.message, q⟩ ∈ S → r.index < q.index →
      Except.Alike L.message (h.contents q) (h'.contents q)) :
    Flushes L n S h (h.follow r) (h'.follow r) := by
  intro q hq hin
  by_cases hlt : r.index < q.index
  · rw [follow_of_lt hr hlt, follow_of_lt hr' hlt]
    exact ⟨hlater q (hin.resolve_right (by omega)) hlt, fun _ hm => hm⟩
  · unfold Heap.follow
    rw [if_neg fun hc => hlt hc.1, if_neg fun hc => hlt hc.1]
    exact ⟨.error _, nofun⟩

/-- What views write back is alike. -/
theorem Matches.write (hS : Matches L n S h h') {r : Ref .message} {view : String × Value}
    (hflush : Flushes L n S h (h.follow r) (h'.follow r)) (hview : Follows n S h view.2)
    (hd : (h'.cell r).content.descriptor = (h.cell r).content.descriptor) :
    Except.Alike (Option.Rel fun a b => a.1 = b.1 ∧ L.stored a.2 b.2) (h.write r view)
      (h'.write r view) := by
  unfold Heap.write
  rw [hd]
  split
  · exact .ok .none
  · refine .map (hS.viewContents hflush hview) fun s t hst => ?_
    cases hst with
    | none => exact .none
    | some hst => exact .some ⟨rfl, hst⟩

/-- **Contents are alike** on heaps that are. -/
theorem Matches.contents (hS : Matches L n S h h') {r : Ref .message} (hr : ⟨.message, r⟩ ∈ S)
    (hn : n ≤ r.index) : Except.Alike L.message (h.contents r) (h'.contents r) := by
  -- the views of a message are followed to later messages only
  induction hk : h.messages.size - r.index using Nat.strongRecOn generalizing r with
  | ind k ih =>
    rcases hS.message hr with ⟨hcontent, hviews⟩ | halike
    swap
    · exact halike
    have hhas : r.index < h.messages.size := (hS.has hr).1
    have hflush : Flushes L n S h (h.follow r) (h'.follow r) :=
      follow_of (hS.has hr).1 (hS.has hr).2 (Nat.le_succ_of_le hn)
        fun q hq hlt => ih _ (by omega) hq (by omega) rfl
    rw [contents_eq, contents_eq, hviews]
    refine .map (.mapM fun view hview => hS.write hflush
      (hS.closed hr (List.mem_map.2 ⟨view, hview, rfl⟩)) (L.descriptor hcontent)) fun ws ws' hws => ?_
    exact L.writeAll hcontent hws

/-- What messages are flushed to from a message, when all later ones are in the set. -/
theorem Matches.follow (hS : Matches L n S h h') {r : Ref .message} (hr : h.Has ⟨.message, r⟩)
    (hr' : h'.Has ⟨.message, r⟩) (hn : n = r.index + 1) :
    Flushes L n S h (h.follow r) (h'.follow r) :=
  follow_of hr hr' (Nat.le_of_eq hn) fun _ hq hlt => hS.contents hq (by omega)

/-- What views would store by themselves is alike, too. -/
theorem Matches.flushes (hS : Matches L 0 S h h') : Flushes L 0 S h h.contents h'.contents :=
  fun _ _ hin => ⟨hS.contents (hin.resolve_right (Nat.not_lt_zero _)) (Nat.zero_le _), fun _ hm => hm⟩

theorem Matches.repeatedContents (hS : Matches L 0 S h h') {q : Ref .repeated}
    (hq : ⟨.repeated, q⟩ ∈ S) : Except.Alike L.stored (h.repeatedContents q) (h'.repeatedContents q) :=
  hS.repeatedToStored hS.flushes hq

theorem Matches.mapContents (hS : Matches L 0 S h h') {q : Ref .map} (hq : ⟨.map, q⟩ ∈ S) :
    Except.Alike L.stored (h.mapContents q) (h'.mapContents q) :=
  hS.mapToStored hS.flushes hq

/-! ## After one write -/

/-- What the contents of a message can depend on besides its own cell: the views, and the messages
made after it. -/
def later (h : Heap) (r : Ref .message) : Set Place :=
  {p | h.Has p ∧ ∀ q : Ref .message, p = ⟨.message, q⟩ → r.index < q.index}

theorem Closed.follows (hc : h.Closed) {p : Place} {v : Value} (hp : h.Has p)
    (hv : v ∈ (h.cell p.2).values) (r : Ref .message) : Follows (r.index + 1) (h.later r) h v := by
  intro q hq
  have hhas := (hc p hp v hv).has (Value.place?_of_ref? hq)
  refine ⟨hhas, ?_⟩
  obtain ⟨s, q⟩ := q
  by_cases hlater : ∀ m : Ref .message, (⟨s, q⟩ : Place) = ⟨.message, m⟩ → r.index < m.index
  · exact .inl ⟨hhas, hlater⟩
  · simp only [not_forall] at hlater
    obtain ⟨m, he, hlt⟩ := hlater
    exact .inr ⟨m, he, by omega⟩

/-- **After a message was written**, all that its contents depend on besides is as it was. -/
theorem Grows.put_matches {mid : Heap} (hg : h.Grows mid) (hc : h.Closed) {r : Ref .message}
    {c : MessageCell} (hr : h.Has ⟨.message, r⟩)
    (hname : c.content.fullName = (h.cell r).content.fullName) :
    Matches .eq (r.index + 1) (h.later r) h (mid.put r c) := by
  have same {p : Place} (hp : p ∈ h.later r) : (mid.put r c).cell p.2 = h.cell p.2 := by
    have hne : p ≠ ⟨.message, r⟩ := fun he => Nat.lt_irrefl _ (hp.2 r he)
    rw [cell_put_of_place_ne mid hne, hg.cell hp.1]
  refine ⟨fun hp => ⟨hp.1, has_put.2 (hg.has hp.1)⟩, fun {q} hq => ?_, fun hq => .inl ?_,
    fun hq => congrArg Cell.freeze (same hq), fun hq => congrArg Cell.freeze (same hq),
    fun hp hv => hc.follows hp.1 hv r, fun _ _ _ hm _ => .of_eq (fun _ _ => rfl) (by rw [hm])⟩
  · by_cases hqr : q = r
    · subst hqr
      unfold fullName
      rw [cell_put_self mid q c (hg.has hr)]
      exact hname
    · have hcell : (mid.put r c).cell q = h.cell q := by
        rw [cell_put_of_ne mid hqr, hg.cell hq]
      unfold fullName
      rw [hcell]
  · exact ⟨congrArg MessageCell.content (same hq).symm, congrArg MessageCell.views (same hq)⟩

/-- What the views of a message write back does not depend on the message itself. -/
theorem Grows.put_write {mid : Heap} (hg : h.Grows mid) (hc : h.Closed) {r : Ref .message}
    {c : MessageCell} (hr : h.Has ⟨.message, r⟩)
    (hd : c.content.descriptor = (h.cell r).content.descriptor) {view : String × Value}
    (hview : view ∈ (h.cell r).views) : (mid.put r c).write r view = h.write r view := by
  have hS := hg.put_matches hc (c := c) hr (congrArg MessageDescriptor.fullName hd)
  have hhas : (mid.put r c).Has ⟨.message, r⟩ := has_put.2 (hg.has hr)
  have halike := hS.write (hS.follow hr hhas rfl)
    (hc.follows (p := ⟨.message, r⟩) hr (List.mem_map.2 ⟨view, hview, rfl⟩) r)
    (by rw [cell_put_self mid r c (hg.has hr), hd])
  refine (halike.mono fun a b _ _ hab => ?_).eq
  cases hab with
  | none => rfl
  | some hab => exact congrArg some (Prod.ext hab.1 hab.2)

end Heap

end Protoscript
