import Protoscript.Proofs.Transfer

/-!
# Values that are made twice

Where the same thing is done on two heaps that have grown from one, the messages that are made differ in
their places only. They are twins: the one holds what the other holds. Views that list twins would store
the same, and so do the messages that keep such views.

* `Heap.Twin` — a value that both heaps took over, or two new messages that hold the same;
* `Heap.Reachable.bareKeys` — keys of views are scalars or messages;
* `Heap.Twin.keysEqual` — twins are equal as keys to what their twins are equal to;
* `Heap.Doubles` — two heaps that keep the same messages, with views that list twins;
* `Heap.Doubles.contents` — on them, messages have the same contents.
-/

namespace Protoscript

/-- Results for all elements of a list, and for those of a related one. -/
theorem Except.mapM_of_forall₂ {α β γ ε : Type} {R : α → β → Prop} {k : α → Except ε γ}
    {l : β → Except ε γ} {xs : List α} {ys : List β} {cs : List γ} (hR : List.Forall₂ R xs ys)
    (hkl : ∀ x y c, R x y → k x = .ok c → l y = .ok c) (hcs : xs.mapM k = .ok cs) : ys.mapM l = .ok cs := by
  have hall := Except.mapM_ok.1 hcs
  refine Except.mapM_ok.2 ?_
  induction hR generalizing cs with
  | nil => cases hall; exact .nil
  | cons hxy _ ih =>
    cases hall with
    | cons hx hrest => exact .cons (hkl _ _ _ hxy hx) (ih (Except.mapM_ok.2 hrest) hrest)

/-- Whether a value is compared at once: it is a scalar or a message. -/
def Value.Bare (v : Value) : Prop := (∃ s kind, v = Scalar.toValue kind s) ∨ ∃ q, v = .message q

namespace Heap

variable {h g₁ g₂ k₁ k₂ : Heap} {n₁ n₂ : Nat} {v v' w w' : Value}

/-! ## Twins -/

/-- Whether two values, each on a heap that has grown from a first one, are one of the first heap, or
messages that were made since, hold the same and keep no views. New messages are numbered alike from two
numbers on, so that two of them are one message if and only if their twins are. -/
inductive Twin (h : Heap) (n₁ n₂ : Nat) (g₁ g₂ : Heap) : Value → Value → Prop
  | old {v : Value} (hv : v.Within h) : Twin h n₁ n₂ g₁ g₂ v v
  | new {config : Config} {q₁ q₂ : Ref .message} {m : Message} (hnew₁ : ¬ h.Has ⟨.message, q₁⟩)
    (hnew₂ : ¬ h.Has ⟨.message, q₂⟩) (hnumber : q₁.index + n₂ = q₂.index + n₁)
    (h₁ : g₁.Pristine config q₁ m) (h₂ : g₂.Pristine config q₂ m) :
    Twin h n₁ n₂ g₁ g₂ (.message q₁) (.message q₂)

/-- Only messages have other twins than themselves. -/
theorem Twin.eq_of_ref? (hv : Twin h n₁ n₂ g₁ g₂ v w) (hnone : v.ref? = none) : w = v := by
  cases hv with
  | old => rfl
  | new => cases hnone

theorem Twin.exists_message {q : Ref .message} (hv : Twin h n₁ n₂ g₁ g₂ (.message q) w) :
    ∃ q', w = .message q' := by
  cases hv with
  | old => exact ⟨q, rfl⟩
  | @new _ _ q₂ => exact ⟨q₂, rfl⟩

theorem Pristine.keep {config : Config} {q : Ref .message} {m : Message} (hq : g₁.Pristine config q m)
    (hk : g₁.KeepsMessages k₁) : k₁.Pristine config q m := by
  obtain ⟨hhas, hcell⟩ := hk q hq.has
  exact ⟨hhas, hcell ▸ hq.content, hcell ▸ hq.views, hcell ▸ hq.config⟩

theorem Twin.keep (hv : Twin h n₁ n₂ g₁ g₂ v w) (hk₁ : g₁.KeepsMessages k₁) (hk₂ : g₂.KeepsMessages k₂) :
    Twin h n₁ n₂ k₁ k₂ v w := by
  cases hv with
  | old hv => exact .old hv
  | new hnew₁ hnew₂ hnumber h₁ h₂ => exact .new hnew₁ hnew₂ hnumber (h₁.keep hk₁) (h₂.keep hk₂)

/-- Overwriting a message of the first heap leaves twins as they are. -/
theorem Twin.putMessage {r : Ref .message} (hr : h.Has ⟨.message, r⟩) (c c' : MessageCell)
    (hv : Twin h n₁ n₂ g₁ g₂ v w) : Twin h n₁ n₂ (g₁.put r c) (g₂.put r c') v w := by
  have kept {g : Heap} {config : Config} {q : Ref .message} {m : Message} (hnew : ¬ h.Has ⟨.message, q⟩)
      (hq : g.Pristine config q m) (c : MessageCell) : (g.put r c).Pristine config q m := by
    have hne : q ≠ r := fun he => hnew (he ▸ hr)
    have hcell : (g.put r c).cell q = g.cell q := cell_put_of_ne g (s := .message) hne c
    exact ⟨has_put.2 hq.has, hcell ▸ hq.content, hcell ▸ hq.views, hcell ▸ hq.config⟩
  cases hv with
  | old hv => exact .old hv
  | new hnew₁ hnew₂ hnumber h₁ h₂ => exact .new hnew₁ hnew₂ hnumber (kept hnew₁ h₁ c) (kept hnew₂ h₂ c')

/-! ## Keys -/

theorem equals_of_bare (hv : v.Bare) (g : Heap) (w : Value) : g.equals v w = g.flatEquals v w := by
  obtain ⟨s, kind, rfl⟩ | ⟨q, rfl⟩ := hv
  · exact s.equals_toValue g kind w
  · rw [equals, equalsWithin]
    · simp [sequenceItems?, mappingEntries?]
    · simp

/-- Whether the keys of views are compared at once. -/
def BareKeys (h : Heap) : Prop := ∀ r : Ref .map, ∀ e ∈ (h.cell r).entries, e.1.Bare

theorem Normal.bare {kind : Kind} (hv : h.Normal kind v) : v.Bare := by
  cases hv with
  | @scalar _ s => exact .inl ⟨s, kind, rfl⟩
  | @message d q => exact .inr ⟨q, rfl⟩

/-- **A change keeps keys bare**: they were checked, or read from a message. -/
theorem Change.bareKeys {pools : Set Pool} (hh : Change pools h k₁) (hb : h.BareKeys) : k₁.BareKeys := by
  have other {k : Heap} (hentries : ∀ r : Ref .map, (k.cell r).entries = (h.cell r).entries) :
      k.BareKeys := by
    intro r
    rw [hentries]
    exact hb r
  have added {c : MapCell} (hc : ∀ e ∈ c.entries, e.1.Bare) : (h.alloc .map c).BareKeys := by
    intro r
    by_cases hr : (h.alloc .map c).Has ⟨.map, r⟩
    · rcases has_alloc hr with he | hold
      · cases he
        rw [cell_alloc_self]
        exact hc
      · rw [cell_alloc_of_has h (s := .map) c hold]
        exact hb r
    · rw [cell_of_not_has (p := ⟨.map, r⟩) hr]
      exact List.forall_mem_nil _
  cases hh with
  | count | list | dict | message | «repeated» | readRepeated => exact other fun _ => rfl
  | setList | setDict | setRepeated | assign | replace | keep =>
    exact other fun r => congrArg MapCell.entries (cell_put_of_shelf_ne h (by decide) _ r _)
  | @freeze v => exact other fun r => (congrArg MapCell.entries (freeze_cell_freezeAll h [v] ⟨.map, r⟩) :)
  | map _ _ hentries => exact added fun e he => (hentries e he).1.bare
  | @readMap _ f _ _ _ _ hc =>
    refine added fun e he => ?_
    obtain ⟨stored, -, hkey, -⟩ := exists_of_forall₂ hc.entries he
    exact .inl ⟨_, f.keyKind, hkey.trans (MapKey.toValue_eq f.keyKind stored.1)⟩
  | @setMap r entries hr _ hkeys =>
    intro q
    by_cases hq : q = r
    · subst hq
      rw [cell_put_self h q _ hr]
      intro e he
      rcases hkeys e he with hold | hnormal
      · obtain ⟨e', he', heq⟩ := List.mem_map.1 hold
        exact heq ▸ hb q e' he'
      · exact hnormal.bare
    · rw [cell_put_of_ne h hq]
      exact hb q

/-- **In the heaps of a run, keys are bare.** -/
theorem Reachable.bareKeys {pools : Set Pool} (hh : Reachable pools h) : h.BareKeys := by
  have run {k : Heap} (hk : Changes pools {} k) : k.BareKeys := by
    induction hk with
    | refl => exact fun _ => List.forall_mem_nil _
    | tail _ hlast ih => exact hlast.bareKeys ih
  exact run hh.changes

/-- A scalar equals no message. -/
theorem flatEquals_toValue_message (g : Heap) (s : Scalar) (kind : Kind) (q : Ref .message) :
    g.flatEquals (s.toValue kind) (.message q) = .ok false ∧
      g.flatEquals (.message q) (s.toValue kind) = .ok false := by
  have hnone := s.ref?_toValue kind
  generalize s.toValue kind = v at hnone
  cases v <;> first | exact ⟨rfl, rfl⟩ | cases hnone

section

variable (hc : h.Closed) (hg₁ : h.Grows g₁) (hg₂ : h.Grows g₂)

include hc hg₁ hg₂

/-- Twins have one name and hold the same. -/
theorem Twin.contents {q₁ q₂ : Ref .message} (hq : Twin h n₁ n₂ g₁ g₂ (.message q₁) (.message q₂)) :
    g₂.fullName q₂ = g₁.fullName q₁ ∧ g₂.contents q₂ = g₁.contents q₁ := by
  cases hq with
  | old hq =>
    have hhas : h.Has ⟨.message, q₁⟩ := hq.has rfl
    refine ⟨?_, by rw [hg₁.contents hc hhas, hg₂.contents hc hhas]⟩
    have hcell : g₂.cell q₁ = g₁.cell q₁ := by rw [hg₁.cell hhas, hg₂.cell hhas]
    exact congrArg (fun c : MessageCell => c.content.fullName) hcell
  | new _ _ _ h₁ h₂ =>
    refine ⟨?_, by rw [h₁.contents, h₂.contents]⟩
    exact congrArg Message.fullName (h₂.content.trans h₁.content.symm)

omit hg₂ in
/-- Whether a key of a view equals a value is the same when cells were added. -/
theorem Grows.keysEqual_bare (hv : v.Bare) (hwithin : v.Within h) (hw : w.Within h) :
    g₁.keysEqual v w = h.keysEqual v w := by
  unfold Heap.keysEqual
  rw [equals_of_bare hv, equals_of_bare hv]
  obtain ⟨s, kind, rfl⟩ | ⟨q, rfl⟩ := hv
  · rw [flatEquals_of_ref?_eq_none h g₁ (.inl (s.ref?_toValue kind))]
  · cases w <;> try rfl
    case message r =>
      have hq : h.Has ⟨.message, q⟩ := hwithin.has rfl
      have hr : h.Has ⟨.message, r⟩ := hw.has rfl
      have hname {q : Ref .message} (hq : h.Has ⟨.message, q⟩) : g₁.fullName q = h.fullName q :=
        congrArg (fun c : MessageCell => c.content.fullName) (hg₁.cell hq)
      simp only [flatEquals, hname hq, hname hr, hg₁.contents hc hq, hg₁.contents hc hr]

omit hc hg₁ hg₂ in
/-- Two messages are one if and only if their twins are. -/
theorem Twin.eq_iff {q₁ q₂ r₁ r₂ : Ref .message} (hq : Twin h n₁ n₂ g₁ g₂ (.message q₁) (.message q₂))
    (hr : Twin h n₁ n₂ g₁ g₂ (.message r₁) (.message r₂)) : q₁ = r₁ ↔ q₂ = r₂ := by
  cases hq with
  | old hq =>
    have hhas : h.Has ⟨.message, q₁⟩ := hq.has rfl
    cases hr with
    | old => rfl
    | new hnew₁ hnew₂ => exact ⟨fun he => absurd (he ▸ hhas) hnew₁, fun he => absurd (he ▸ hhas) hnew₂⟩
  | new hnew₁ hnew₂ hnumber =>
    cases hr with
    | old hr =>
      have hhas : h.Has ⟨.message, r₁⟩ := hr.has rfl
      exact ⟨fun he => absurd (he ▸ hhas) hnew₁, fun he => absurd (he ▸ hhas) hnew₂⟩
    | new _ _ hnumber' =>
      obtain ⟨i₁⟩ := q₁
      obtain ⟨i₂⟩ := q₂
      obtain ⟨j₁⟩ := r₁
      obtain ⟨j₂⟩ := r₂
      simp only [Ref.mk.injEq] at hnumber hnumber' ⊢
      omega

/-- **Twins are equal as keys** to what their twins are equal to. -/
theorem Twin.keysEqual (hv : v.Bare) (hw : w.Bare) (hvv : Twin h n₁ n₂ g₁ g₂ v v')
    (hww : Twin h n₁ n₂ g₁ g₂ w w') : g₂.keysEqual v' w' = g₁.keysEqual v w := by
  unfold Heap.keysEqual
  refine congrArg (fun r : Except Error Bool => r.toOption == some true) ?_
  obtain ⟨s, kind, rfl⟩ | ⟨q, rfl⟩ := hv
  · obtain rfl := hvv.eq_of_ref? (s.ref?_toValue kind)
    rw [equals_of_bare (.inl ⟨s, kind, rfl⟩), equals_of_bare (.inl ⟨s, kind, rfl⟩)]
    obtain ⟨t, kind', rfl⟩ | ⟨r, rfl⟩ := hw
    · obtain rfl := hww.eq_of_ref? (t.ref?_toValue kind')
      exact flatEquals_of_ref?_eq_none g₁ g₂ (.inl (s.ref?_toValue kind))
    · obtain ⟨r', rfl⟩ := hww.exists_message
      rw [(flatEquals_toValue_message g₂ s kind r').1, (flatEquals_toValue_message g₁ s kind r).1]
  · obtain ⟨q', rfl⟩ := hvv.exists_message
    rw [equals_of_bare (.inr ⟨q', rfl⟩), equals_of_bare (.inr ⟨q, rfl⟩)]
    obtain ⟨t, kind', rfl⟩ | ⟨r, rfl⟩ := hw
    · obtain rfl := hww.eq_of_ref? (t.ref?_toValue kind')
      rw [(flatEquals_toValue_message g₂ t kind' q').2, (flatEquals_toValue_message g₁ t kind' q).2]
    · obtain ⟨r', rfl⟩ := hww.exists_message
      obtain ⟨hname, hcontents⟩ := hvv.contents hc hg₁ hg₂
      obtain ⟨hname', hcontents'⟩ := hww.contents hc hg₁ hg₂
      simp only [flatEquals, hname, hname', hcontents, hcontents', hvv.eq_iff hww]

end

/-! ## What twins are stored as -/

/-- Whether messages are named alike, and are flushed alike where the first heap flushes them. -/
structure FlushAlike (h : Heap) (n₁ n₂ : Nat) (g₁ g₂ : Heap)
    (flush₁ flush₂ : Ref .message → Except Error Message) : Prop where
  name {q₁ q₂ : Ref .message} (hq : Twin h n₁ n₂ g₁ g₂ (.message q₁) (.message q₂)) :
    g₂.fullName q₂ = g₁.fullName q₁
  flush {q₁ q₂ : Ref .message} {m : Message} (hq : Twin h n₁ n₂ g₁ g₂ (.message q₁) (.message q₂))
    (hm : flush₁ q₁ = .ok m) : flush₂ q₂ = .ok m

section

variable {flush₁ flush₂ : Ref .message → Except Error Message}
  (hflush : FlushAlike h n₁ n₂ g₁ g₂ flush₁ flush₂)

include hflush

/-- **Twins are stored as the same.** -/
theorem Twin.toStored {kind : Kind} {config : Config} {s : Stored} (hv : Twin h n₁ n₂ g₁ g₂ v w)
    (hs : kind.toStored g₁ flush₁ v config = .ok s) : kind.toStored g₂ flush₂ w config = .ok s := by
  rcases Kind.toStored_ok hs with ⟨x, rfl, hx⟩ | ⟨d, m, rfl, rfl, hm⟩
  · obtain rfl := hv.eq_of_ref? (Kind.ref?_of_scalarToStored hx).2.2
    exact Kind.toStored_of_scalarToStored hx
  refine Except.map_ok.2 ⟨m, ?_, rfl⟩
  by_cases hmessage : ∃ q, v = .message q
  · obtain ⟨q₁, rfl⟩ := hmessage
    obtain ⟨q₂, rfl⟩ := hv.exists_message
    rw [MessageDescriptor.toStored_of_message] at hm ⊢
    rw [hflush.name hv]
    split at hm
    · obtain ⟨x, hx, hadopt⟩ := Except.bind_ok.1 hm
      rw [if_pos ‹_›, hflush.flush hv hx]
      exact hadopt
    · cases hm
  · obtain rfl : w = v := by
      cases hv with
      | old => rfl
      | new => exact absurd ⟨_, rfl⟩ hmessage
    rw [← hm]
    cases w <;> first | rfl | exact absurd ⟨_, rfl⟩ hmessage

theorem Twin.toMapKey {kind : Kind} {config : Config} {key : MapKey} (hv : Twin h n₁ n₂ g₁ g₂ v w)
    (hkey : kind.toMapKey g₁ flush₁ v config = .ok key) : kind.toMapKey g₂ flush₂ w config = .ok key := by
  unfold Kind.toMapKey at hkey ⊢
  rcases hs : kind.toStored g₁ flush₁ v config with e | s <;> rw [hs] at hkey
  · cases hkey
  · rw [hv.toStored hflush hs]
    cases s with
    | scalar s =>
      dsimp only at hkey ⊢
      split at hkey <;> cases hkey
      rfl
    | _ => cases hkey

end

/-! ## Views of twins -/

/-- Whether two entries have keys and values that are twins. -/
structure TwinEntries (h : Heap) (n₁ n₂ : Nat) (g₁ g₂ : Heap) (e e' : Value × Value) : Prop where
  bare : e.1.Bare
  key : Twin h n₁ n₂ g₁ g₂ e.1 e'.1
  value : Twin h n₁ n₂ g₁ g₂ e.2 e'.2

/-- Whether two views of a list field list twins. -/
structure TwinLists (h : Heap) (n₁ n₂ : Nat) (g₁ g₂ : Heap) (c c' : RepeatedCell) : Prop where
  field : c'.field = c.field
  config : c'.config = c.config
  items : List.Forall₂ (Twin h n₁ n₂ g₁ g₂) c.items c'.items

/-- Whether two views of a map field list twins. -/
structure TwinMaps (h : Heap) (n₁ n₂ : Nat) (g₁ g₂ : Heap) (c c' : MapCell) : Prop where
  field : c'.field = c.field
  config : c'.config = c.config
  entries : List.Forall₂ (TwinEntries h n₁ n₂ g₁ g₂) c.entries c'.entries

section

variable (htwin : ∀ {v w : Value}, Twin h n₁ n₂ g₁ g₂ v w → Twin h n₁ n₂ k₁ k₂ v w)

include htwin

theorem TwinLists.mono {c c' : RepeatedCell} (hcc : TwinLists h n₁ n₂ g₁ g₂ c c') :
    TwinLists h n₁ n₂ k₁ k₂ c c' :=
  ⟨hcc.field, hcc.config, hcc.items.imp fun _ _ hv => htwin hv⟩

theorem TwinMaps.mono {c c' : MapCell} (hcc : TwinMaps h n₁ n₂ g₁ g₂ c c') : TwinMaps h n₁ n₂ k₁ k₂ c c' :=
  ⟨hcc.field, hcc.config, hcc.entries.imp fun _ _ he => ⟨he.bare, htwin he.key, htwin he.value⟩⟩

end

section

variable {flush₁ flush₂ : Ref .message → Except Error Message}
  (hflush : FlushAlike h n₁ n₂ g₁ g₂ flush₁ flush₂) {s : Stored}

include hflush

theorem TwinLists.toStored {c c' : RepeatedCell} (hcc : TwinLists h n₁ n₂ g₁ g₂ c c')
    (hs : c.toStored g₁ flush₁ = .ok s) : c'.toStored g₂ flush₂ = .ok s := by
  obtain ⟨ts, hts, rfl⟩ := Except.map_ok.1 hs
  have hkind : c'.kind = c.kind := congrArg FieldDescriptor.kind hcc.field
  refine Except.map_ok.2 ⟨ts, Except.mapM_of_forall₂ hcc.items (fun v w t hvw ht => ?_) hts, rfl⟩
  rw [hkind, hcc.config]
  exact hvw.toStored hflush ht

theorem TwinMaps.toStored {c c' : MapCell} (hcc : TwinMaps h n₁ n₂ g₁ g₂ c c')
    (hs : c.toStored g₁ flush₁ = .ok s) : c'.toStored g₂ flush₂ = .ok s := by
  rw [MapCell.toStored_eq] at hs ⊢
  obtain ⟨ts, hts, rfl⟩ := Except.map_ok.1 hs
  refine Except.map_ok.2 ⟨ts, Except.mapM_of_forall₂ hcc.entries (fun e e' t hee ht => ?_) hts, rfl⟩
  obtain ⟨hkey, hvalue⟩ := MapCell.storedEntry_ok.1 ht
  refine MapCell.storedEntry_ok.2 ?_
  rw [hcc.field, hcc.config]
  exact ⟨hee.key.toMapKey hflush hkey, hee.value.toStored hflush hvalue⟩

end

/-- Whether two heaps have the messages of a first one alike, with views that are of the first one, and
views that list twins. -/
structure Doubles (h : Heap) (n₁ n₂ : Nat) (g₁ g₂ : Heap) : Prop where
  has {a : Place} (ha : h.Has a) : g₁.Has a ∧ g₂.Has a
  message {r : Ref .message} (hr : h.Has ⟨.message, r⟩) : g₂.cell r = g₁.cell r
  views {r : Ref .message} (hr : h.Has ⟨.message, r⟩) : ∀ view ∈ (g₁.cell r).views, view.2.Within h
  repeated {q : Ref .repeated} (hq : h.Has ⟨.repeated, q⟩) :
    TwinLists h n₁ n₂ g₁ g₂ (g₁.cell q) (g₂.cell q)
  map {q : Ref .map} (hq : h.Has ⟨.map, q⟩) : TwinMaps h n₁ n₂ g₁ g₂ (g₁.cell q) (g₂.cell q)

namespace Doubles

variable (hd : Doubles h n₁ n₂ g₁ g₂)

include hd

theorem name {q₁ q₂ : Ref .message} (hq : Twin h n₁ n₂ g₁ g₂ (.message q₁) (.message q₂)) :
    g₂.fullName q₂ = g₁.fullName q₁ := by
  cases hq with
  | old hq => exact congrArg (fun c : MessageCell => c.content.fullName) (hd.message (hq.has rfl))
  | new _ _ _ h₁ h₂ => exact congrArg Message.fullName (h₂.content.trans h₁.content.symm)

/-- What a view would store that a message keeps. -/
theorem viewContents {flush₁ flush₂ : Ref .message → Except Error Message}
    (hflush : FlushAlike h n₁ n₂ g₁ g₂ flush₁ flush₂) (hv : v.Within h) {s : Option Stored}
    (hs : g₁.viewContents flush₁ v = .ok s) : g₂.viewContents flush₂ v = .ok s := by
  cases v with
  | message q =>
    obtain ⟨m, hm, rfl⟩ := Except.map_ok.1 hs
    exact Except.map_ok.2 ⟨m, hflush.flush (.old hv) hm, rfl⟩
  | «repeated» q =>
    obtain ⟨t, ht, rfl⟩ := Except.map_ok.1 hs
    exact Except.map_ok.2 ⟨t, (hd.repeated (hv.has rfl)).toStored hflush ht, rfl⟩
  | map q =>
    obtain ⟨t, ht, rfl⟩ := Except.map_ok.1 hs
    exact Except.map_ok.2 ⟨t, (hd.map (hv.has rfl)).toStored hflush ht, rfl⟩
  | _ => exact hs

/-- **Messages have the same contents**, if they have any on the first heap. Views are followed to later
messages only. -/
theorem contents {r : Ref .message} {m : Message} (hr : h.Has ⟨.message, r⟩)
    (hm : g₁.contents r = .ok m) : g₂.contents r = .ok m := by
  -- by how many messages come after this one
  induction hk : g₁.messages.size - r.index using Nat.strongRecOn generalizing r m with
  | ind k ih =>
    have hhas : r.index < g₁.messages.size := (hd.has hr).1
    have hflush : FlushAlike h n₁ n₂ g₁ g₂ (g₁.follow r) (g₂.follow r) := by
      refine ⟨hd.name, fun {q₁ q₂ x} hq hx => ?_⟩
      obtain ⟨⟨hlt, -⟩, hx⟩ := follow_ok.1 hx
      cases hq with
      | old hq =>
        rw [follow_of_lt (hd.has hr).2 hlt]
        exact ih _ (by omega) (hq.has rfl) hx rfl
      | new hnew₁ hnew₂ _ h₁ h₂ =>
        have hlater : r.index < q₂.index := by
          have hlt : r.index < (h.shelf .message).size := hr
          have hle : ¬ q₂.index < (h.shelf .message).size := hnew₂
          omega
        rw [follow_of_lt (hd.has hr).2 hlater, h₂.contents, ← h₁.contents, hx]
    rw [contents_eq] at hm ⊢
    obtain ⟨ws, hws, rfl⟩ := Except.map_ok.1 hm
    rw [hd.message hr]
    refine Except.map_ok.2 ⟨ws, ?_, rfl⟩
    have hsame : List.Forall₂ (fun x y => x = y ∧ y ∈ (g₁.cell r).views) (g₁.cell r).views
        (g₁.cell r).views :=
      List.forall₂_same.2 fun view hview => ⟨rfl, hview⟩
    refine Except.mapM_of_forall₂ hsame (fun x view w hx hw => ?_) hws
    obtain ⟨rfl, hview⟩ := hx
    unfold write at hw ⊢
    rw [hd.message hr]
    split at hw
    · exact hw
    · obtain ⟨t, ht, rfl⟩ := Except.map_ok.1 hw
      exact Except.map_ok.2 ⟨t, hd.viewContents hflush (hd.views hr _ hview) ht, rfl⟩

theorem flushAlike : FlushAlike h n₁ n₂ g₁ g₂ g₁.contents g₂.contents := by
  refine ⟨hd.name, fun {q₁ q₂ m} hq hm => ?_⟩
  cases hq with
  | old hq => exact hd.contents (hq.has rfl) hm
  | new _ _ _ h₁ h₂ => rw [h₂.contents, ← h₁.contents, hm]

/-- **A view of a list field gets twins** on both heaps. -/
theorem putRepeated {r : Ref .repeated} (hr : h.Has ⟨.repeated, r⟩) {c c' : RepeatedCell}
    (hcc : TwinLists h n₁ n₂ g₁ g₂ c c') : Doubles h n₁ n₂ (g₁.put r c) (g₂.put r c') := by
  have hk₁ : g₁.KeepsMessages (g₁.put r c) := keepsMessages_put (by decide) r c
  have hk₂ : g₂.KeepsMessages (g₂.put r c') := keepsMessages_put (by decide) r c'
  refine ⟨fun ha => ⟨has_put.2 (hd.has ha).1, has_put.2 (hd.has ha).2⟩, fun {q} hq => ?_, fun {q} hq => ?_,
    fun {q} hq => ?_, fun {q} hq => ?_⟩
  · rw [(hk₁ q (hd.has hq).1).2, (hk₂ q (hd.has hq).2).2, hd.message hq]
  · rw [(hk₁ q (hd.has hq).1).2]
    exact hd.views hq
  · by_cases hqr : q = r
    · subst hqr
      rw [cell_put_self g₁ (s := .repeated) q c (hd.has hr).1,
        cell_put_self g₂ (s := .repeated) q c' (hd.has hr).2]
      exact hcc.mono fun hv => hv.keep hk₁ hk₂
    · rw [cell_put_of_ne g₁ (s := .repeated) hqr, cell_put_of_ne g₂ (s := .repeated) hqr]
      exact (hd.repeated hq).mono fun hv => hv.keep hk₁ hk₂
  · rw [cell_put_of_shelf_ne g₁ (by decide), cell_put_of_shelf_ne g₂ (by decide)]
    exact (hd.map hq).mono fun hv => hv.keep hk₁ hk₂

/-- **A view of a map field gets twins** on both heaps. -/
theorem putMap {r : Ref .map} (hr : h.Has ⟨.map, r⟩) {c c' : MapCell}
    (hcc : TwinMaps h n₁ n₂ g₁ g₂ c c') : Doubles h n₁ n₂ (g₁.put r c) (g₂.put r c') := by
  have hk₁ : g₁.KeepsMessages (g₁.put r c) := keepsMessages_put (by decide) r c
  have hk₂ : g₂.KeepsMessages (g₂.put r c') := keepsMessages_put (by decide) r c'
  refine ⟨fun ha => ⟨has_put.2 (hd.has ha).1, has_put.2 (hd.has ha).2⟩, fun {q} hq => ?_, fun {q} hq => ?_,
    fun {q} hq => ?_, fun {q} hq => ?_⟩
  · rw [(hk₁ q (hd.has hq).1).2, (hk₂ q (hd.has hq).2).2, hd.message hq]
  · rw [(hk₁ q (hd.has hq).1).2]
    exact hd.views hq
  · rw [cell_put_of_shelf_ne g₁ (by decide), cell_put_of_shelf_ne g₂ (by decide)]
    exact (hd.repeated hq).mono fun hv => hv.keep hk₁ hk₂
  · by_cases hqr : q = r
    · subst hqr
      rw [cell_put_self g₁ (s := .map) q c (hd.has hr).1, cell_put_self g₂ (s := .map) q c' (hd.has hr).2]
      exact hcc.mono fun hv => hv.keep hk₁ hk₂
    · rw [cell_put_of_ne g₁ (s := .map) hqr, cell_put_of_ne g₂ (s := .map) hqr]
      exact (hd.map hq).mono fun hv => hv.keep hk₁ hk₂

/-- **A message is overwritten** alike on both heaps. -/
theorem putMessage {r : Ref .message} (hr : h.Has ⟨.message, r⟩) {c : MessageCell}
    (hviews : ∀ view ∈ c.views, view.2.Within h) : Doubles h n₁ n₂ (g₁.put r c) (g₂.put r c) := by
  refine ⟨fun ha => ⟨has_put.2 (hd.has ha).1, has_put.2 (hd.has ha).2⟩, fun {q} hq => ?_, fun {q} hq => ?_,
    fun {q} hq => ?_, fun {q} hq => ?_⟩
  · by_cases hqr : q = r
    · subst hqr
      rw [cell_put_self g₁ (s := .message) q c (hd.has hr).1,
        cell_put_self g₂ (s := .message) q c (hd.has hr).2]
    · rw [cell_put_of_ne g₁ (s := .message) hqr, cell_put_of_ne g₂ (s := .message) hqr, hd.message hq]
  · by_cases hqr : q = r
    · subst hqr
      rw [cell_put_self g₁ (s := .message) q c (hd.has hr).1]
      exact hviews
    · rw [cell_put_of_ne g₁ (s := .message) hqr]
      exact hd.views hq
  · rw [cell_put_of_shelf_ne g₁ (by decide), cell_put_of_shelf_ne g₂ (by decide)]
    exact (hd.repeated hq).mono fun hv => hv.putMessage hr c c
  · rw [cell_put_of_shelf_ne g₁ (by decide), cell_put_of_shelf_ne g₂ (by decide)]
    exact (hd.map hq).mono fun hv => hv.putMessage hr c c

end Doubles

/-- **Heaps that have grown from one** have its messages and views as they were. -/
theorem Reachable.doubles {pools : Set Pool} (hh : Reachable pools h) (hg₁ : h.Grows g₁) (hg₂ : h.Grows g₂) :
    Doubles h n₁ n₂ g₁ g₂ := by
  refine ⟨fun ha => ⟨hg₁.has ha, hg₂.has ha⟩, fun {r} hr => ?_, fun {r} hr => ?_, fun {q} hq => ?_,
    fun {q} hq => ?_⟩
  · rw [hg₁.cell hr, hg₂.cell hr]
  · rw [hg₁.cell hr]
    exact fun view hview => hh.closed ⟨.message, r⟩ hr _ (List.mem_map.2 ⟨view, hview, rfl⟩)
  · rw [hg₁.cell hq, hg₂.cell hq]
    exact ⟨rfl, rfl, List.forall₂_same.2 fun v hv => .old (hh.closed ⟨.repeated, q⟩ hq v hv)⟩
  · rw [hg₁.cell hq, hg₂.cell hq]
    refine ⟨rfl, rfl, List.forall₂_same.2 fun e he => ?_⟩
    have within {v : Value} (hv : v ∈ [e.1, e.2]) : v.Within h :=
      hh.closed ⟨.map, q⟩ hq v (List.mem_flatMap.2 ⟨e, he, hv⟩)
    exact ⟨hh.bareKeys q e he, .old (within (.head _)), .old (within (.tail _ (.head _)))⟩

end Heap

end Protoscript
