import Protoscript.Proofs.Checking
import Protoscript.Proofs.Twins

/-!
# Checks that make twins

A check finds what a value is stored as, and then makes the form of it. Two checks that find the same, on
heaps that have both grown from one, make twins.

* `Heap.Abreast` — two heaps that number their next messages alike;
* `Heap.Abreast.makeItems`, `Heap.Abreast.makeUpdates` — what is made of what was found are twins;
* `Heap.Abreast.commit` — updates that are twins leave entries that are twins;
* `Heap.StandsFor` — a value whose check for a field finds what the check of another value finds;
* `Script.storedFor_inStep` — it is stored as the same.
-/

namespace Protoscript

/-- Whether a stored value is no list and no map. -/
def Stored.Single (s : Stored) : Prop := (∃ x, s = .scalar x) ∨ ∃ m, s = .message m

namespace Heap

variable {h g₁ g₂ k₁ k₂ : Heap} {n₁ n₂ : Nat} {kind : Kind} {config : Config}

/-! ## What is made of what was found -/

theorem single_of_check {v : Value} {s : Stored} (hs : h.check kind config v = .ok s) : s.Single := by
  rcases Kind.toStored_ok (check_ok.1 hs) with ⟨x, rfl, -⟩ | ⟨d, m, -, rfl, -⟩
  · exact .inl ⟨x, rfl⟩
  · exact .inr ⟨m, rfl⟩

theorem single_of_checkUpdate {c : MapCell} {e : Value × Value} {u : Stored × Option Stored}
    (hu : h.checkUpdate c e = .ok u) : u.1.Single ∧ ∀ s ∈ u.2, s.Single := by
  obtain ⟨key, value⟩ := e
  by_cases habsent : value = .absent
  · subst habsent
    rw [checkUpdate_absent] at hu
    obtain ⟨k, hk, hu⟩ := Except.bind_ok.1 hu
    split at hu <;> cases hu
    exact ⟨single_of_check hk, nofun⟩
  · rw [checkUpdate_of_ne habsent] at hu
    obtain ⟨k, hk, hu⟩ := Except.bind_ok.1 hu
    obtain ⟨s, hs, hu⟩ := Except.bind_ok.1 hu
    cases hu
    refine ⟨single_of_check hk, fun t ht => ?_⟩
    cases ht
    exact single_of_check hs

theorem singles_of_check {vs : List Value} {ss : List Stored} (hss : vs.mapM (h.check kind config) = .ok ss) :
    ∀ s ∈ ss, s.Single := fun _ hs =>
  have ⟨_, _, hv⟩ := exists_of_forall₂ (Except.mapM_ok.1 hss) hs
  single_of_check hv

theorem singles_of_checkUpdate {c : MapCell} {es : List (Value × Value)}
    {us : List (Stored × Option Stored)} (hus : es.mapM (h.checkUpdate c) = .ok us) :
    ∀ u ∈ us, u.1.Single ∧ ∀ s ∈ u.2, s.Single := fun _ hu =>
  have ⟨_, _, he⟩ := exists_of_forall₂ (Except.mapM_ok.1 hus) hu
  single_of_checkUpdate he

/-- Whether two heaps have grown from a first one, and number their next messages alike from two numbers
on. -/
structure Abreast (h : Heap) (n₁ n₂ : Nat) (g₁ g₂ : Heap) : Prop where
  left : h.Grows g₁
  right : h.Grows g₂
  number : (g₁.shelf .message).size + n₂ = (g₂.shelf .message).size + n₁

/-- They number their messages alike from the ones on that come next. -/
theorem Abreast.of_grows (hg₁ : h.Grows g₁) (hg₂ : h.Grows g₂) :
    Abreast h (g₁.shelf .message).size (g₂.shelf .message).size g₁ g₂ :=
  ⟨hg₁, hg₂, Nat.add_comm _ _⟩

/-- Whether two values are twins that are compared at once. -/
structure BareTwin (h : Heap) (n₁ n₂ : Nat) (g₁ g₂ : Heap) (v w : Value) : Prop where
  bare : v.Bare
  twin : Twin h n₁ n₂ g₁ g₂ v w

/-- Whether two updates set a key and its twin to twins, or both remove it. -/
structure TwinUpdates (h : Heap) (n₁ n₂ : Nat) (g₁ g₂ : Heap) (u u' : Value × Option Value) : Prop where
  key : BareTwin h n₁ n₂ g₁ g₂ u.1 u'.1
  value : Option.Rel (BareTwin h n₁ n₂ g₁ g₂) u.2 u'.2

/-- What two runs make, which add cells only, and which leave the heaps abreast. -/
structure MakesTwins {α : Type} (h : Heap) (n₁ n₂ : Nat) (R : Heap → Heap → α → α → Prop) (g₁ g₂ : Heap)
    (a₁ a₂ : α × Heap) : Prop where
  left : g₁.Grows a₁.2
  right : g₂.Grows a₂.2
  abreast : Abreast h n₁ n₂ a₁.2 a₂.2
  related : R a₁.2 a₂.2 a₁.1 a₂.1

theorem BareTwin.grow {v w : Value} (hv : BareTwin h n₁ n₂ g₁ g₂ v w) (hk₁ : g₁.Grows k₁)
    (hk₂ : g₂.Grows k₂) : BareTwin h n₁ n₂ k₁ k₂ v w :=
  ⟨hv.bare, hv.twin.keep hk₁.keepsMessages hk₂.keepsMessages⟩

theorem TwinUpdates.grow {u u' : Value × Option Value} (hu : TwinUpdates h n₁ n₂ g₁ g₂ u u')
    (hk₁ : g₁.Grows k₁) (hk₂ : g₂.Grows k₂) : TwinUpdates h n₁ n₂ k₁ k₂ u u' := by
  obtain ⟨key, value⟩ := u
  obtain ⟨key', value'⟩ := u'
  obtain ⟨hkey, hvalue⟩ := hu
  refine ⟨hkey.grow hk₁ hk₂, ?_⟩
  cases hvalue with
  | some hv => exact .some (hv.grow hk₁ hk₂)
  | none => exact .none

namespace Abreast

variable (ha : Abreast h n₁ n₂ g₁ g₂)

include ha

/-- **What is made of a stored value** are twins. -/
theorem adopt (kind : Kind) (config : Config) {s : Stored} (hs : s.Single) :
    MakesTwins h n₁ n₂ (BareTwin h n₁ n₂) g₁ g₂ (g₁.adopt kind config s) (g₂.adopt kind config s) := by
  rcases hs with ⟨x, rfl⟩ | ⟨m, rfl⟩
  · rw [Heap.adopt, Heap.adopt]
    exact ⟨.refl ∅ g₁, .refl ∅ g₂, ha, .inl ⟨x, kind, rfl⟩, .old (Scalar.within_toValue h kind x)⟩
  · rw [Heap.adopt, Heap.adopt]
    have hgrow (g : Heap) : g.Grows (g.newMessage m config).2 := g.grows_alloc_message rfl
    have hpristine (g : Heap) : (g.newMessage m config).2.Pristine config (g.fresh .message) m := by
      have hcell : (g.newMessage m config).2.cell (g.fresh .message) = { content := m, config := config } :=
        cell_alloc_self g (s := .message) _
      exact ⟨has_fresh_alloc g .message _, congrArg MessageCell.content hcell,
        congrArg MessageCell.views hcell, congrArg MessageCell.config hcell⟩
    have hnew {g : Heap} (hg : h.Grows g) : ¬ h.Has ⟨.message, g.fresh .message⟩ :=
      fun hhas => not_has_fresh g .message (hg.has hhas)
    have hsize (g : Heap) : ((g.newMessage m config).2.shelf .message).size = (g.shelf .message).size + 1 :=
      size_shelf_alloc_self g .message _
    -- each heap gets one message more, so that their numbers stay as far apart as they were
    refine ⟨hgrow g₁, hgrow g₂, ⟨ha.left.trans (hgrow g₁), ha.right.trans (hgrow g₂), ?_⟩, .inr ⟨_, rfl⟩,
      .new (hnew ha.left) (hnew ha.right) ha.number (hpristine g₁) (hpristine g₂)⟩
    have hnumber := ha.number
    have hsize₁ := hsize g₁
    have hsize₂ := hsize g₂
    omega

theorem adoptUpdate (c : MapCell) {u : Stored × Option Stored} (hu : u.1.Single ∧ ∀ s ∈ u.2, s.Single) :
    MakesTwins h n₁ n₂ (TwinUpdates h n₁ n₂) g₁ g₂ (g₁.adoptUpdate c u) (g₂.adoptUpdate c u) := by
  obtain ⟨key, value⟩ := u
  have hkey := ha.adopt c.field.keyKind c.config hu.1
  cases value with
  | none => exact ⟨hkey.left, hkey.right, hkey.abreast, hkey.related, .none⟩
  | some s =>
    have hvalue := hkey.abreast.adopt c.field.valueKind c.config (hu.2 s rfl)
    exact ⟨hkey.left.trans hvalue.left, hkey.right.trans hvalue.right, hvalue.abreast,
      hkey.related.grow hvalue.left hvalue.right, .some hvalue.related⟩

omit ha in
/-- What is made of several things, one after another. -/
theorem makeAll {σ α : Type} {make : Heap → σ → α × Heap} {R : Heap → Heap → α → α → Prop}
    (hkeep : ∀ {g₁ g₂ k₁ k₂ a₁ a₂}, g₁.Grows k₁ → g₂.Grows k₂ → R g₁ g₂ a₁ a₂ → R k₁ k₂ a₁ a₂)
    {xs : List σ} (hmake : ∀ x ∈ xs, ∀ {g₁ g₂}, Abreast h n₁ n₂ g₁ g₂ →
      MakesTwins h n₁ n₂ R g₁ g₂ (make g₁ x) (make g₂ x)) (ha : Abreast h n₁ n₂ g₁ g₂) :
    MakesTwins h n₁ n₂ (fun k₁ k₂ => List.Forall₂ (R k₁ k₂)) g₁ g₂ (g₁.makeAll make xs)
      (g₂.makeAll make xs) := by
  induction xs generalizing g₁ g₂ with
  | nil => exact ⟨.refl ∅ g₁, .refl ∅ g₂, ha, .nil⟩
  | cons x rest ih =>
    have hfirst := hmake x List.mem_cons_self ha
    have hrest := ih (fun y hy => hmake y (List.mem_cons_of_mem _ hy)) hfirst.abreast
    exact ⟨hfirst.left.trans hrest.left, hfirst.right.trans hrest.right, hrest.abreast,
      .cons (hkeep hrest.left hrest.right hfirst.related) hrest.related⟩

/-- **What is made of the items of a list** are twins. -/
theorem makeItems (kind : Kind) (config : Config) {ss : List Stored} (hss : ∀ s ∈ ss, s.Single) :
    MakesTwins h n₁ n₂ (fun k₁ k₂ => List.Forall₂ (BareTwin h n₁ n₂ k₁ k₂)) g₁ g₂
      (g₁.makeAll (·.adopt kind config) ss) (g₂.makeAll (·.adopt kind config) ss) :=
  makeAll (fun hk₁ hk₂ hv => hv.grow hk₁ hk₂) (fun s hs _ _ hab => hab.adopt kind config (hss s hs)) ha

/-- **What is made of the pairs of a map** are twins. -/
theorem makeUpdates (c : MapCell) {us : List (Stored × Option Stored)}
    (hus : ∀ u ∈ us, u.1.Single ∧ ∀ s ∈ u.2, s.Single) :
    MakesTwins h n₁ n₂ (fun k₁ k₂ => List.Forall₂ (TwinUpdates h n₁ n₂ k₁ k₂)) g₁ g₂
      (g₁.makeAll (·.adoptUpdate c) us) (g₂.makeAll (·.adoptUpdate c) us) :=
  makeAll (fun hk₁ hk₂ hu => hu.grow hk₁ hk₂) (fun u hu _ _ hab => hab.adoptUpdate c (hus u hu)) ha

variable (hc : h.Closed)

include hc

/-- A key is found where its twin is found. -/
theorem findKey? {entries entries' : List (Value × Value)} {key key' : Value}
    (he : List.Forall₂ (TwinEntries h n₁ n₂ g₁ g₂) entries entries') (hk : BareTwin h n₁ n₂ g₁ g₂ key key') :
    g₂.findKey? key' entries' = g₁.findKey? key entries := by
  unfold Heap.findKey?
  induction he with
  | nil => rfl
  | cons hd _ ih =>
    rw [List.findIdx?_cons, List.findIdx?_cons, ih,
      Twin.keysEqual hc ha.left ha.right hd.bare hk.bare hd.key hk.twin]

/-- **Updates that are twins** leave entries that are twins. -/
theorem commit {entries entries' : List (Value × Value)} {updates updates' : List (Value × Option Value)}
    (he : List.Forall₂ (TwinEntries h n₁ n₂ g₁ g₂) entries entries')
    (hu : List.Forall₂ (TwinUpdates h n₁ n₂ g₁ g₂) updates updates') :
    List.Forall₂ (TwinEntries h n₁ n₂ g₁ g₂) (g₁.commit entries updates) (g₂.commit entries' updates') := by
  induction hu generalizing entries entries' with
  | nil => exact he
  | @cons u u' rest rest' hu _ ih =>
    obtain ⟨key, value⟩ := u
    obtain ⟨key', value'⟩ := u'
    obtain ⟨hk, hv⟩ := hu
    refine ih ?_
    rw [ha.findKey? hc he hk]
    cases hv with
    | @some v w hv =>
      cases g₁.findKey? key entries with
      | none => exact List.rel_append he (.cons ⟨hk.bare, hk.twin, hv.twin⟩ .nil)
      | some i =>
        exact forall₂_modify (k := fun e => (e.1, v)) (l := fun e => (e.1, w)) he
          (fun _ _ hee => ⟨hee.bare, hee.key, hv.twin⟩) i
    | none =>
      cases g₁.findKey? key entries with
      | none => exact he
      | some i => exact forall₂_eraseIdx he i

end Abreast

/-- On heaps that have grown from one, messages hold the same that are twins. -/
theorem flushAlike_of_grows (hc : h.Closed) (hg₁ : h.Grows g₁) (hg₂ : h.Grows g₂) :
    FlushAlike h n₁ n₂ g₁ g₂ g₁.contents g₂.contents :=
  ⟨fun hq => (hq.contents hc hg₁ hg₂).1, fun hq hm => (hq.contents hc hg₁ hg₂).2.trans hm⟩

/-- **A view of a list field that is made** of twins would store what its twin would store. -/
theorem Abreast.newRepeated (hc : h.Closed) (ha : Abreast h n₁ n₂ g₁ g₂) {c c' : RepeatedCell}
    (hcc : TwinLists h n₁ n₂ g₁ g₂ c c') {s : Stored}
    (hs : (g₁.alloc .repeated c).repeatedContents (g₁.fresh .repeated) = .ok s) :
    (g₂.alloc .repeated c').repeatedContents (g₂.fresh .repeated) = .ok s := by
  have hgrow (g : Heap) (c : RepeatedCell) : g.Grows (g.alloc .repeated c) :=
    g.grows_alloc (s := .repeated) (by decide) c
  unfold repeatedContents at hs ⊢
  rw [cell_alloc_self g₁ (s := .repeated)] at hs
  rw [cell_alloc_self g₂ (s := .repeated)]
  exact (hcc.mono fun hv => hv.keep (hgrow g₁ c).keepsMessages (hgrow g₂ c').keepsMessages).toStored
    (flushAlike_of_grows hc (ha.left.trans (hgrow g₁ c)) (ha.right.trans (hgrow g₂ c'))) hs

/-- **A view of a map field that is made** of twins would store what its twin would store. -/
theorem Abreast.newMap (hc : h.Closed) (ha : Abreast h n₁ n₂ g₁ g₂) {c c' : MapCell}
    (hcc : TwinMaps h n₁ n₂ g₁ g₂ c c') {s : Stored}
    (hs : (g₁.alloc .map c).mapContents (g₁.fresh .map) = .ok s) :
    (g₂.alloc .map c').mapContents (g₂.fresh .map) = .ok s := by
  have hgrow (g : Heap) (c : MapCell) : g.Grows (g.alloc .map c) := g.grows_alloc (s := .map) (by decide) c
  unfold mapContents at hs ⊢
  rw [cell_alloc_self g₁ (s := .map)] at hs
  rw [cell_alloc_self g₂ (s := .map)]
  exact (hcc.mono fun hv => hv.keep (hgrow g₁ c).keepsMessages (hgrow g₂ c').keepsMessages).toStored
    (flushAlike_of_grows hc (ha.left.trans (hgrow g₁ c)) (ha.right.trans (hgrow g₂ c'))) hs

/-! ## Values that stand for others -/

/-- Whether the check of a value for a field, on one heap, finds what the check of another value finds on
another heap. -/
inductive StandsFor (b₁ b₂ : Heap) (f : FieldDescriptor) (config : Config) : Value → Value → Prop
  | absent : StandsFor b₁ b₂ f config .absent .absent
  | single {x y : Value} (hmap : f.isMap = false) (hlist : f.isList = false) (hx : x ≠ .absent)
    (hy : y ≠ .absent) (hxy : ∀ {s}, b₁.check f.kind config x = .ok s → b₂.check f.kind config y = .ok s) :
    StandsFor b₁ b₂ f config x y
  | list {x y : Value} {xs ys : List Value} (hlist : f.isList = true) (hy : y.isSequence = true)
    (hxs : b₁.iterate x = .ok xs) (hys : b₂.iterate y = .ok ys)
    (hxy : ∀ {ss}, xs.mapM (b₁.check f.kind config) = .ok ss → ys.mapM (b₂.check f.kind config) = .ok ss) :
    StandsFor b₁ b₂ f config x y
  | map {x y : Value} {xs ys : List (Value × Value)} (hmap : f.isMap = true)
    (hxs : b₁.mappingEntries? x = some xs) (hys : b₂.mappingEntries? y = some ys)
    (hxy : ∀ {us}, xs.mapM (b₁.checkUpdate { field := f, config := config }) = .ok us →
      ys.mapM (b₂.checkUpdate { field := f, config := config }) = .ok us) :
    StandsFor b₁ b₂ f config x y

end Heap

namespace Script

variable {h b₁ b₂ g₁ g₂ : Heap} {f : FieldDescriptor} {config : Config} {x y : Value}
  (hc : h.Closed) (hb₁ : b₁.Closed) (hb₂ : b₂.Closed) (hh₁ : h.Grows b₁) (hh₂ : h.Grows b₂)
  (hg₁ : b₁.Grows g₁) (hg₂ : b₂.Grows g₂) (hx : x.Within b₁) (hy : y.Within b₂)

include hc hb₁ hb₂ hh₁ hh₂ hg₁ hg₂ hx hy

/-- Items that are checked alike make lists that are stored alike. -/
theorem storedFor_list_inStep {xs ys : List Value} (hlist : f.isList = true) (hsequence : y.isSequence = true)
    (hxs : b₁.iterate x = .ok xs) (hys : b₂.iterate y = .ok ys)
    (hxy : ∀ {ss}, xs.mapM (b₁.check f.kind config) = .ok ss → ys.mapM (b₂.check f.kind config) = .ok ss) :
    InStep g₁ g₂ (storedFor f x config) (storedFor f y config) fun _ _ s t => t = s := by
  intro stored k₁ hrun
  obtain ⟨items, checked, mid, s, hi, hchecked, rfl, hs, rfl⟩ :=
    (storedFor_list hlist (isSequence_of_storedFor hlist hrun)).1 hrun
  obtain rfl := Except.ok.inj ((hg₁.iterate hx hxs).symm.trans hi)
  obtain ⟨ss, hss, hmake⟩ := ((normalizeAll_performs hb₁ (hb₁.iterate hx hxs)).ok_iff hg₁).1 hchecked
  -- the same items are made on the other heap, so that the new lists hold twins
  have hmade := (Heap.Abreast.of_grows (hh₁.trans hg₁) (hh₂.trans hg₂)).makeItems f.kind config
    (Heap.singles_of_check hss)
  rcases hmake' : g₂.makeAll (·.adopt f.kind config) ss with ⟨checked', mid'⟩
  rw [hmake, hmake'] at hmade
  obtain ⟨hk₁, hk₂, habreast, htwins⟩ := hmade
  have hchecked' := ((normalizeAll_performs hb₂ (hb₂.iterate hy hys)).ok_iff hg₂).2 ⟨ss, hxy hss, hmake'⟩
  have hlists : h.TwinLists _ _ mid mid' { field := f, items := checked, config := config }
    { field := f, items := checked', config := config } := ⟨rfl, rfl, htwins.imp fun _ _ hv => hv.twin⟩
  have hstored := habreast.newRepeated hc hlists hs
  exact ⟨some s, _, (storedFor_list hlist hsequence).2 ⟨ys, checked', mid', s, hg₂.iterate hy hys,
    hchecked', rfl, hstored, rfl⟩, hk₁.trans (mid.grows_alloc (s := .repeated) (by decide) _),
    hk₂.trans (mid'.grows_alloc (s := .repeated) (by decide) _), rfl⟩

/-- Entries that are checked alike make maps that are stored alike. -/
theorem storedFor_map_inStep {xs ys : List (Value × Value)} (hmap : f.isMap = true)
    (hxs : b₁.mappingEntries? x = some xs) (hys : b₂.mappingEntries? y = some ys)
    (hxy : ∀ {us}, xs.mapM (b₁.checkUpdate { field := f, config := config }) = .ok us →
      ys.mapM (b₂.checkUpdate { field := f, config := config }) = .ok us) :
    InStep g₁ g₂ (storedFor f x config) (storedFor f y config) fun _ _ s t => t = s := by
  intro stored k₁ hrun
  obtain ⟨entries, updates, mid, s, hi, hchecked, rfl, hs, rfl⟩ :=
    (storedFor_map hmap (isMapping_of_storedFor hmap hrun)).1 hrun
  obtain rfl := Option.some.inj (((hg₁.mappingEntries? hx).trans hxs).symm.trans hi)
  obtain ⟨us, hus, hmake⟩ := ((checkPairs_performs hb₁ (hb₁.mappingEntries hx hxs)).ok_iff hg₁).1 hchecked
  -- the same updates are made on the other heap, so that the new maps hold twins
  have hmade := (Heap.Abreast.of_grows (hh₁.trans hg₁) (hh₂.trans hg₂)).makeUpdates
    { field := f, config := config } (Heap.singles_of_checkUpdate hus)
  rcases hmake' : g₂.makeAll (·.adoptUpdate { field := f, config := config }) us with ⟨updates', mid'⟩
  rw [hmake, hmake'] at hmade
  obtain ⟨hk₁, hk₂, habreast, htwins⟩ := hmade
  have hchecked' :=
    ((checkPairs_performs hb₂ (hb₂.mappingEntries hy hys)).ok_iff hg₂).2 ⟨us, hxy hus, hmake'⟩
  have hmaps : h.TwinMaps _ _ mid mid' { field := f, entries := mid.commit [] updates, config := config }
    { field := f, entries := mid'.commit [] updates', config := config } :=
    ⟨rfl, rfl, habreast.commit hc .nil htwins⟩
  have hstored := habreast.newMap hc hmaps hs
  exact ⟨some s, _, (storedFor_map hmap (Heap.isMapping_of_mappingEntries? hys)).2 ⟨ys, updates', mid', s,
    (hg₂.mappingEntries? hy).trans hys, hchecked', rfl, hstored, rfl⟩,
    hk₁.trans (mid.grows_alloc (s := .map) (by decide) _),
    hk₂.trans (mid'.grows_alloc (s := .map) (by decide) _), rfl⟩

/-- **What stands for a value is stored as the value is**, on heaps that have grown since. -/
theorem storedFor_inStep (hxy : Heap.StandsFor b₁ b₂ f config x y) :
    InStep g₁ g₂ (storedFor f x config) (storedFor f y config) fun _ _ s t => t = s := by
  cases hxy with
  | absent =>
    intro stored k₁ hrun
    by_cases hmap : f.isMap = true
    · cases isMapping_of_storedFor hmap hrun
    by_cases hlist : f.isList = true
    · cases isSequence_of_storedFor hlist hrun
    -- whether a field can be unset is a property of the field alone
    rw [storedFor_single (by simpa using hmap) (by simpa using hlist)] at hrun ⊢
    unfold scalarFor at hrun ⊢
    dsimp only at hrun ⊢
    split at hrun
    · rename_i hunset
      cases hrun
      rw [if_pos hunset]
      exact ⟨none, g₂, rfl, .refl ∅ g₁, .refl ∅ g₂, rfl⟩
    · cases hrun
  | single hmap hlist habsent habsent' hxy =>
    intro stored k₁ hrun
    rw [storedFor_single hmap hlist, scalarFor_of_ne habsent] at hrun
    rw [storedFor_single hmap hlist, scalarFor_of_ne habsent']
    obtain ⟨s, _, hreading, hrun⟩ := bind_ok.1 hrun
    obtain ⟨hs, rfl⟩ := reading_ok.1 hreading
    cases hrun
    rw [hg₁.toStored hb₁ hx, ← Heap.check_eq_toStored habsent] at hs
    have ht := hxy hs
    rw [Heap.check_eq_toStored habsent', ← hg₂.toStored hb₂ hy] at ht
    exact ⟨some s, g₂, bind_ok.2 ⟨s, g₂, reading_ok.2 ⟨ht, rfl⟩, rfl⟩, .refl ∅ g₁, .refl ∅ g₂, rfl⟩
  | list hlist hsequence hxs hys hxy =>
    exact storedFor_list_inStep hc hb₁ hb₂ hh₁ hh₂ hg₁ hg₂ hx hy hlist hsequence hxs hys hxy
  | map hmap hxs hys hxy =>
    exact storedFor_map_inStep hc hb₁ hb₂ hh₁ hh₂ hg₁ hg₂ hx hy hmap hxs hys hxy

omit hb₁ hb₂ hh₁ hh₂ hg₁ hg₂ hx hy

omit hc in
/-- A value that is stored stands for itself. -/
theorem standsFor_self {stored : Option Stored} {k₁ : Heap}
    (hrun : (storedFor f x config).run g₁ = (.ok stored, k₁)) : h.StandsFor h f config x x := by
  by_cases hmap : f.isMap = true
  · obtain ⟨xs, hxs⟩ : ∃ xs, h.mappingEntries? x = some xs := by
      have hmapping := isMapping_of_storedFor hmap hrun
      cases x <;> cases hmapping <;> exact ⟨_, rfl⟩
    exact .map hmap hxs hxs id
  by_cases hlist : f.isList = true
  · have hsequence := isSequence_of_storedFor hlist hrun
    obtain ⟨xs, hxs⟩ : ∃ xs, h.iterate x = .ok xs := by
      cases x <;> cases hsequence <;> exact ⟨_, rfl⟩
    exact .list hlist hsequence hxs hxs id
  by_cases habsent : x = .absent
  · subst habsent
    exact .absent
  · exact .single (by simpa using hmap) (by simpa using hlist) habsent habsent id

/-- **A value is stored as the same** on all heaps that have grown from its own. -/
theorem storedFor_inStep_self (hv : x.Within h) (hg₁ : h.Grows g₁) (hg₂ : h.Grows g₂) :
    InStep g₁ g₂ (storedFor f x config) (storedFor f x config) fun _ _ s t => t = s := fun _ _ hrun =>
  storedFor_inStep hc hc hc (.refl ∅ h) (.refl ∅ h) hg₁ hg₂ hv hv (standsFor_self hrun) hrun

end Script

end Protoscript
