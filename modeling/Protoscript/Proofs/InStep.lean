import Protoscript.Proofs.Copying
import Protoscript.Proofs.Editing
import Protoscript.Proofs.ReadBack

/-!
# Checks that run in step

The checks of a type depend on the values that they are given and on what these lead to, but on nothing
else on the heap. So the same checks, run on two heaps where this is the same, succeed together and
make values that are stored as the same data.

* `Heap.StoredAlike` — whether two heaps store a value alike;
* `Heap.Pristine` — whether a message holds something and keeps no views;
* `Heap.Agree` — whether two values, each on its heap, show the same stored data;
* `Script.InStep` — whether a run succeeds if another one does, with results that are related;
* `Script.normalizeAll_inStep`, `Script.checkPairs_inStep` — the checks of lists and maps;
* `Heap.commit_related` — updates of two mappings that agree.
-/

namespace Protoscript

variable {p : Pool}

namespace Heap

variable {h h' g g' : Heap} {kind : Kind} {config : Config} {v w : Value}

/-! ## What values lead to -/

/-- Two heaps are alike on what a value leads to, if no cell there was altered. -/
theorem matches_of_leads (hc : h.Closed) (hv : v.Within h) (hkeeps : h.KeepsTypes h')
    (hsame : ∀ q, h.Leads v q → h'.cell q.2 = h.cell q.2) :
    Matches .eq 0 {q | h.Leads v q} h h' := by
  have hhas {q : Place} (hq : h.Leads v q) : h.Has q := hq.has hc hv
  refine ⟨fun hq => ⟨hhas hq, (hkeeps _ (hhas hq)).1⟩, fun hq => ?_, fun hq => .inl ?_,
    fun hq => congrArg Cell.freeze (hsame _ hq), fun hq => congrArg Cell.freeze (hsame _ hq),
    fun hq hw q' hq' => ⟨?_, .inl (hq.tail hw hq')⟩,
    fun _ _ _ hm _ => .of_eq (fun _ _ => rfl) (by rw [hm])⟩
  · exact congrArg MessageDescriptor.fullName (hkeeps.message hq)
  · exact ⟨congrArg MessageCell.content (hsame _ hq).symm, congrArg MessageCell.views (hsame _ hq)⟩
  · exact hhas (hq.tail hw hq')

/-- So a type stores it alike. -/
theorem toStored_of_leads (hc : h.Closed) (hv : v.Within h) (hkeeps : h.KeepsTypes h')
    (hsame : ∀ q, h.Leads v q → h'.cell q.2 = h.cell q.2) :
    h'.toStored kind v config = h.toStored kind v config := by
  have hS := matches_of_leads hc hv hkeeps hsame
  refine (Kind.toStored_alike (L := .eq) fun q hq => ?_).eq
  have hlead : h.Leads v ⟨.message, q⟩ := .here (hq ▸ rfl)
  refine ⟨hS.name (hlead.has hc hv), fun d _ => ?_⟩
  rw [(hS.contents hlead (Nat.zero_le _)).eq]
  exact .of_eq (fun _ _ => rfl) rfl

theorem Grows.toStored (hg : h.Grows h') (hc : h.Closed) (hv : v.Within h) :
    h'.toStored kind v config = h.toStored kind v config :=
  toStored_of_leads hc hv hg.lasts.keepsTypes fun _ hq => hg.cell (hq.has hc hv)

/-- Whether two heaps store a value alike, whatever it is stored as. -/
structure StoredAlike (h h' : Heap) (v : Value) : Prop where
  left : v.Within h
  right : v.Within h'
  same (kind : Kind) (config : Config) : h'.toStored kind v config = h.toStored kind v config

/-- So they do if the cells that it leads to are as they were. -/
theorem StoredAlike.of_leads (hc : h.Closed) (hv : v.Within h) (hkeeps : h.KeepsTypes h')
    (hsame : ∀ q, h.Leads v q → h'.cell q.2 = h.cell q.2) : h.StoredAlike h' v :=
  ⟨hv, hv.mono fun q hq => (hkeeps q hq).1, fun _ _ => toStored_of_leads hc hv hkeeps hsame⟩

theorem StoredAlike.symm (hv : h.StoredAlike h' v) : h'.StoredAlike h v :=
  ⟨hv.right, hv.left, fun kind config => (hv.same kind config).symm⟩

/-! ## Messages that keep no views -/

/-- Whether a message holds something and keeps no views. -/
structure Pristine (h : Heap) (config : Config) (r : Ref .message) (m : Message) : Prop where
  has : h.Has ⟨.message, r⟩
  content : (h.cell r).content = m
  views : (h.cell r).views = []
  config : (h.cell r).config = config

theorem Pristine.contents {config : Config} {r : Ref .message} {m : Message}
    (hr : h.Pristine config r m) : h.contents r = .ok m := by
  rw [contents_of_views_eq_nil hr.views, hr.content]

/-- What shows a message is one that keeps no views. -/
theorem shows_message {kind : Kind} {config : Config} {m : Message} {v : Value} :
    h.Shows kind config (.message m) v ↔ ∃ q, v = .message q ∧ h.Pristine config q m :=
  ⟨fun ⟨q, hv, hq, hcontent, hviews, hconfig⟩ => ⟨q, hv, hq, hcontent, hviews, hconfig⟩,
    fun ⟨q, hv, hq⟩ => ⟨q, hv, hq.has, hq.content, hq.views, hq.config⟩⟩

/-- Only a message is shown by one. -/
theorem Shows.exists_message {kind : Kind} {config : Config} {s : Stored} {q : Ref .message}
    (hv : h.Shows kind config s (.message q)) : ∃ m, s = .message m ∧ h.Pristine config q m := by
  cases s with
  | message m =>
    obtain ⟨q', hq', hpristine⟩ := shows_message.1 hv
    cases hq'
    exact ⟨m, rfl, hpristine⟩
  | scalar s =>
    have hnone := congrArg Value.ref? (show Value.message q = s.toValue kind from hv)
    rw [Scalar.ref?_toValue] at hnone
    cases hnone
  | list items =>
    obtain ⟨_, he, -⟩ := hv
    cases he
  | map entries =>
    obtain ⟨_, he, -⟩ := hv
    cases he

/-! ## Values that show the same -/

/-- Whether two values, each on its heap, show the same stored value of a type. -/
def Agree (h h' : Heap) (kind : Kind) (config : Config) (v w : Value) : Prop :=
  ∃ s, kind.Holds s ∧ h.Shows kind config s v ∧ h'.Shows kind config s w

/-- Whether the messages of a heap are on another one as they were. -/
def KeepsMessages (h h' : Heap) : Prop :=
  ∀ q : Ref .message, h.Has ⟨.message, q⟩ → h'.Has ⟨.message, q⟩ ∧ h'.cell q = h.cell q

theorem Grows.keepsMessages (hg : h.Grows h') : h.KeepsMessages h' :=
  fun _ hq => ⟨hg.has hq, hg.cell hq⟩

theorem keepsMessages_put {s : Shelf} (hs : s ≠ .message) (r : Ref s) (c : Cell s) :
    h.KeepsMessages (h.put r c) :=
  fun q hq => ⟨has_put.2 hq, cell_put_of_shelf_ne h hs.symm r q c⟩

theorem Shows.keep {s : Stored} (hs : kind.Holds s) (hv : h.Shows kind config s v)
    (hg : h.KeepsMessages g) : g.Shows kind config s v := by
  cases hs with
  | scalar => exact hv
  | message =>
    obtain ⟨q, rfl, hq, hcontent, hviews, hconfig⟩ := hv
    obtain ⟨hhas, hcell⟩ := hg q hq
    exact ⟨q, rfl, hhas, hcell ▸ hcontent, hcell ▸ hviews, hcell ▸ hconfig⟩

theorem Agree.keep (ha : h.Agree h' kind config v w) (hg : h.KeepsMessages g)
    (hg' : h'.KeepsMessages g') : g.Agree g' kind config v w := by
  obtain ⟨s, hs, hv, hw⟩ := ha
  exact ⟨s, hs, hv.keep hs hg, hw.keep hs hg'⟩

/-- **Values that show the same** are stored as the same, whatever the configuration. -/
theorem Agree.toStored (ha : h.Agree h' kind config v w) :
    ∃ t, ∀ config', h.toStored kind v config' = .ok t ∧ h'.toStored kind w config' = .ok t := by
  obtain ⟨s, hs, hv, hw⟩ := ha
  cases hs with
  | @scalar kind s hs =>
    obtain rfl : v = s.toValue kind := hv
    obtain rfl : w = s.toValue kind := hw
    obtain ⟨t, ht, -⟩ := Kind.scalarToStored_toValue hs
    exact ⟨.scalar t, fun _ =>
      ⟨Kind.toStored_of_scalarToStored ht, Kind.toStored_of_scalarToStored ht⟩⟩
  | @message d m hd hm =>
    have stored {k : Heap} {u : Value} (hu : k.Shows (.message d) config (.message m) u)
        (config' : Config) : k.toStored (.message d) u config' = .ok (.message m) := by
      obtain ⟨q, rfl, hq, hcontent, hviews, -⟩ := hu
      refine toStored_message (hcontent ▸ hd) ?_ hd
      rw [contents_of_views_eq_nil hviews, hcontent]
    exact ⟨.message m, fun config' => ⟨stored hv config', stored hw config'⟩⟩

/-- Values of a type that can be a key show the same only if they are the same. -/
theorem Agree.exists_key (ha : h.Agree h' kind config v w) (hkey : kind.isKey = true) :
    ∃ key : MapKey, kind.HoldsKey key ∧ v = key.toValue ∧ w = key.toValue := by
  obtain ⟨s, hs, hv, hw⟩ := ha
  cases hs with
  | scalar hs =>
    obtain ⟨key, rfl⟩ := hs.exists_key hkey
    rw [show v = key.toScalar.toValue kind from hv, show w = key.toScalar.toValue kind from hw,
      ← MapKey.toValue_eq]
    exact ⟨key, hs, rfl, rfl⟩
  | message => cases hkey

/-- A message is read into a new cell. -/
theorem shows_newMessage (h : Heap) (kind : Kind) (m : Message) (config : Config) :
    h.Grows (h.newMessage m config).2 ∧
      (h.newMessage m config).2.Shows kind config (.message m) (h.newMessage m config).1 := by
  have hcell : (h.newMessage m config).2.cell (h.fresh .message) = { content := m, config := config } :=
    cell_alloc_self h (s := .message) _
  exact ⟨h.grows_alloc_message rfl, h.fresh .message, rfl, has_fresh_alloc h .message _,
    congrArg MessageCell.content hcell, congrArg MessageCell.views hcell,
    congrArg MessageCell.config hcell⟩

/-- A stored value of a type is read as one that shows it. -/
theorem shows_adopt (h : Heap) (config : Config) {s : Stored} (hs : kind.Holds s) :
    h.Grows (h.adopt kind config s).2 ∧
      (h.adopt kind config s).2.Shows kind config s (h.adopt kind config s).1 := by
  cases hs with
  | scalar =>
    rw [adopt]
    exact ⟨.refl ∅ h, rfl⟩
  | message =>
    rw [adopt]
    exact h.shows_newMessage _ _ config

/-- Whether two entries of mappings, each on its heap, agree. -/
structure EntriesAgree (h h' : Heap) (f : FieldDescriptor) (config : Config) (e e' : Value × Value) :
    Prop where
  key : h.Agree h' f.keyKind config e.1 e'.1
  value : h.Agree h' f.valueKind config e.2 e'.2

/-- Whether two updates, each on its heap, set a key to values that agree, or both remove it. -/
structure UpdatesAgree (h h' : Heap) (f : FieldDescriptor) (config : Config)
    (u u' : Value × Option Value) : Prop where
  key : h.Agree h' f.keyKind config u.1 u'.1
  value : Option.Rel (h.Agree h' f.valueKind config) u.2 u'.2

theorem UpdatesAgree.keep {f : FieldDescriptor} {u u' : Value × Option Value}
    (hu : h.UpdatesAgree h' f config u u') (hg : h.KeepsMessages g) (hg' : h'.KeepsMessages g') :
    g.UpdatesAgree g' f config u u' := by
  obtain ⟨key, value⟩ := u
  obtain ⟨key', value'⟩ := u'
  obtain ⟨hkey, hvalue⟩ := hu
  refine ⟨hkey.keep hg hg', ?_⟩
  cases hvalue with
  | some hv => exact .some (hv.keep hg hg')
  | none => exact .none

end Heap

/-! ## Runs in step -/

namespace Script

variable {h₁ h₂ g₁ g₂ : Heap} {α β : Type}

/-- Whether a run succeeds if another one does, both of which only make cells, and the results are
related. -/
def InStep (h₁ h₂ : Heap) (s₁ s₂ : Script α) (R : Heap → Heap → α → α → Prop) : Prop :=
  ∀ ⦃a₁ g₁⦄, s₁.run h₁ = (.ok a₁, g₁) →
    ∃ a₂ g₂, s₂.run h₂ = (.ok a₂, g₂) ∧ h₁.Grows g₁ ∧ h₂.Grows g₂ ∧ R g₁ g₂ a₁ a₂

namespace InStep

variable {s₁ s₂ : Script α} {f₁ f₂ : α → Script β} {R S : Heap → Heap → α → α → Prop}
  {T : Heap → Heap → β → β → Prop} {a₁ a₂ : α}

theorem pure (ha : R h₁ h₂ a₁ a₂) : InStep h₁ h₂ (pure a₁) (pure a₂) R := by
  intro _ _ hrun
  cases hrun
  exact ⟨a₂, h₂, rfl, .refl ∅ h₁, .refl ∅ h₂, ha⟩

theorem throw {e e' : Error} : InStep h₁ h₂ (throw e : Script α) (throw e') R := by
  intro _ _ hrun
  cases hrun

theorem bind (hs : InStep h₁ h₂ s₁ s₂ R)
    (hf : ∀ g₁ g₂ a₁ a₂, h₁.Grows g₁ → h₂.Grows g₂ → R g₁ g₂ a₁ a₂ →
      InStep g₁ g₂ (f₁ a₁) (f₂ a₂) T) : InStep h₁ h₂ (s₁ >>= f₁) (s₂ >>= f₂) T := by
  intro b₁ k₁ hrun
  obtain ⟨a₁, g₁, hfirst, hrest⟩ := bind_ok.1 hrun
  obtain ⟨a₂, g₂, hsecond, hg₁, hg₂, hR⟩ := hs hfirst
  obtain ⟨b₂, k₂, hlast, hk₁, hk₂, hT⟩ := hf g₁ g₂ a₁ a₂ hg₁ hg₂ hR hrest
  exact ⟨b₂, k₂, bind_ok.2 ⟨a₂, g₂, hsecond, hlast⟩, hg₁.trans hk₁, hg₂.trans hk₂, hT⟩

/-- Runs for all elements of a list, one after another. What was related stays so while cells are
made. -/
theorem mapM {ι : Type} {f : ι → Script α} {xs : List ι}
    (hkeep : ∀ {h₁ h₂ g₁ g₂ a₁ a₂}, h₁.Grows g₁ → h₂.Grows g₂ → R h₁ h₂ a₁ a₂ → R g₁ g₂ a₁ a₂)
    (hf : ∀ x ∈ xs, ∀ g₁ g₂, h₁.Grows g₁ → h₂.Grows g₂ → InStep g₁ g₂ (f x) (f x) R) :
    InStep h₁ h₂ (xs.mapM f) (xs.mapM f) fun g₁ g₂ => List.Forall₂ (R g₁ g₂) := by
  induction xs generalizing h₁ h₂ with
  | nil =>
    rw [List.mapM_nil]
    exact .pure .nil
  | cons x rest ih =>
    rw [List.mapM_cons]
    refine .bind (hf x List.mem_cons_self h₁ h₂ (.refl ∅ h₁) (.refl ∅ h₂))
      fun g₁ g₂ a₁ a₂ hg₁ hg₂ ha => ?_
    have hrest := ih fun y hy k₁ k₂ hk₁ hk₂ =>
      hf y (List.mem_cons_of_mem _ hy) k₁ k₂ (hg₁.trans hk₁) (hg₂.trans hk₂)
    exact .bind hrest fun k₁ k₂ as₁ as₂ hk₁ hk₂ has => .pure (.cons (hkeep hk₁ hk₂ ha) has)

end InStep

/-! ## Checks -/

variable {kind : Kind} {config : Config} {v : Value}

/-- What can be stored is a message, or refers to nothing. -/
theorem plain_of_toStored {h : Heap} {s : Stored} (hs : h.toStored kind v config = .ok s) :
    (∃ r, v = .message r) ∨ v ≠ .absent ∧ (∀ items, v ≠ .tuple items) ∧ v.ref? = none := by
  rcases Kind.toStored_ok hs with ⟨x, -, hx⟩ | ⟨d, m, -, -, hm⟩
  · exact .inr (Kind.ref?_of_scalarToStored hx)
  · rcases MessageDescriptor.toStored_cases hm with ⟨r, n, hr, -⟩ | ⟨-, -, hbox⟩
    · exact .inl ⟨r, hr⟩
    · obtain ⟨f, x, -, hx, -⟩ := MessageDescriptor.box_ok.1 hbox
      exact .inr (Kind.ref?_of_scalarToStored hx)

/-- The absent value is stored as nothing. -/
theorem toStored_absent {h : Heap} {s : Stored} : h.toStored kind .absent config ≠ .ok s := by
  intro hs
  rcases plain_of_toStored hs with ⟨r, hr⟩ | ⟨habsent, -⟩
  · cases hr
  · exact habsent rfl

/-- **What a check does**: the value is stored, and what is stored is read. -/
theorem normalize_ok {h g : Heap} {w : Value} : (normalize kind v config).run h = (.ok w, g) ↔
    ∃ s, h.toStored kind v config = .ok s ∧ h.adopt kind config s = (w, g) := by
  by_cases habsent : v = .absent
  · subst habsent
    refine ⟨fun hrun => ?_, fun ⟨s, hs, _⟩ => absurd hs toStored_absent⟩
    cases hrun
  · have hcheck : normalize kind v config = (do
        let stored ← reading (·.toStored kind v config)
        modifyGet (·.adopt kind config stored)) := by
      cases v <;> first | rfl | exact absurd rfl habsent
    rw [hcheck, bind_ok]
    constructor
    · rintro ⟨s, mid, hreading, hrun⟩
      obtain ⟨hs, rfl⟩ := Prod.mk.inj hreading
      cases hrun
      exact ⟨s, hs, rfl⟩
    · rintro ⟨s, hs, ha⟩
      refine ⟨s, h, Prod.ext hs rfl, ?_⟩
      rw [run_modifyGet, ha]

section

variable {b₁ b₂ : Heap} (hb₁ : Heap.Reachable {p} b₁) (hb₂ : b₂.Closed)

include hb₁ hb₂

/-- **A check of a value that two heaps store alike** goes the same way on heaps that come after
them. -/
theorem normalize_inStep (hk : kind.Of p) (hv : b₁.StoredAlike b₂ v) (hg₁ : b₁.Grows h₁)
    (hg₂ : b₂.Grows h₂) : InStep h₁ h₂ (normalize kind v config) (normalize kind v config)
      fun g₁ g₂ => g₁.Agree g₂ kind config := by
  intro w₁ k₁ hrun
  obtain ⟨s, hs, ha⟩ := normalize_ok.1 hrun
  rw [hg₁.toStored hb₁.closed hv.left] at hs
  have hholds : kind.Holds s :=
    Kind.holds_toStored hk (hb₁.typed.gives (hb₁.typed.flushes hb₁.closed) hv.left) hs
  have hs₂ : h₂.toStored kind v config = .ok s := by
    rw [hg₂.toStored hb₂ hv.right, hv.same, hs]
  obtain ⟨hgrow₁, hshows₁⟩ := h₁.shows_adopt config hholds
  obtain ⟨hgrow₂, hshows₂⟩ := h₂.shows_adopt config hholds
  rw [ha] at hgrow₁ hshows₁
  exact ⟨_, _, normalize_ok.2 ⟨s, hs₂, rfl⟩, hgrow₁, hgrow₂, s, hholds, hshows₁, hshows₂⟩

theorem normalizeAll_inStep (hk : kind.Of p) {values : List Value}
    (hv : ∀ v ∈ values, b₁.StoredAlike b₂ v) :
    InStep b₁ b₂ (normalizeAll kind values config) (normalizeAll kind values config)
      fun g₁ g₂ => List.Forall₂ (g₁.Agree g₂ kind config) :=
  .mapM (fun hg₁ hg₂ ha => ha.keep hg₁.keepsMessages hg₂.keepsMessages) fun v hmem _ _ hg₁ hg₂ =>
    normalize_inStep hb₁ hb₂ hk (hv v hmem) hg₁ hg₂

/-- **Pairs that two heaps store alike** make updates that agree. -/
theorem checkPairs_inStep {c : MapCell} (hf : c.field.Of p) {pairs : List (Value × Value)}
    (hv : ∀ e ∈ pairs, b₁.StoredAlike b₂ e.1 ∧ b₁.StoredAlike b₂ e.2) :
    InStep b₁ b₂ (checkPairs c pairs) (checkPairs c pairs)
      fun g₁ g₂ => List.Forall₂ (g₁.UpdatesAgree g₂ c.field c.config) := by
  refine .mapM (fun hg₁ hg₂ hu => hu.keep hg₁.keepsMessages hg₂.keepsMessages)
    fun e hmem h₁ h₂ hg₁ hg₂ => ?_
  obtain ⟨hkey, hvalue⟩ := hv e hmem
  refine .bind (normalize_inStep hb₁ hb₂ hf.keyKind hkey hg₁ hg₂)
    fun k₁ k₂ key₁ key₂ hk₁ hk₂ hkeys => ?_
  split
  · split
    · exact .pure ⟨hkeys, .none⟩
    · exact .throw
  · refine .bind (normalize_inStep hb₁ hb₂ hf.valueKind hvalue (hg₁.trans hk₁) (hg₂.trans hk₂))
      fun l₁ l₂ v₁ v₂ hl₁ hl₂ hvalues => ?_
    exact .pure ⟨hkeys.keep hl₁.keepsMessages hl₂.keepsMessages, .some hvalues⟩

end

end Script

/-! ## Updates -/

namespace Heap

variable {h h' : Heap} {f : FieldDescriptor} {config : Config}

/-- Whether keys are equal does not depend on the heap. -/
theorem keysEqual_toValue_congr (h h' : Heap) (a b : MapKey) :
    h'.keysEqual a.toValue b.toValue = h.keysEqual a.toValue b.toValue := by
  cases a <;> cases b <;>
    simp [MapKey.toValue, keysEqual, equals, equalsWithin, sequenceItems?, mappingEntries?, flatEquals]

section

variable {entries entries' : List (Value × Value)} {key key' : Value}
  (hkey : f.keyKind.isKey = true)
  (he : List.Forall₂ (h.EntriesAgree h' f config) entries entries')

include hkey he

/-- A key is found at the same place. -/
theorem findKey?_related (hk : h.Agree h' f.keyKind config key key') :
    h'.findKey? key' entries' = h.findKey? key entries := by
  obtain ⟨k, -, rfl, rfl⟩ := hk.exists_key hkey
  unfold findKey?
  induction he with
  | nil => rfl
  | cons hd _ ih =>
    obtain ⟨l, -, hl, hl'⟩ := hd.key.exists_key hkey
    rw [List.findIdx?_cons, List.findIdx?_cons, ih, hl, hl', keysEqual_toValue_congr h h']

end

theorem forall₂_modify {α β : Type} {R : α → β → Prop} {xs : List α} {ys : List β} {k : α → α}
    {l : β → β} (hR : List.Forall₂ R xs ys) (hkl : ∀ x y, R x y → R (k x) (l y)) (i : Nat) :
    List.Forall₂ R (xs.modify i k) (ys.modify i l) := by
  induction hR generalizing i with
  | nil => simp
  | cons hxy hrest ih =>
    cases i with
    | zero => exact .cons (hkl _ _ hxy) hrest
    | succ i => exact .cons hxy (ih i)

theorem forall₂_eraseIdx {α β : Type} {R : α → β → Prop} {xs : List α} {ys : List β}
    (hR : List.Forall₂ R xs ys) (i : Nat) : List.Forall₂ R (xs.eraseIdx i) (ys.eraseIdx i) := by
  induction hR generalizing i with
  | nil => simp
  | cons hxy hrest ih =>
    cases i with
    | zero => exact hrest
    | succ i => exact .cons hxy (ih i)

/-- **Updates that agree** leave entries that agree. -/
theorem commit_related (hkey : f.keyKind.isKey = true) {entries entries' : List (Value × Value)}
    {updates updates' : List (Value × Option Value)}
    (he : List.Forall₂ (h.EntriesAgree h' f config) entries entries')
    (hu : List.Forall₂ (h.UpdatesAgree h' f config) updates updates') :
    List.Forall₂ (h.EntriesAgree h' f config) (h.commit entries updates) (h'.commit entries' updates') := by
  -- on the updates; related keys are found at the same position
  induction hu generalizing entries entries' with
  | nil => exact he
  | @cons u u' rest rest' hu _ ih =>
    obtain ⟨key, value⟩ := u
    obtain ⟨key', value'⟩ := u'
    obtain ⟨hk, hv⟩ := hu
    refine ih ?_
    rw [findKey?_related hkey he hk]
    cases hv with
    | @some v w hv =>
      cases h.findKey? key entries with
      | none => exact List.rel_append he (.cons ⟨hk, hv⟩ .nil)
      | some i =>
        exact forall₂_modify (k := fun e => (e.1, v)) (l := fun e => (e.1, w)) he
          (fun _ _ hee => ⟨hee.key, hv⟩) i
    | none =>
      cases h.findKey? key entries with
      | none => exact he
      | some i => exact forall₂_eraseIdx he i

/-! ## What views would store -/

/-- Results of a function on one list and of another one on a related list. -/
theorem exists_mapM₂ {α β γ ε : Type} {R : α → β → Prop} {k : α → Except ε γ} {l : β → Except ε γ}
    {xs : List α} {ys : List β} (hR : List.Forall₂ R xs ys)
    (hkl : ∀ x y, R x y → ∃ c, k x = .ok c ∧ l y = .ok c) :
    ∃ cs, xs.mapM k = .ok cs ∧ ys.mapM l = .ok cs := by
  induction hR with
  | nil => exact ⟨[], rfl, rfl⟩
  | @cons x y xs ys hxy _ ih =>
    obtain ⟨c, hc, hc'⟩ := hkl x y hxy
    obtain ⟨cs, hcs, hcs'⟩ := ih
    refine ⟨c :: cs, Except.mapM_ok.2 (.cons hc (Except.mapM_ok.1 hcs)),
      Except.mapM_ok.2 (.cons hc' (Except.mapM_ok.1 hcs'))⟩

/-- **Views of lists whose items agree** would store the same. -/
theorem repeatedToStored_related {c c' : RepeatedCell} (hfield : c'.field = c.field)
    (hitems : List.Forall₂ (h.Agree h' c.kind config) c.items c'.items) :
    ∃ s, c.toStored h h.contents = .ok s ∧ c'.toStored h' h'.contents = .ok s := by
  have hkind : c'.kind = c.kind := congrArg FieldDescriptor.kind hfield
  obtain ⟨ts, hts, hts'⟩ := exists_mapM₂
    (k := fun v => c.kind.toStored h h.contents v c.config)
    (l := fun v => c'.kind.toStored h' h'.contents v c'.config) hitems fun v w hvw => by
      rw [hkind]
      obtain ⟨t, ht⟩ := hvw.toStored
      exact ⟨t, (ht c.config).1, (ht c'.config).2⟩
  exact ⟨.list ts, congrArg (Except.map Stored.list) hts, congrArg (Except.map Stored.list) hts'⟩

/-- **Views of maps whose entries agree** would store the same. -/
theorem mapToStored_related {c c' : MapCell} (hkey : c.field.keyKind.isKey = true)
    (hfield : c'.field = c.field)
    (hentries : List.Forall₂ (h.EntriesAgree h' c.field config) c.entries c'.entries) :
    ∃ s, c.toStored h h.contents = .ok s ∧ c'.toStored h' h'.contents = .ok s := by
  obtain ⟨ts, hts, hts'⟩ := exists_mapM₂ (k := c.storedEntry h h.contents)
    (l := c'.storedEntry h' h'.contents) hentries fun e e' hee => by
      obtain ⟨key, hholds, hk, hk'⟩ := hee.key.exists_key hkey
      obtain ⟨t, ht⟩ := hee.value.toStored
      refine ⟨(key, t), MapCell.storedEntry_ok.2 ⟨?_, (ht c.config).1⟩,
        MapCell.storedEntry_ok.2 ⟨?_, ?_⟩⟩
      · exact hk ▸ Kind.toMapKey_toValue hholds
      · rw [hfield]
        exact hk' ▸ Kind.toMapKey_toValue hholds
      · rw [hfield]
        exact (ht c'.config).2
  refine ⟨.map (mapOfEntries ts), ?_, ?_⟩
  · rw [MapCell.toStored_eq, hts]
    rfl
  · rw [MapCell.toStored_eq, hts']
    rfl

end Heap

end Protoscript
