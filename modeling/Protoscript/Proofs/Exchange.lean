import Protoscript.Proofs.Checking
import Protoscript.Proofs.Forking
import Protoscript.Proofs.Packing
import Protoscript.Proofs.Refilling

/-!
# Checks of messages of another pool

A message of another pool may stand where an equal one of the first pool does: it passes the checks of a
type that the other one passes, and what is made of it is alike. So heaps that are forked stay so.

* `Heap.Exchange` — whether a value may stand for another one;
* `Heap.Exchange.toStored` — what it is stored as is alike;
* `Script.Forks` — whether a run succeeds if another one does, and leaves forked heaps;
* `Script.Checks` — the same for runs that only make cells and give the same;
* `Script.normalizeAll_checks`, `Script.checkPairs_checks` — the checks of lists and maps.
-/

namespace Protoscript

variable {p q : Pool}

/-- Whether two stored values are one scalar, or messages that are alike. -/
inductive Stored.Swapped : Stored → Stored → Prop
  | scalar (s : Scalar) : Stored.Swapped (.scalar s) (.scalar s)
  | message {x y : Message} (h : x.Alike False y) : Stored.Swapped (.message x) (.message y)

theorem Stored.Swapped.alike {s t : Stored} (h : s.Swapped t) : s.Alike False t := by
  cases h with
  | scalar => exact .refl _
  | message h => exact .message h

namespace Heap

/-! ## Values that stand for each other -/

/-- Whether a value may stand for another one in what is stored: it is that value, which is no container,
or it is a message of another pool, and the other one a message of the first pool that equals it. -/
inductive Exchange (p q : Pool) (h : Heap) : Value → Value → Prop
  | same {v : Value} (hv : v.Within h) (hsequence : v.isSequence = false)
    (hmapping : v.isMapping = false) (hgives : v.Gives p h.contents) : Exchange p q h v v
  | foreign {r s : Ref .message} {y x : Message} (hr : h.Has ⟨.message, r⟩) (hs : h.Has ⟨.message, s⟩)
    (hy : h.contents r = .ok y) (hx : h.contents s = .ok x) (hyp : y.descriptor.Among {p} ∧ y.Conforms)
    (hxq : x.Portable q) (hyx : y.equals x = true) : Exchange p q h (.message r) (.message s)

/-- Whether an entry of a mapping may stand for another one: the keys are the same. -/
structure ExchangeEntry (p q : Pool) (h : Heap) (e e' : Value × Value) : Prop where
  key : e'.1 = e.1
  kept : h.Exchange p q e.1 e.1
  value : h.Exchange p q e.2 e'.2

variable {h b g₁ g₂ : Heap} {S T : Set Place} {v w : Value} {kind : Kind} {config : Config}

theorem Exchange.within (he : h.Exchange p q v w) : v.Within h ∧ w.Within h := by
  cases he with
  | same hv => exact ⟨hv, hv⟩
  | foreign hr hs => exact ⟨within_of_ref? rfl hr, within_of_ref? rfl hs⟩

/-- **What stands for a value is stored** if the value is, and as something alike. -/
theorem Exchange.toStored (hpq : p.Receives q) (hk : kind.Of p) (he : h.Exchange p q v w) {s : Stored}
    (hs : h.toStored kind v config = .ok s) :
    kind.Holds s ∧ ∃ t, h.toStored kind w config = .ok t ∧ kind.Holds t ∧ s.Swapped t := by
  cases he with
  | same _ _ _ hgives =>
    have hholds := Kind.holds_toStored hk hgives hs
    refine ⟨hholds, s, hs, hholds, ?_⟩
    cases hholds with
    | scalar => exact .scalar _
    | message => exact .message (.refl _)
  | @foreign r s' y x hr hs' hy hx hyp hxq hyx =>
    rcases Kind.toStored_ok hs with ⟨_, -, hscalar⟩ | ⟨d, m, rfl, rfl, hm⟩
    · cases (Kind.ref?_of_scalarToStored hscalar).2.2
    have hd := hk d rfl
    have hyr := descriptor_contents hy
    have hname : h.fullName r = d.fullName := by
      rcases MessageDescriptor.toStored_cases hm with ⟨_, _, hr, hname, -⟩ | ⟨hne, -⟩
      · cases hr
        exact hname
      · exact absurd rfl (hne r)
    have hyd : y.descriptor = d := by
      refine MessageDescriptor.eq_of_fullName hyp.1 hd ?_
      rw [hyr]
      exact hname
    have hname' : h.fullName s' = d.fullName := by
      rw [← hyd, fullName]
      exact (congrArg MessageDescriptor.fullName (descriptor_contents hx)).symm.trans
        (Message.equals_iff.1 hyx).1.symm
    -- the one is stored as it is, the other is read again from its bytes
    obtain rfl : m = y := by
      have hstored : h.toStored (.message d) (.message r) config = .ok (.message y) :=
        toStored_message (hyr.symm.trans hyd) hy hyd
      rw [hstored] at hs
      cases hs
      rfl
    have htakes : d.Takes m := ⟨hyd, hyp.2⟩
    obtain ⟨z, hz, hzd, halike⟩ := hxq.exists_adopt hpq hd htakes hyx
    have hstored : d.toStored h h.contents (.message s') config = .ok z := by
      rw [MessageDescriptor.toStored_of_message, if_pos hname', hx]
      exact hz
    exact ⟨htakes.holds, .message z, congrArg (Except.map Stored.message) hstored, hzd.holds,
      .message halike⟩

/-! ## Containers -/

theorem Exchange.plain (he : h.Exchange p q v w) : v.isSequence = false ∧ v.isMapping = false := by
  cases he with
  | same _ hsequence hmapping => exact ⟨hsequence, hmapping⟩
  | foreign => exact ⟨rfl, rfl⟩

theorem Exchange.eq_of_ne_message (he : h.Exchange p q v w) (hv : ∀ r, v ≠ .message r) : w = v := by
  cases he with
  | same => rfl
  | @foreign r => exact absurd rfl (hv r)

/-- Whether a value, which may be a container, may stand for another one: so may all its elements. -/
inductive ExchangeIn (p q : Pool) (h : Heap) : Value → Value → Prop
  | single {v w : Value} (he : h.Exchange p q v w) : ExchangeIn p q h v w
  | sequence {v w : Value} {xs ys : List Value} (hv : v.Within h) (hw : w.Within h)
    (hvs : v.isSequence = true) (hws : w.isSequence = true) (hxs : h.iterate v = .ok xs)
    (hys : h.iterate w = .ok ys) (hitems : List.Forall₂ (h.Exchange p q) xs ys) : ExchangeIn p q h v w
  | mapping {v w : Value} {xs ys : List (Value × Value)} (hv : v.Within h) (hw : w.Within h)
    (hxs : h.mappingEntries? v = some xs) (hys : h.mappingEntries? w = some ys)
    (hentries : List.Forall₂ (h.ExchangeEntry p q) xs ys) : ExchangeIn p q h v w

/-- Whether pairs that a mapping may be updated from may stand for others; or there are none. -/
inductive ExchangePairs (p q : Pool) (h : Heap) : Option Value → Option Value → Prop
  | none : ExchangePairs p q h none none
  | some {v w : Value} {xs ys : List (Value × Value)} (hxs : h.pairsOf v = .ok xs)
    (hys : h.pairsOf w = .ok ys) (hentries : List.Forall₂ (h.ExchangeEntry p q) xs ys) :
    ExchangePairs p q h (some v) (some w)

/-- A text stands for itself. -/
theorem Exchange.text (p q : Pool) (h : Heap) (s : String) : h.Exchange p q (.text s) (.text s) :=
  .same (Value.within_of_place?_none (fun _ he => by cases he) rfl) rfl rfl fun _ _ he => by cases he

namespace ExchangeIn

/-- What stands for a value that is no container. -/
theorem exchange (he : h.ExchangeIn p q v w) (hsequence : v.isSequence = false)
    (hmapping : v.isMapping = false) : h.Exchange p q v w := by
  cases he with
  | single he => exact he
  | sequence _ _ hvs => exact absurd (hsequence.symm.trans hvs) (by simp)
  | mapping _ _ hxs => exact absurd (hmapping.symm.trans (isMapping_of_mappingEntries? hxs)) (by simp)

/-- Only the absent value stands for the absent value. -/
theorem absent_iff (he : h.ExchangeIn p q v w) : w = .absent ↔ v = .absent := by
  cases he with
  | single he => cases he <;> simp
  | sequence _ _ hvs hws =>
    constructor <;> rintro rfl
    · cases hws
    · cases hvs
  | mapping _ _ hxs hys =>
    constructor <;> rintro rfl
    · cases hys
    · cases hxs

/-- What stands for a value that is checked. -/
theorem exchange_of_normalize {g k : Heap} {kind : Kind} {config : Config} {a : Value}
    (he : h.ExchangeIn p q v w) (hrun : (Script.normalize kind v config).run g = (.ok a, k)) :
    h.Exchange p q v w := by
  obtain ⟨s, hs, -⟩ := Script.normalize_ok.1 hrun
  rcases Script.plain_of_toStored hs with ⟨r, rfl⟩ | ⟨-, htuple, href⟩
  · exact he.exchange rfl rfl
  · cases v with
    | tuple items => exact absurd rfl (htuple items)
    | list | dict | «repeated» | map => cases href
    | _ => exact he.exchange rfl rfl

/-- What a container is run through for, and what for the one that stands for it. -/
theorem iterate (he : h.ExchangeIn p q v w) {xs : List Value} (hxs : h.iterate v = .ok xs) :
    ∃ ys, h.iterate w = .ok ys ∧ List.Forall₂ (h.Exchange p q) xs ys := by
  cases he with
  | single he =>
    obtain ⟨hsequence, hmapping⟩ := he.plain
    cases v with
    | tuple | list | «repeated» => cases hsequence
    | dict | map => cases hmapping
    | _ => cases hxs
  | sequence _ _ _ _ hxs' hys hitems =>
    cases hxs.symm.trans hxs'
    exact ⟨_, hys, hitems⟩
  | mapping _ _ hes hes' hentries =>
    have keys {u : Value} {entries : List (Value × Value)} (hu : h.mappingEntries? u = some entries) :
        h.iterate u = .ok (entries.map (·.1)) := by
      cases u <;> cases hu <;> rfl
    cases hxs.symm.trans (keys hes)
    refine ⟨_, keys hes', ?_⟩
    rw [List.forall₂_map_left_iff, List.forall₂_map_right_iff]
    exact hentries.imp fun e e' he => he.key ▸ he.kept

end ExchangeIn

/-! ## Values in the region -/

/-- Whether a value is one of a type that leads, if anywhere, to one of some places. -/
structure FitsIn (S : Set Place) (h : Heap) (kind : Kind) (v : Value) : Prop where
  fits : h.Fits kind v
  mem {a : Place} (ha : v.ref? = some a) : a ∈ S

theorem FitsIn.keep (hv : g₁.FitsIn S kind v) (hST : S ⊆ T) (hg : g₁.KeepsTypes g₂) :
    g₂.FitsIn T kind v :=
  ⟨hv.fits.keep hg, fun ha => hST (hv.mem ha)⟩

/-- Whether a key, if it is a message, holds the same on two heaps that have grown from a third one. -/
def KeepsKey (b g₁ g₂ : Heap) (v : Value) : Prop :=
  ∀ r, v = .message r → b.Has ⟨.message, r⟩ ∨
    g₁.Has ⟨.message, r⟩ ∧ g₂.Has ⟨.message, r⟩ ∧ g₂.cell r = g₁.cell r ∧ (g₁.cell r).views = []

/-- Whether an update of a mapping has a key and, if it sets one, a value of the types of a field. -/
structure UpdateIn (b : Heap) (S : Set Place) (g₁ g₂ : Heap) (f : FieldDescriptor)
    (u : Value × Option Value) : Prop where
  key : g₁.FitsIn S f.keyKind u.1
  kept : KeepsKey b g₁ g₂ u.1
  value : ∀ v ∈ u.2, g₁.FitsIn S f.valueKind v

theorem KeepsKey.grow {k₁ k₂ : Heap} (hv : KeepsKey b g₁ g₂ v) (hg₁ : g₁.Grows k₁) (hg₂ : g₂.Grows k₂) :
    KeepsKey b k₁ k₂ v := by
  rintro r rfl
  refine (hv r rfl).imp_right fun ⟨hr₁, hr₂, hcell, hviews⟩ => ?_
  refine ⟨hg₁.has hr₁, hg₂.has hr₂, ?_, ?_⟩
  · rw [hg₁.cell hr₁, hg₂.cell hr₂, hcell]
  · rw [hg₁.cell hr₁, hviews]

theorem UpdateIn.keep {k₁ k₂ : Heap} {f : FieldDescriptor} {u : Value × Option Value}
    (hu : UpdateIn b S g₁ g₂ f u) (hST : S ⊆ T) (hg₁ : g₁.Grows k₁) (hg₂ : g₂.Grows k₂) :
    UpdateIn b T k₁ k₂ f u :=
  ⟨hu.key.keep hST hg₁.lasts.keepsTypes, hu.kept.grow hg₁ hg₂,
    fun v hv => (hu.value v hv).keep hST hg₁.lasts.keepsTypes⟩

end Heap

namespace Script

variable {α β ι : Type} {h₁ h₂ b g₁ g₂ : Heap} {S : Set Place}

/-! ## Runs that leave forked heaps -/

/-- Whether a run succeeds if another one does, and they come to heaps that are forked, with results that
are related. Cells that are new are as types ask for. -/
def Forks (p : Pool) (S : Set Place) (h₁ h₂ : Heap) (s₁ s₂ : Script α)
    (R : Set Place → Heap → Heap → α → α → Prop) : Prop :=
  ∀ ⦃a₁ k₁⦄, s₁.run h₁ = (.ok a₁, k₁) → ∃ a₂ k₂ T, s₂.run h₂ = (.ok a₂, k₂) ∧ S ⊆ T ∧
    (∀ a, k₁.Has a → h₁.Has a ∨ a ∈ T) ∧ k₁.Forked p T k₂ ∧ R T k₁ k₂ a₁ a₂

namespace Forks

variable {s₁ s₂ : Script α} {f₁ f₂ : α → Script β} {R : Set Place → Heap → Heap → α → α → Prop}
  {Q : Set Place → Heap → Heap → β → β → Prop}

theorem pure {a₁ a₂ : α} (hk : h₁.Forked p S h₂) (ha : R S h₁ h₂ a₁ a₂) :
    Forks p S h₁ h₂ (Pure.pure a₁) (Pure.pure a₂) R := by
  intro _ _ hrun
  cases hrun
  exact ⟨a₂, h₂, S, rfl, subset_rfl, fun _ hq => .inl hq, hk, ha⟩

theorem throw {e : Error} : Forks p S h₁ h₂ (MonadExcept.throw e : Script α) s₂ R := by
  intro _ _ hrun
  cases hrun

theorem mono {R' : Set Place → Heap → Heap → α → α → Prop} (hs : Forks p S h₁ h₂ s₁ s₂ R)
    (hR : ∀ T k₁ k₂ a₁ a₂, R T k₁ k₂ a₁ a₂ → R' T k₁ k₂ a₁ a₂) : Forks p S h₁ h₂ s₁ s₂ R' := by
  intro a₁ k₁ hrun
  obtain ⟨a₂, k₂, T, hsecond, hST, hnew, hk, ha⟩ := hs hrun
  exact ⟨a₂, k₂, T, hsecond, hST, hnew, hk, hR _ _ _ _ _ ha⟩

theorem bind (hs : Forks p S h₁ h₂ s₁ s₂ R)
    (hf : ∀ T k₁ k₂ a₁ a₂, S ⊆ T → k₁.Forked p T k₂ → R T k₁ k₂ a₁ a₂ →
      Forks p T k₁ k₂ (f₁ a₁) (f₂ a₂) Q) : Forks p S h₁ h₂ (s₁ >>= f₁) (s₂ >>= f₂) Q := by
  intro b₁ l₁ hrun
  obtain ⟨a₁, k₁, hfirst, hrest⟩ := bind_ok.1 hrun
  obtain ⟨a₂, k₂, T, hsecond, hST, hnew, hk, ha⟩ := hs hfirst
  obtain ⟨b₂, l₂, U, hlast, hTU, hnew', hl, hb⟩ := hf T k₁ k₂ a₁ a₂ hST hk ha hrest
  refine ⟨b₂, l₂, U, bind_ok.2 ⟨a₂, k₂, hsecond, hlast⟩, hST.trans hTU, fun a ha => ?_, hl, hb⟩
  rcases hnew' a ha with hold | hmem
  · exact (hnew a hold).imp_right fun hmem => hTU hmem
  · exact .inr hmem

/-- A first step that leaves both heaps as they are, and gives the same for both. -/
theorem step (hs : ∀ {a k}, s₁.run h₁ = (.ok a, k) → k = h₁ ∧ s₂.run h₂ = (.ok a, h₂))
    (hf : ∀ a, s₁.run h₁ = (.ok a, h₁) → Forks p S h₁ h₂ (f₁ a) (f₂ a) Q) :
    Forks p S h₁ h₂ (s₁ >>= f₁) (s₂ >>= f₂) Q := by
  intro b₁ l₁ hrun
  obtain ⟨a, k, hfirst, hrest⟩ := bind_ok.1 hrun
  obtain ⟨rfl, hsecond⟩ := hs hfirst
  obtain ⟨b₂, l₂, T, hlast, hrest⟩ := hf a hfirst hrest
  exact ⟨b₂, l₂, T, bind_ok.2 ⟨a, h₂, hsecond, hlast⟩, hrest⟩

/-- First steps that leave the heaps as they are, with results that are known. -/
theorem given {γ : Type} {s₁ s₂ : Script γ} {f₁ f₂ : γ → Script β} {a₁ a₂ : γ}
    (hs₁ : s₁.run h₁ = (.ok a₁, h₁)) (hs₂ : s₂.run h₂ = (.ok a₂, h₂)) (hf : Forks p S h₁ h₂ (f₁ a₁) (f₂ a₂) Q) :
    Forks p S h₁ h₂ (s₁ >>= f₁) (s₂ >>= f₂) Q := by
  intro b₁ l₁ hrun
  obtain ⟨_, _, hfirst, hrest⟩ := bind_ok.1 hrun
  obtain ⟨ha, rfl⟩ := Prod.mk.inj (hs₁.symm.trans hfirst)
  obtain rfl := Except.ok.inj ha
  obtain ⟨b₂, l₂, T, hlast, hrest⟩ := hf hrest
  exact ⟨b₂, l₂, T, bind_ok.2 ⟨a₂, h₂, hs₂, hlast⟩, hrest⟩

/-- Both heaps are looked at first. -/
theorem reading {γ : Type} {e₁ e₂ : Heap → Except Error γ} {f₁ f₂ : γ → Script β}
    (hf : ∀ a₁, e₁ h₁ = .ok a₁ → ∃ a₂, e₂ h₂ = .ok a₂ ∧ Forks p S h₁ h₂ (f₁ a₁) (f₂ a₂) Q) :
    Forks p S h₁ h₂ (Script.reading e₁ >>= f₁) (Script.reading e₂ >>= f₂) Q := by
  intro b₁ l₁ hrun
  obtain ⟨a₁, _, hreading, -⟩ := bind_ok.1 hrun
  obtain ⟨ha₁, rfl⟩ := reading_ok.1 hreading
  obtain ⟨a₂, ha₂, hf⟩ := hf a₁ ha₁
  exact given hreading (reading_ok.2 ⟨ha₂, rfl⟩) hf hrun

/-- A cell that is the same on both heaps is read. -/
theorem cell {s : Shelf} {r : Ref s} {f₁ f₂ : Cell s → Script β} (hcell : h₂.cell r = h₁.cell r)
    (hf : Forks p S h₁ h₂ (f₁ (h₁.cell r)) (f₂ (h₁.cell r)) Q) :
    Forks p S h₁ h₂ (Script.cell r >>= f₁) (Script.cell r >>= f₂) Q := by
  refine step (fun hrun => ?_) fun c hrun => ?_
  · cases hrun
    exact ⟨rfl, Prod.ext (congrArg Except.ok hcell) rfl⟩
  · cases hrun
    exact hf

theorem checkMutable {frozen : Bool} {verb target : String} {f₁ f₂ : Unit → Script β}
    (hf : Forks p S h₁ h₂ (f₁ ()) (f₂ ()) Q) :
    Forks p S h₁ h₂ (Script.checkMutable frozen verb target >>= f₁)
      (Script.checkMutable frozen verb target >>= f₂) Q := by
  refine step (fun hrun => ?_) fun _ _ => hf
  obtain ⟨hfrozen, rfl⟩ := checkMutable_ok.1 hrun
  exact ⟨rfl, checkMutable_ok.2 ⟨hfrozen, rfl⟩⟩

/-- Cells that are alike are overwritten. -/
theorem put {s : Shelf} {r : Ref s} {c c' : Cell s} {R : Set Place → Heap → Heap → Unit → Unit → Prop}
    (hput : (h₁.put r c).Forked p S (h₂.put r c'))
    (hR : R S (h₁.put r c) (h₂.put r c') () ()) :
    Forks p S h₁ h₂ (Script.put r c) (Script.put r c') R := by
  intro _ _ hrun
  cases hrun
  exact ⟨(), _, S, rfl, subset_rfl, fun _ ha => .inl (Heap.has_put.1 ha), hput, hR⟩

end Forks

/-! ## Checks -/

/-- Whether a run succeeds if another one does, both of which only make cells, and gives the same. -/
def Checks (p : Pool) (S : Set Place) (h₁ h₂ : Heap) (s₁ s₂ : Script α)
    (R : Set Place → Heap → Heap → α → Prop) : Prop :=
  Forks p S h₁ h₂ s₁ s₂ fun T k₁ k₂ a₁ a₂ => a₂ = a₁ ∧ h₁.Grows k₁ ∧ h₂.Grows k₂ ∧ R T k₁ k₂ a₁

namespace Checks

variable {s₁ s₂ : Script α} {f₁ f₂ : α → Script β} {R : Set Place → Heap → Heap → α → Prop}
  {Q : Set Place → Heap → Heap → β → Prop}

theorem pure {a : α} (hk : h₁.Forked p S h₂) (ha : R S h₁ h₂ a) :
    Checks p S h₁ h₂ (Pure.pure a) (Pure.pure a) R :=
  Forks.pure hk ⟨rfl, .refl ∅ h₁, .refl ∅ h₂, ha⟩

theorem mono {R' : Set Place → Heap → Heap → α → Prop} (hs : Checks p S h₁ h₂ s₁ s₂ R)
    (hR : ∀ T k₁ k₂ a, R T k₁ k₂ a → R' T k₁ k₂ a) : Checks p S h₁ h₂ s₁ s₂ R' :=
  Forks.mono hs fun _ _ _ _ _ ⟨ha, hg₁, hg₂, hrest⟩ => ⟨ha, hg₁, hg₂, hR _ _ _ _ hrest⟩

theorem bind (hs : Checks p S h₁ h₂ s₁ s₂ R)
    (hf : ∀ T k₁ k₂ a, S ⊆ T → h₁.Grows k₁ → h₂.Grows k₂ → k₁.Forked p T k₂ → R T k₁ k₂ a →
      Checks p T k₁ k₂ (f₁ a) (f₂ a) Q) : Checks p S h₁ h₂ (s₁ >>= f₁) (s₂ >>= f₂) Q := by
  refine Forks.bind hs ?_
  rintro T k₁ k₂ _ a hST hk ⟨rfl, hg₁, hg₂, ha⟩
  refine Forks.mono (hf T k₁ k₂ a hST hg₁ hg₂ hk ha) ?_
  rintro U l₁ l₂ b₁ b₂ ⟨hb, hl₁, hl₂, hQ⟩
  exact ⟨hb, hg₁.trans hl₁, hg₂.trans hl₂, hQ⟩

/-- Runs for all elements of two related lists. What is so of a result stays so while cells are made. -/
theorem mapM {L : ι → ι → Prop} {f : ι → Script α} {xs ys : List ι} (hxy : List.Forall₂ L xs ys)
    (hkeep : ∀ {S T g₁ g₂ k₁ k₂ a}, S ⊆ T → g₁.Grows k₁ → g₂.Grows k₂ → R S g₁ g₂ a → R T k₁ k₂ a)
    (hk : h₁.Forked p S h₂)
    (hf : ∀ {x y}, L x y → ∀ {T g₁ g₂}, S ⊆ T → h₁.Grows g₁ → h₂.Grows g₂ → g₁.Forked p T g₂ →
      Checks p T g₁ g₂ (f x) (f y) R) :
    Checks p S h₁ h₂ (xs.mapM f) (ys.mapM f) fun T k₁ k₂ as => ∀ a ∈ as, R T k₁ k₂ a := by
  induction hxy generalizing S h₁ h₂ with
  | nil =>
    rw [List.mapM_nil]
    exact .pure hk (List.forall_mem_nil _)
  | @cons x y xs ys hxy _ ih =>
    rw [List.mapM_cons, List.mapM_cons]
    refine .bind (hf hxy subset_rfl (.refl ∅ h₁) (.refl ∅ h₂) hk) fun T g₁ g₂ a hST hg₁ hg₂ hg ha => ?_
    have hrest := ih hg fun hxy U k₁ k₂ hTU hk₁ hk₂ hk =>
      hf hxy (hST.trans hTU) (hg₁.trans hk₁) (hg₂.trans hk₂) hk
    refine .bind hrest fun U k₁ k₂ as hTU hk₁ hk₂ hk has => .pure hk ?_
    exact List.forall_mem_cons.2 ⟨hkeep hTU hk₁ hk₂ ha, has⟩

end Checks

variable {v w : Value} {kind : Kind} {config : Config}

section

variable (hpq : p.Receives q) (hb : b.Closed)

include hpq hb

/-- **A check of a value** and of one that stands for it. -/
theorem normalize_checks (hg₁ : b.Grows g₁) (hg₂ : b.Grows g₂) (hk : g₁.Forked p S g₂)
    (hkind : kind.Of p) (hvw : b.ExchangeIn p q v w) :
    Checks p S g₁ g₂ (normalize kind v config) (normalize kind w config) fun T k₁ k₂ a =>
      k₁.FitsIn T kind a ∧ (w = v → Heap.KeepsKey b k₁ k₂ a) := by
  intro a k₁ hrun
  have he := hvw.exchange_of_normalize hrun
  obtain ⟨s, hs, ha⟩ := normalize_ok.1 hrun
  rw [hg₁.toStored hb he.within.1] at hs
  obtain ⟨hholds, t, ht, htholds, hst⟩ := he.toStored hpq hkind hs
  have hstored : g₂.toStored kind w config = .ok t := by rw [hg₂.toStored hb he.within.2, ht]
  cases hst with
  | scalar x =>
    rw [Heap.adopt] at ha
    cases ha
    have href := x.ref?_toValue kind
    refine ⟨_, g₂, S, normalize_ok.2 ⟨_, hstored, by rw [Heap.adopt]⟩, subset_rfl, fun _ hq => .inl hq, hk,
      rfl, .refl ∅ g₁, .refl ∅ g₂, ⟨.scalar hholds.holdsScalar, fun ha => ?_⟩, fun _ r hr => ?_⟩
    · rw [href] at ha
      cases ha
    · rw [hr] at href
      cases href
  | @message y z halike =>
    rw [Heap.adopt] at ha
    cases ha
    cases hholds with
    | @message d _ hyd hy =>
    cases htholds with
    | message hzd hz =>
    -- both heaps get a new message, at the same place
    obtain ⟨hsame, hnew⟩ := hk.newMessage (hkind d rfl) ⟨hyd, hy⟩ ⟨hzd, hz⟩ halike config
    have hself := Heap.has_fresh_alloc g₁ .message { content := y, config := config }
    have hrun₂ := normalize_ok.2 ⟨_, hstored, by rw [Heap.adopt]⟩
    have hcell := Heap.cell_alloc_self g₁ (s := .message) { content := y, config := config }
    refine ⟨_, _, _, hrun₂, Set.subset_insert _ _, fun a ha => ?_, hnew, hsame, g₁.grows_alloc_message rfl,
      g₂.grows_alloc_message rfl, ⟨?_, fun ha => ?_⟩, fun hvw => ?_⟩
    · rcases Heap.has_alloc (s := .message) ha with rfl | hold
      · exact .inr (Set.mem_insert _ _)
      · exact .inl hold
    · refine .message rfl hself ?_
      exact (congrArg (fun c : MessageCell => c.content.descriptor) hcell).trans hyd
    · cases ha
      exact Set.mem_insert _ _
    · rintro r hr
      cases hr
      subst hvw
      cases hs.symm.trans ht
      have hcell' := Heap.cell_alloc_self g₂ (s := .message) { content := y, config := config }
      rw [hk.fresh_eq] at hcell'
      refine .inr ⟨hself, ?_, hcell'.trans hcell.symm, congrArg MessageCell.views hcell⟩
      rw [← hk.fresh_eq]
      exact Heap.has_fresh_alloc g₂ .message _

theorem normalizeAll_checks (hg₁ : b.Grows g₁) (hg₂ : b.Grows g₂) (hk : g₁.Forked p S g₂)
    (hkind : kind.Of p) {vs ws : List Value} (he : List.Forall₂ (b.Exchange p q) vs ws) :
    Checks p S g₁ g₂ (normalizeAll kind vs config) (normalizeAll kind ws config) fun T k₁ _ as =>
      ∀ a ∈ as, k₁.FitsIn T kind a := by
  refine .mapM (R := fun T k₁ _ a => k₁.FitsIn T kind a) he (fun hST hg₁ _ ha =>
    ha.keep hST hg₁.lasts.keepsTypes) hk fun he T k₁ k₂ hST hk₁ hk₂ hk => ?_
  refine (normalize_checks hpq hb (hg₁.trans hk₁) (hg₂.trans hk₂) hk hkind (.single he)).mono ?_
  exact fun _ _ _ _ ha => ha.1

theorem checkPair_checks {c : MapCell} (hf : c.field.Of p) (hg₁ : b.Grows g₁) (hg₂ : b.Grows g₂)
    (hk : g₁.Forked p S g₂) {key : Value} (hkey : b.Exchange p q key key) (he : b.ExchangeIn p q v w) :
    Checks p S g₁ g₂ (checkPair c key v) (checkPair c key w) fun T k₁ k₂ u =>
      Heap.UpdateIn b T k₁ k₂ c.field u := by
  have hkeys : Checks p S g₁ g₂ (normalize c.field.keyKind key c.config)
      (normalize c.field.keyKind key c.config) _ :=
    normalize_checks hpq hb hg₁ hg₂ hk hf.keyKind (.single hkey)
  by_cases habsent : v = .absent
  · obtain rfl := he.absent_iff.2 habsent
    subst habsent
    refine .bind hkeys fun T k₁ k₂ a _ _ _ hk ha => ?_
    dsimp only
    split
    · exact .pure hk ⟨ha.1, ha.2 rfl, fun _ hv => by cases hv⟩
    · exact Forks.throw
  · rw [checkPair_of_ne habsent, checkPair_of_ne (mt he.absent_iff.1 habsent)]
    refine .bind hkeys fun T k₁ k₂ a _ hk₁ hk₂ hk ha => ?_
    refine .bind (normalize_checks hpq hb (hg₁.trans hk₁) (hg₂.trans hk₂) hk hf.valueKind he)
      fun U l₁ l₂ x hTU hl₁ hl₂ hl hx => .pure hl ?_
    refine ⟨ha.1.keep hTU hl₁.lasts.keepsTypes, (ha.2 rfl).grow hl₁ hl₂, fun y hy => ?_⟩
    cases hy
    exact hx.1

theorem checkPairs_checks {c : MapCell} (hf : c.field.Of p) (hg₁ : b.Grows g₁) (hg₂ : b.Grows g₂)
    (hk : g₁.Forked p S g₂) {xs ys : List (Value × Value)} (he : List.Forall₂ (b.ExchangeEntry p q) xs ys) :
    Checks p S g₁ g₂ (checkPairs c xs) (checkPairs c ys) fun T k₁ k₂ us =>
      ∀ u ∈ us, Heap.UpdateIn b T k₁ k₂ c.field u := by
  refine .mapM (R := fun T k₁ k₂ u => Heap.UpdateIn b T k₁ k₂ c.field u) he
    (fun hST hg₁ hg₂ hu => hu.keep hST hg₁ hg₂) hk fun {e e'} he T k₁ k₂ hST hk₁ hk₂ hk => ?_
  rw [he.key]
  exact checkPair_checks hpq hb hf (hg₁.trans hk₁) (hg₂.trans hk₂) hk he.kept (.single he.value)

end

end Script

end Protoscript
