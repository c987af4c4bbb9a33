import Protoscript.Proofs.Listings
import Protoscript.Proofs.Rebuilding

/-!
# Views in any order

The views that a message keeps are a set, too: whoever writes them back may find them in any order. On
the heaps of a run the order makes no difference, since no view that is written back decides what the
field of another one holds, if no list or map belongs to a oneof.

* `Except.Agree` — results that both succeed and are related, or both fail;
* `Heap.Typed.writeAll_perm` — the writes of views in any order;
* `Heap.Relists` — a heap whose views and stored maps are found in any order;
* `Heap.Relists.contents` — messages hold the same on it.
-/

namespace Protoscript

/-! ## Results up to their errors -/

/-- Whether two results are related successes, or both failures. -/
inductive Except.Agree {ε α β : Type} (R : α → β → Prop) : Except ε α → Except ε β → Prop
  | ok {a : α} {b : β} (h : R a b) : Agree R (.ok a) (.ok b)
  | error (e e' : ε) : Agree R (.error e) (.error e')

namespace Except.Agree

variable {ε α β γ δ : Type} {R : α → β → Prop} {T : γ → δ → Prop}

theorem refl {S : α → α → Prop} (hS : ∀ a, S a a) (x : Except ε α) : Agree S x x := by
  cases x with
  | ok a => exact .ok (hS a)
  | error e => exact .error e e

theorem mono {R' : α → β → Prop} {x : Except ε α} {y : Except ε β} (h : Agree R x y)
    (hR : ∀ a b, x = .ok a → R a b → R' a b) : Agree R' x y := by
  cases h with
  | ok h => exact .ok (hR _ _ rfl h)
  | error e e' => exact .error e e'

theorem flip {x : Except ε α} {y : Except ε β} (h : Agree R x y) : Agree (fun b a => R a b) y x := by
  cases h with
  | ok h => exact .ok h
  | error e e' => exact .error e' e

theorem map {x : Except ε α} {y : Except ε β} {f : α → γ} {g : β → δ} (h : Agree R x y)
    (hfg : ∀ a b, x = .ok a → R a b → T (f a) (g b)) : Agree T (x.map f) (y.map g) := by
  cases h with
  | ok h => exact .ok (hfg _ _ rfl h)
  | error e e' => exact .error e e'

theorem bind {x : Except ε α} {y : Except ε β} {f : α → Except ε γ} {g : β → Except ε δ}
    (h : Agree R x y) (hfg : ∀ a b, x = .ok a → R a b → Agree T (f a) (g b)) :
    Agree T (x >>= f) (y >>= g) := by
  cases h with
  | ok h => exact hfg _ _ rfl h
  | error e e' => exact .error e e'

theorem trans {S : β → γ → Prop} {x : Except ε α} {y : Except ε β} {z : Except ε γ}
    (h : Agree R x y) (h' : Agree S y z) : Agree (fun a c => ∃ b, R a b ∧ S b c) x z := by
  cases h with
  | ok hab => cases h' with | ok hbc => exact .ok ⟨_, hab, hbc⟩
  | error e e' => cases h' with | error _ e'' => exact .error e e''

/-- Results for all elements of a list. -/
theorem mapM {ι : Type} {xs : List ι} {f : ι → Except ε α} {g : ι → Except ε β}
    (h : ∀ x ∈ xs, Agree R (f x) (g x)) : Agree (List.Forall₂ R) (xs.mapM f) (xs.mapM g) := by
  induction xs with
  | nil => exact .ok .nil
  | cons x rest ih =>
    rw [List.mapM_cons, List.mapM_cons]
    refine bind (h x List.mem_cons_self) fun a b _ hab => ?_
    refine bind (ih fun y hy => h y (List.mem_cons_of_mem _ hy)) fun as bs _ habs => ?_
    exact .ok (.cons hab habs)

/-- Results for the elements of a list in another order. -/
theorem mapM_perm {ι : Type} {xs ys : List ι} (h : xs.Perm ys) (f : ι → Except ε α) :
    Agree List.Perm (xs.mapM f) (ys.mapM f) := by
  induction h with
  | nil => exact .ok .nil
  | cons x _ ih =>
    rw [List.mapM_cons, List.mapM_cons]
    refine bind (refl (S := Eq) (fun _ => rfl) (f x)) fun a b _ hab => ?_
    subst hab
    exact bind ih fun as bs _ hperm => .ok (hperm.cons a)
  | swap x y rest =>
    simp only [List.mapM_cons]
    cases f x <;> cases f y <;> cases rest.mapM f <;> first
      | exact .error _ _
      | exact .ok (.swap _ _ _)
  | trans _ _ ih ih' => exact (ih.trans ih').mono fun _ _ _ ⟨_, hab, hbc⟩ => hab.trans hbc

end Except.Agree

/-- What holds of any two items of a list holds of what they are related to. -/
theorem pairwise_of_forall₂ {α β : Type} {R : α → β → Prop} {P : α → α → Prop} {Q : β → β → Prop}
    {xs : List α} {ys : List β} (hR : List.Forall₂ R xs ys) (hP : xs.Pairwise P)
    (h : ∀ x ∈ xs, ∀ x' ∈ xs, ∀ y y', R x y → R x' y' → P x x' → Q y y') : ys.Pairwise Q := by
  induction hR with
  | nil => exact .nil
  | @cons x y xs ys hxy hrest ih =>
    obtain ⟨hx, hxs⟩ := List.pairwise_cons.1 hP
    refine List.pairwise_cons.2 ⟨fun y' hy' => ?_, ih hxs fun a ha b hb => h a (.tail _ ha) b (.tail _ hb)⟩
    obtain ⟨x', hx', hxy'⟩ := exists_of_forall₂ hrest hy'
    exact h x (.head _) x' (.tail _ hx') y y' hxy hxy' (hx x' hx')

/-! ## Writes in any order -/

/-- Whether neither of two writes decides what the field of the other one holds. -/
def Apart (w w' : Option (FieldDescriptor × Stored)) : Prop :=
  ∀ f s g t, w = some (f, s) → w' = some (g, t) → ¬ f.Decides g ∧ ¬ g.Decides f

theorem Apart.symm {w w' : Option (FieldDescriptor × Stored)} (h : Apart w w') : Apart w' w :=
  fun f s g t hw hw' => (h g t f s hw' hw).symm

section

variable {d : MessageDescriptor} {m : Message} {ws : List (Option (FieldDescriptor × Stored))}

/-- What a field holds after writes of which one decides it. -/
theorem Message.stored?_writeAll_of_decides (m : Message) (hapart : ws.Pairwise Apart)
    (hws : ∀ f s, some (f, s) ∈ ws → f ∈ d.fields) {f g : FieldDescriptor} {s : Stored}
    (hmem : some (f, s) ∈ ws) (hg : g ∈ d.fields) (hfg : f.Decides g) :
    (m.writeAll ws).stored? g = (m.set f s).stored? g := by
  obtain ⟨before, after, rfl⟩ := List.append_of_mem hmem
  obtain ⟨-, hcons, hbetween⟩ := List.pairwise_append.1 hapart
  have hafter := (List.pairwise_cons.1 hcons).1
  have hf := hws f s hmem
  have hin {k : FieldDescriptor} (hk : k ∈ d.fields) : g ∈ k.message.fields := by
    rw [(MessageDescriptor.mem_fields.1 hk).1]
    exact hg
  -- a write that decides the field would decide that of the write in question
  have others {k : FieldDescriptor} (hk : k ∈ d.fields) (hno : ¬ k.Decides f) : ¬ k.Decides g :=
    fun hkg => hno (hkg.trans hk hg hf (hfg.symm hf hg))
  unfold Message.writeAll
  rw [List.foldl_append, List.foldl_cons]
  refine (Message.stored?_writeAll_of_not_decides _ fun k t hk => ?_).trans
    (Message.stored?_set_congr (hin hf) (Message.stored?_writeAll_of_not_decides _ fun k t hk => ?_) s)
  · have hkd := hws k t (List.mem_append_right _ (.tail _ hk))
    exact ⟨hin hkd, others hkd (hafter _ hk f s k t rfl rfl).2⟩
  · have hkd := hws k t (List.mem_append_left _ hk)
    exact ⟨hin hkd, others hkd (hbetween _ hk _ (.head _) k t f s rfl rfl).1⟩

/-- **Writes of which none decides the field of another one** can be made in any order. -/
theorem MessageDescriptor.Takes.writeAll_perm (hm : d.Takes m)
    {ws' : List (Option (FieldDescriptor × Stored))} (hperm : ws.Perm ws')
    (hapart : ws.Pairwise Apart)
    (hws : ∀ f s, some (f, s) ∈ ws → f ∈ d.fields ∧ f.Holds s) : m.writeAll ws' = m.writeAll ws := by
  have hws' : ∀ f s, some (f, s) ∈ ws' → f ∈ d.fields ∧ f.Holds s :=
    fun f s hmem => hws f s (hperm.mem_iff.2 hmem)
  have hapart' : ws'.Pairwise Apart := hapart.perm hperm fun h => h.symm
  refine (hm.writeAll hws).eq_of_stored? (hm.writeAll hws')
    ((hm.unknown_writeAll hws').trans (hm.unknown_writeAll hws).symm) fun g hg => ?_
  by_cases hdecided : ∃ f s, some (f, s) ∈ ws ∧ f.Decides g
  · obtain ⟨f, s, hmem, hfg⟩ := hdecided
    rw [Message.stored?_writeAll_of_decides m hapart' (fun f s hw => (hws' f s hw).1)
        (hperm.mem_iff.1 hmem) hg hfg,
      Message.stored?_writeAll_of_decides m hapart (fun f s hw => (hws f s hw).1) hmem hg hfg]
  · have untouched {vs : List (Option (FieldDescriptor × Stored))} (hvs : ∀ w ∈ vs, w ∈ ws) :
        (m.writeAll vs).stored? g = m.stored? g :=
      Message.stored?_writeAll_of_not_decides _ fun f s hmem => by
        refine ⟨?_, fun hfg => hdecided ⟨f, s, hvs _ hmem, hfg⟩⟩
        rw [(MessageDescriptor.mem_fields.1 (hws f s (hvs _ hmem)).1).1]
        exact hg
    rw [untouched fun w hw => hperm.mem_iff.2 hw, untouched fun w hw => hw]

end

namespace Heap

variable {p : Pool} {h h' : Heap}

/-- What the views of a message write back is apart. -/
theorem Typed.apart (ht : h.Typed p) (hlaw : p.Lawful) {r : Ref .message}
    (hr : h.Has ⟨.message, r⟩) {ws : List (Option (FieldDescriptor × Stored))}
    (hws : (h.cell r).views.mapM (h.write r) = .ok ws) : ws.Pairwise Apart := by
  refine pairwise_of_forall₂ (Except.mapM_ok.1 hws) (List.pairwise_map.1 (ht.message hr).distinct)
    fun v hv v' hv' w w' hw hw' hne f s g t hf hg => ?_
  subst hf hg
  have name {view : String × Value} {k : FieldDescriptor} {s : Stored}
      (hw : h.write r view = .ok (some (k, s))) :
      k ∈ (h.cell r).content.descriptor.fields ∧ k.name = view.1 :=
    MessageDescriptor.field?_eq_some.1 (field_of_write hw)
  obtain ⟨hf, hfname⟩ := name hw
  obtain ⟨hg, hgname⟩ := name hw'
  exact ⟨(ht.not_decides hlaw hr hg (ht.set_of_write hr hv' hw') hv (hgname ▸ hne) hw).2,
    (ht.not_decides hlaw hr hf (ht.set_of_write hr hv hw) hv' (hfname ▸ hne.symm) hw').2⟩

/-- **The views of a message can be written back in any order.** -/
theorem Typed.writeAll_perm (ht : h.Typed p) (hc : h.Closed) (hlaw : p.Lawful) {r : Ref .message}
    (hr : h.Has ⟨.message, r⟩) {ws ws' : List (Option (FieldDescriptor × Stored))}
    (hws : (h.cell r).views.mapM (h.write r) = .ok ws) (hperm : ws.Perm ws') :
    (h.cell r).content.writeAll ws' = (h.cell r).content.writeAll ws := by
  refine (ht.takes hr).writeAll_perm hperm (ht.apart hlaw hr hws) fun f s hmem => ?_
  obtain ⟨view, hview, hw⟩ := exists_of_forall₂ (Except.mapM_ok.1 hws) hmem
  exact ht.holds_write hc hr (ht.follows hc r) hview hw

/-! ## Heaps in any order -/

/-- Whether a heap is another one in which messages keep their views in any order, and maps that
messages store list their entries in any order. -/
structure Relists (h h' : Heap) : Prop where
  has (q : Place) : h'.Has q ↔ h.Has q
  other (q : Place) (hq : q.1 ≠ .message) : h'.cell q.2 = h.cell q.2
  content (r : Ref .message) : (h.cell r).content.Relists (h'.cell r).content
  views (r : Ref .message) : (h'.cell r).views.Perm (h.cell r).views
  config (r : Ref .message) : (h'.cell r).config = (h.cell r).config
  frozen (r : Ref .message) : (h'.cell r).frozen = (h.cell r).frozen

namespace Relists

variable (hh : h.Relists h')

include hh

theorem descriptor (r : Ref .message) :
    (h'.cell r).content.descriptor = (h.cell r).content.descriptor := (hh.content r).descriptor

theorem fullName (r : Ref .message) : h'.fullName r = h.fullName r :=
  congrArg MessageDescriptor.fullName (hh.descriptor r)

section

variable {flush flush' : Ref .message → Except Error Message}
  (hflush : ∀ q, h.Has ⟨.message, q⟩ → Except.Agree Message.Relists (flush q) (flush' q))
  (hflushed : h.FlushesTyped flush)

include hflush hflushed

/-- What a value of a view is stored as. -/
theorem toStored {kind : Kind} {v : Value} {config : Config} (hv : h.Fits kind v) :
    Except.Agree Stored.Relists (kind.toStored h flush v config)
      (kind.toStored h' flush' v config) := by
  cases hv with
  | @scalar s hs =>
    have same : (kind.toStored h' flush' (s.toValue kind) config) =
        kind.toStored h flush (s.toValue kind) config := by
      cases kind with
      | message d => cases hs
      | scalar | enum => rfl
    rw [same]
    exact .refl .refl _
  | @message d q hk hq hd =>
    subst hk
    refine .map (R := Message.Relists) ?_ fun _ _ _ hm => .message hm
    rw [MessageDescriptor.toStored_of_message, MessageDescriptor.toStored_of_message, hh.fullName q]
    split
    · have hflush := hflush q hq
      rcases hm : flush q with e | m <;> rcases hm' : flush' q with e' | m' <;>
        rw [hm, hm'] at hflush <;> cases hflush
      · exact .error _ _
      · rename_i hrel
        have hmd : m.descriptor = d := (hflushed q hq m hm).descriptor.trans hd
        have hadopt : m.adopt d = .ok m := Message.adopt_self hmd
        have hadopt' : m'.adopt d = .ok m' := Message.adopt_self (hrel.descriptor.trans hmd)
        simp only [bind, Except.bind, hadopt, hadopt']
        exact .ok hrel
    · exact .error _ _

variable (ht : h.Typed p)

include ht

theorem repeatedToStored {q : Ref .repeated} (hq : h.Has ⟨.repeated, q⟩) :
    Except.Agree Stored.Relists ((h.cell q).toStored h flush) ((h'.cell q).toStored h' flush') := by
  have hcell : h'.cell q = h.cell q := hh.other ⟨.repeated, q⟩ nofun
  rw [hcell]
  exact .map (.mapM fun v hv => hh.toStored hflush hflushed ((ht.repeated hq).items v hv))
    fun _ _ _ hs => .list hs

theorem mapToStored {q : Ref .map} (hq : h.Has ⟨.map, q⟩) :
    Except.Agree Stored.Relists ((h.cell q).toStored h flush) ((h'.cell q).toStored h' flush') := by
  have hcell : h'.cell q = h.cell q := hh.other ⟨.map, q⟩ nofun
  rw [hcell]
  refine .bind (.mapM (R := fun e f => e.1 = f.1 ∧ e.2.Relists f.2) fun e he => ?_)
    fun es fs _ hef => .ok (Likeness.relists.map (Likeness.relists.mapOfEntries hef))
  obtain ⟨hkey, hvalue⟩ := (ht.map hq).entries e he
  have hkey : Except.Agree Stored.Relists
      ((h.cell q).field.keyKind.toStored h flush e.1 (h.cell q).config)
      ((h.cell q).field.keyKind.toStored h' flush' e.1 (h.cell q).config) :=
    hh.toStored hflush hflushed hkey
  refine .bind (R := Eq) ?_ fun key _ _ hkey => ?_
  · -- only a scalar is a key
    unfold Kind.toMapKey
    rcases hs : (h.cell q).field.keyKind.toStored h flush e.1 (h.cell q).config with er | s <;>
      rcases hs' : (h.cell q).field.keyKind.toStored h' flush' e.1 (h.cell q).config with er' | s' <;>
      rw [hs, hs'] at hkey <;> cases hkey
    · exact .error _ _
    · rename_i hss
      cases hss with
      | scalar => exact .refl (fun _ => rfl) _
      | message | list | map => exact .error _ _
  · subst hkey
    exact .bind (hh.toStored hflush hflushed hvalue) fun _ _ _ hs => .ok ⟨rfl, hs⟩

theorem viewContents {m : Message} {f : FieldDescriptor} {v : Value} (hv : h.Views m f v) :
    Except.Agree (Option.Rel Stored.Relists) (h.viewContents flush v) (h'.viewContents flush' v) := by
  cases hv with
  | map _ hq => exact .map (hh.mapToStored hflush hflushed ht hq) fun _ _ _ hs => .some hs
  | list _ hq => exact .map (hh.repeatedToStored hflush hflushed ht hq) fun _ _ _ hs => .some hs
  | message _ _ _ hq => exact .map (hflush _ hq) fun _ _ _ hm => .some (.message hm)
  | plain _ _ hv =>
    rw [viewContents_of_ref?_eq_none hv, viewContents_of_ref?_eq_none hv]
    exact .ok .none

end

/-- **Messages hold the same** in whatever order views and maps are found, if no list or map belongs to
a oneof: their contents are there in either case or in none, and are the same but for the order in
which maps list their entries. -/
theorem contents (ht : h.Typed p) (hc : h.Closed) (hlaw : p.Lawful) {r : Ref .message}
    (hr : h.Has ⟨.message, r⟩) :
    Except.Agree Message.Relists (h.contents r) (h'.contents r) := by
  -- the views of a message are followed to later messages only
  induction hk : h.messages.size - r.index using Nat.strongRecOn generalizing r with
  | ind k ih =>
    have hsize : r.index < h.messages.size := hr
    have hsize' : r.index < h'.messages.size := (hh.has ⟨.message, r⟩).2 hr
    have hflush (q : Ref .message) (hq : h.Has ⟨.message, q⟩) :
        Except.Agree Message.Relists (h.follow r q) (h'.follow r q) := by
      by_cases hlt : r.index < q.index
      · rw [follow_of_lt hsize hlt, follow_of_lt hsize' hlt]
        exact ih _ (by omega) hq rfl
      · unfold follow
        rw [if_neg fun hand => hlt hand.1, if_neg fun hand => hlt hand.1]
        exact .error _ _
    have hwrite (view : String × Value) (hview : view ∈ (h'.cell r).views) :
        Except.Agree (Option.Rel fun a b => a.1 = b.1 ∧ a.2.Relists b.2) (h.write r view)
          (h'.write r view) := by
      obtain ⟨f, hf, hviews⟩ := (ht.message hr).views view ((hh.views r).mem_iff.1 hview)
      rw [write_of_field hf, write_of_field (hh.descriptor r ▸ hf)]
      refine .map (hh.viewContents hflush (ht.follows hc r) ht hviews) fun s t _ hst => ?_
      cases hst with
      | none => exact .none
      | some hst => exact .some ⟨rfl, hst⟩
    rw [contents_eq, contents_eq]
    refine .map ((Except.Agree.mapM_perm (hh.views r).symm (h.write r)).trans (.mapM hwrite))
      fun ws vs hws hrel => ?_
    obtain ⟨ws', hperm, hws'⟩ := hrel
    rw [← ht.writeAll_perm hc hlaw hr hws hperm]
    exact Likeness.relists.writeAll (hh.content r) hws'

end Relists

end Heap

end Protoscript
