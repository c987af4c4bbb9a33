import Protoscript.Proofs.Contents

/-!
# Which writes decide what a field holds

Writing a field decides what the field and the other members of its oneof hold. What every other
field holds does not depend on the write.

* `FieldDescriptor.Decides` — whether writing one field decides what another holds;
* `FieldDescriptor.kept_iff` — the views that stay when a field is written are those of the fields
  that it does not decide;
* `Message.stored?_writeAll_of_not_decides`, `Message.stored?_writeAll_filter` — the same of many
  writes.
-/

namespace Protoscript

/-- Whether writing `f` decides what `g` holds. -/
def FieldDescriptor.Decides (f g : FieldDescriptor) : Prop := g.number = f.number ∨ f.Rivals g

namespace FieldDescriptor

variable {d : MessageDescriptor} {f g k : FieldDescriptor} (hf : f ∈ d.fields) (hg : g ∈ d.fields)
  (hk : k ∈ d.fields)

include hf hg

/-- A field decides itself and the members of its oneof. -/
theorem decides_iff : f.Decides g ↔ g = f ∨ f.info.oneof.isSome ∧ g.info.oneof = f.info.oneof := by
  have hd : f.message = d := (MessageDescriptor.mem_fields.1 hf).1
  unfold Decides
  rw [rivals_iff, hd]
  constructor
  · rintro (hnum | ⟨hsome, -, heq, -⟩)
    · exact .inl (MessageDescriptor.eq_of_number hg hf hnum)
    · exact .inr ⟨hsome, heq⟩
  · rintro (rfl | ⟨hsome, heq⟩)
    · exact .inl rfl
    · by_cases hnum : g.number = f.number
      · exact .inl hnum
      · exact .inr ⟨hsome, hg, heq, hnum⟩

include hk

theorem Decides.trans (hfg : f.Decides g) (hgk : g.Decides k) : f.Decides k := by
  rw [decides_iff hf hg] at hfg
  rw [decides_iff hg hk] at hgk
  rw [decides_iff hf hk]
  rcases hfg with rfl | ⟨hsome, heq⟩
  · exact hgk
  · rcases hgk with rfl | ⟨-, heq'⟩
    · exact .inr ⟨hsome, heq⟩
    · exact .inr ⟨hsome, heq'.trans heq⟩

omit hk

theorem Decides.symm (hfg : f.Decides g) : g.Decides f := by
  rw [decides_iff hf hg] at hfg
  rw [decides_iff hg hf]
  rcases hfg with rfl | ⟨hsome, heq⟩
  · exact .inl rfl
  · exact .inr ⟨heq ▸ hsome, heq.symm⟩

/-- **Which views stay** when a field is written: those of the fields that it does not decide. -/
theorem kept_iff : (g.name != f.name && !(f.oneofMembers.any fun k => k.name == g.name)) = true ↔
    ¬ f.Decides g := by
  have hd : f.message = d := (MessageDescriptor.mem_fields.1 hf).1
  have hname {k : FieldDescriptor} (hk : k ∈ d.fields) : k.name = g.name ↔ k = g :=
    ⟨fun e => MessageDescriptor.eq_of_name hk hg e, fun e => by rw [e]⟩
  have hany : (f.oneofMembers.any fun k => k.name == g.name) = true ↔
      f.info.oneof.isSome ∧ g.info.oneof = f.info.oneof := by
    unfold oneofMembers inOneof
    rw [hd, List.any_eq_true]
    split
    · rename_i hsome
      simp only [List.mem_filter, beq_iff_eq, hsome, true_and]
      constructor
      · rintro ⟨k, ⟨hk, heq⟩, hkg⟩
        rw [← (hname hk).1 hkg]
        exact heq
      · exact fun heq => ⟨g, ⟨hg, heq⟩, rfl⟩
    · rename_i hnone
      simp [hnone]
  rw [decides_iff hf hg, Bool.and_eq_true, Bool.not_eq_true', bne_iff_ne, not_or, ← hany,
    Bool.not_eq_true, Ne, eq_comm, hname hf, eq_comm]

end FieldDescriptor

namespace Message

variable {f g : FieldDescriptor} (hg : g ∈ f.message.fields)

include hg

theorem stored?_set_of_not_decides (m : Message) (h : ¬ f.Decides g) (s : Stored) :
    (m.set f s).stored? g = m.stored? g :=
  stored?_set_of_not_rivals m hg (fun e => h (.inl e)) (fun e => h (.inr e)) s

/-- What a field holds after a write depends only on what it held. -/
theorem stored?_set_congr {m n : Message} (h : m.stored? g = n.stored? g) (s : Stored) :
    (m.set f s).stored? g = (n.set f s).stored? g := by
  by_cases hnum : g.number = f.number
  · rw [stored?_set_self m hnum, stored?_set_self n hnum]
  by_cases hrivals : f.Rivals g
  · rw [stored?_set_of_rivals m hrivals, stored?_set_of_rivals n hrivals]
  · rw [stored?_set_of_not_rivals m hg hnum hrivals, stored?_set_of_not_rivals n hg hnum hrivals, h]

omit hg

/-- Writes that do not decide what a field holds leave it as it was. -/
theorem stored?_writeAll_of_not_decides (m : Message)
    {ws : List (Option (FieldDescriptor × Stored))}
    (hws : ∀ f s, some (f, s) ∈ ws → g ∈ f.message.fields ∧ ¬ f.Decides g) :
    (m.writeAll ws).stored? g = m.stored? g := by
  induction ws generalizing m with
  | nil => rfl
  | cons w rest ih =>
    have hrest := ih (w.elim m fun w => m.set w.1 w.2)
      fun f s hmem => hws f s (List.mem_cons_of_mem _ hmem)
    refine hrest.trans ?_
    cases w with
    | none => rfl
    | some w =>
      obtain ⟨hg, hnot⟩ := hws w.1 w.2 List.mem_cons_self
      exact stored?_set_of_not_decides hg m hnot w.2

/-- Leaving out writes that do not decide what a field holds makes no difference to it. -/
theorem stored?_writeAll_filter {ι : Type} {w : ι → Except Error (Option (FieldDescriptor × Stored))}
    (keep : ι → Bool) {views : List ι} {ws : List (Option (FieldDescriptor × Stored))}
    (hws : views.mapM w = .ok ws) :
    ∃ ws', (views.filter keep).mapM w = .ok ws' ∧ ∀ (m n : Message) (g : FieldDescriptor),
      m.stored? g = n.stored? g →
      (∀ view ∈ views, ∀ f s, w view = .ok (some (f, s)) →
        g ∈ f.message.fields ∧ (keep view = false → ¬ f.Decides g)) →
      (n.writeAll ws').stored? g = (m.writeAll ws).stored? g := by
  induction views generalizing ws with
  | nil =>
    cases hws
    exact ⟨[], rfl, fun m n g hmn _ => hmn.symm⟩
  | cons view rest ih =>
    rw [List.mapM_cons, Except.bind_ok] at hws
    obtain ⟨x, hx, hws⟩ := hws
    rw [Except.bind_ok] at hws
    obtain ⟨xs, hxs, hws⟩ := hws
    cases hws
    obtain ⟨ws', hws', hsame⟩ := ih hxs
    have hrest {g : FieldDescriptor} (hviews : ∀ v ∈ view :: rest, ∀ f s, w v = .ok (some (f, s)) →
        g ∈ f.message.fields ∧ (keep v = false → ¬ f.Decides g)) :
        ∀ v ∈ rest, ∀ f s, w v = .ok (some (f, s)) →
          g ∈ f.message.fields ∧ (keep v = false → ¬ f.Decides g) :=
      fun v hv => hviews v (List.mem_cons_of_mem _ hv)
    -- a view that is left out does not decide the field
    by_cases hkeep : keep view = true
    · rw [List.filter_cons_of_pos hkeep]
      refine ⟨x :: ws', ?_, fun m n g hmn hviews => ?_⟩
      · rw [List.mapM_cons, hx, hws']
        rfl
      · refine hsame _ _ g ?_ (hrest hviews)
        cases x with
        | none => exact hmn
        | some x => exact stored?_set_congr (hviews view List.mem_cons_self x.1 x.2 hx).1 hmn x.2
    · rw [List.filter_cons_of_neg hkeep]
      refine ⟨ws', hws', fun m n g hmn hviews => hsame _ _ g ?_ (hrest hviews)⟩
      cases x with
      | none => exact hmn
      | some x =>
        obtain ⟨hg, hnot⟩ := hviews view List.mem_cons_self x.1 x.2 hx
        exact (stored?_set_of_not_decides hg m (hnot (by simpa using hkeep)) x.2).trans hmn

end Message

end Protoscript
