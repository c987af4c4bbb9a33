import Protoscript.Proofs.Conforming
import Protoscript.Proofs.Fields
import Mathlib.Data.List.Sort

/-!
# Writes that keep messages conforming

* `Message.Conforms.set`, `Message.Conforms.clear` — writing one field.
-/

namespace Protoscript

/-! ## Numbered entries -/

section

variable {α : Type} {number : Nat} {value : α} {entries : List (Nat × α)}

theorem mem_insertNumber {e : Nat × α} (he : e ∈ insertNumber number value entries) :
    e = (number, value) ∨ e ∈ entries := by
  induction entries with
  | nil => exact .inl (List.mem_singleton.1 he)
  | cons x rest ih =>
    unfold insertNumber at he
    split at he
    · rcases List.mem_cons.1 he with rfl | he
      · exact .inr List.mem_cons_self
      · exact (ih he).imp_right (List.mem_cons_of_mem _)
    · split at he
      · exact (List.mem_cons.1 he).imp_right (List.mem_cons_of_mem _)
      · exact List.mem_cons.1 he

theorem mem_eraseNumber {e : Nat × α} (he : e ∈ eraseNumber number entries) :
    e ∈ entries ∧ e.1 ≠ number := by
  obtain ⟨hmem, hne⟩ := List.mem_filter.1 he
  exact ⟨hmem, bne_iff_ne.1 hne⟩

/-- Putting an entry in its place keeps the entries in order. -/
theorem sorted_insertNumber (h : (entries.map (·.1)).Pairwise (· < ·)) :
    ((insertNumber number value entries).map (·.1)).Pairwise (· < ·) := by
  induction entries with
  | nil => exact List.pairwise_singleton _ _
  | cons e rest ih =>
    obtain ⟨hfirst, hrest⟩ := List.pairwise_cons.1 h
    unfold insertNumber
    split
    · rename_i hlt
      refine List.pairwise_cons.2 ⟨fun n hn => ?_, ih hrest⟩
      obtain ⟨x, hx, rfl⟩ := List.mem_map.1 hn
      rcases mem_insertNumber hx with rfl | hx
      · exact hlt
      · exact hfirst _ (List.mem_map.2 ⟨x, hx, rfl⟩)
    · rename_i hge
      split
      · rename_i heq
        subst heq
        exact List.pairwise_cons.2 ⟨hfirst, hrest⟩
      · rename_i hne
        refine List.pairwise_cons.2 ⟨fun n hn => ?_, h⟩
        have hlt : number < e.1 := by omega
        rcases List.mem_cons.1 hn with rfl | hn
        · exact hlt
        · exact hlt.trans (hfirst n hn)

theorem sorted_eraseNumber (h : (entries.map (·.1)).Pairwise (· < ·)) :
    ((eraseNumber number entries).map (·.1)).Pairwise (· < ·) :=
  h.sublist (List.filter_sublist.map _)

theorem lookupNumber_isSome_iff : (lookupNumber number entries).isSome ↔ number ∈ entries.map (·.1) := by
  induction entries with
  | nil => simp [lookupNumber]
  | cons e rest ih =>
    unfold lookupNumber
    split
    · rename_i heq
      simp [heq]
    · rename_i hne
      rw [ih]
      simp [Ne.symm hne]

end

/-! ## Messages -/

namespace Message

theorem Conforms.empty (d : MessageDescriptor) : (Message.empty d).Conforms :=
  .mk .nil (fun _ he => absurd he List.not_mem_nil) (fun f _ s hs => by cases hs)
    (fun f _ hs => by cases hs) fun _ he => absurd he List.not_mem_nil

variable {m : Message} {f : FieldDescriptor}

/-- Unsetting a field keeps a message conforming. -/
theorem Conforms.clear (hm : m.Conforms) : (m.clear f).Conforms := by
  obtain ⟨sorted, declared, held, single, undeclared⟩ := hm
  have hstored (g : FieldDescriptor) : (m.clear f).stored? g = m.stored? g ∨
      (m.clear f).stored? g = none := by
    by_cases hnum : g.number = f.number
    · exact .inr (stored?_clear_self m hnum)
    · exact .inl (stored?_clear_of_ne m hnum)
  refine .mk (sorted_eraseNumber sorted) (fun e he => declared e (mem_eraseNumber he).1)
    (fun g hg s hs => ?_) (fun g hg hsome k hk => ?_) fun e he => undeclared e (mem_eraseNumber he).1
  · rcases hstored g with h | h <;> rw [h] at hs
    · exact held g hg s hs
    · cases hs
  · rcases hstored g with h | h <;> rw [h] at hsome
    · rcases hstored k with h | h <;> rw [h]
      exact single g hg hsome k hk
    · cases hsome

theorem Conforms.select (hm : m.Conforms) : (m.select f).Conforms := by
  unfold Message.select
  induction f.siblings generalizing m with
  | nil => exact hm
  | cons g rest ih => exact ih hm.clear

/-- **Writing a field** keeps a message conforming, if the field may hold what is written. -/
theorem Conforms.set (hm : m.Conforms) (hf : f ∈ m.descriptor.fields) {s : Stored} (hs : f.Holds s) :
    (m.set f s).Conforms := by
  obtain ⟨sorted, declared, held, single, undeclared⟩ := hm.select (f := f)
  have hd : f.message = m.descriptor := (MessageDescriptor.mem_fields.1 hf).1
  rw [descriptor_select] at declared held single undeclared
  have hselect {g : FieldDescriptor} (hnum : g.number ≠ f.number) :
      (m.set f s).stored? g = (m.select f).stored? g := stored?_set_of_ne m hnum s
  refine .mk (sorted_insertNumber sorted) (fun e he => ?_) (fun g hg t ht => ?_)
    (fun g hg hsome k hk => ?_) fun e he => ?_ <;> rw [descriptor_set] at *
  · rcases mem_insertNumber he with rfl | he
    · exact ⟨f, hf, rfl⟩
    · exact declared e he
  · by_cases hnum : g.number = f.number
    · rw [stored?_set_self m hnum] at ht
      cases ht
      exact MessageDescriptor.eq_of_number hg hf hnum ▸ hs
    · rw [hselect hnum] at ht
      exact held g hg t ht
  · obtain ⟨-, hk', -, -⟩ := FieldDescriptor.rivals_iff.1 (show g.Rivals k from hk)
    rw [(MessageDescriptor.mem_fields.1 hg).1] at hk'
    by_cases hkf : k.number = f.number
    · -- the field written is a rival of `g`, which is unset then
      rw [MessageDescriptor.eq_of_number hk' hf hkf] at hk
      have hgm : g ∈ g.message.fields := (MessageDescriptor.mem_fields.1 hg).1.symm ▸ hg
      rw [stored?_set_of_rivals m (FieldDescriptor.Rivals.symm hgm hk)] at hsome
      cases hsome
    · rw [hselect hkf]
      by_cases hgf : g.number = f.number
      · rw [MessageDescriptor.eq_of_number hg hf hgf] at hk
        exact stored?_select_of_rivals m hk
      · rw [hselect hgf] at hsome
        exact single g hg hsome k hk
  · exact undeclared e (mem_eraseNumber he).1

end Message

end Protoscript
