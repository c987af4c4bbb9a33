import Protoscript.Message.Merge
import Protoscript.Proofs.Holding

/-!
# Merged and filled messages conform

* `Message.takes_merge` — a message merged into another of its type;
* `Message.takes_fillDefaults` — a message with its declared defaults filled in.
-/

namespace Protoscript

/-- What holds at the start of a fold and is kept by every step holds at the end. -/
theorem List.foldl_keeps {α β : Type} {P : β → Prop} {f : β → α → β} {xs : List α}
    (h : ∀ b, ∀ x ∈ xs, P b → P (f b x)) {b : β} (hb : P b) : P (xs.foldl f b) := by
  induction xs generalizing b with
  | nil => exact hb
  | cons x rest ih =>
    exact ih (fun b y hy => h b y (.tail _ hy)) (h b x List.mem_cons_self hb)

namespace Message

/-! ## Merging -/

section

variable {d : MessageDescriptor}

theorem takes_select {m : Message} {f : FieldDescriptor} (hm : d.Takes m) : d.Takes (m.select f) :=
  List.foldl_keeps (fun _ _ _ hm => ⟨hm.descriptor, hm.conforms.clear⟩) hm

theorem takes_overlay {m : Message} {f : FieldDescriptor} {s : Stored} (hm : d.Takes m)
    (hf : f ∈ d.fields) (hmap : f.isMap = true) (hs : f.Holds s) : d.Takes (m.overlay f s) := by
  unfold overlay
  split
  · rename_i entries old hold
    have hnew := hs.holdsEntries
    have hold : f.Holds (.map old) := hold ▸ hm.get hf
    exact hm.set hf ((hold.holdsEntries.overlay hnew.keys hnew.values).holds hmap)
  · exact takes_select hm

theorem takes_extend {m : Message} {f : FieldDescriptor} {s : Stored} (hm : d.Takes m)
    (hf : f ∈ d.fields) (hlist : f.isList = true) (hs : f.Holds s) : d.Takes (m.extend f s) := by
  unfold extend
  split
  · rename_i items old hold
    obtain ⟨_, heq, hitems⟩ := hs.items hlist
    cases heq
    obtain ⟨_, heq, hold⟩ := (hold ▸ hm.get hf : f.Holds (.list old)).items hlist
    cases heq
    refine hm.set hf (.list hlist fun s hs => ?_)
    rcases List.mem_append.1 hs with hs | hs
    · exact hold s hs
    · exact hitems s hs
  · exact takes_select hm

end

/-- **Merging.** The induction is on the message merged in, whose fields are merged one after the
other. -/
theorem takes_merge {d : MessageDescriptor} {dst src : Message} (hdst : d.Takes dst) (hsrc : d.Takes src) :
    d.Takes (dst.merge src) := by
  rw [merge]
  -- one field of the other message is written after another
  refine List.foldl_keeps (fun m f hf hm => ?_) hdst
  have hf : f ∈ d.fields := hsrc.1 ▸ hf
  split
  · exact hm
  split
  · exact hm
  · rename_i child hchild
    have hholds := hsrc.stored hf hchild
    have hlt : sizeOf child < sizeOf src := by
      have := sizeOf_stored?_lt hchild
      simp only [Stored.message.sizeOf_spec] at this
      omega
    split
    · exact takes_select hm
    rename_i hno
    simp only [Bool.or_eq_true, not_or, Bool.not_eq_true] at hno
    split
    · exact hm.set hf hholds
    split
    · rename_i old hold
      have hold : f.Holds (.message old) := hold ▸ hm.get hf
      have hnew := hholds.kind hno.1 hno.2
      rcases hkind : f.kind with t | e | e
      · rw [hkind] at hnew
        cases hnew
      · rw [hkind] at hnew
        refine hm.set hf (.single hno.1 hno.2 ?_)
        rw [hkind]
        have hold := hold.kind hno.1 hno.2
        rw [hkind] at hold
        exact (takes_merge (.of_holds hold) (.of_holds hnew)).holds
      · rw [hkind] at hnew
        cases hnew
    · exact takes_select hm
  · rename_i value hvalue
    have hholds := hsrc.stored hf hvalue
    split
    · rename_i hmap
      exact takes_overlay hm hf hmap hholds
    split
    · rename_i hlist
      exact takes_extend hm hf hlist hholds
    · exact hm.set hf hholds
termination_by sizeOf src
decreasing_by
  omega

/-! ## Filling in -/

theorem map_fst_fillFields (fields : List (Nat × Stored)) :
    (fillFields fields).map (·.1) = fields.map (·.1) := by
  induction fields with
  | nil => rfl
  | cons e rest ih =>
    obtain ⟨number, value⟩ := e
    rw [fillFields, List.map_cons, List.map_cons, ih]

theorem lookupNumber_fillFields (number : Nat) (fields : List (Nat × Stored)) :
    lookupNumber number (fillFields fields) = (lookupNumber number fields).map Stored.fillDefaults := by
  induction fields with
  | nil => rfl
  | cons e rest ih =>
    obtain ⟨n, value⟩ := e
    rw [fillFields, lookupNumber, lookupNumber]
    split
    · rfl
    · exact ih

/-- One default. -/
theorem takes_fillDefault {d : MessageDescriptor} {m : Message} {f : FieldDescriptor} {s : Scalar}
    (hm : d.Takes m) (hf : f ∈ d.fields) (hs : f.info.declaredDefault = some s)
    (hno : ¬ (f.inOneof || f.isMap || f.isList || f.kind.isMessage || m.has f) = true) :
    d.Takes (m.set f (.scalar s)) := by
  simp only [Bool.or_eq_true, not_or, Bool.not_eq_true] at hno
  obtain ⟨⟨⟨⟨-, hmap⟩, hlist⟩, -⟩, -⟩ := hno
  exact hm.set hf (.single hmap hlist (.scalar (FieldDescriptor.takes_declared hs)))

end Message

theorem Stored.fillItems_eq (items : List Stored) :
    Stored.fillItems items = items.map Stored.fillDefaults := by
  induction items with
  | nil => rfl
  | cons s rest ih => rw [Stored.fillItems, List.map_cons, ih]

theorem Stored.fillEntries_eq (entries : List (MapKey × Stored)) :
    Stored.fillEntries entries = entries.map fun e => (e.1, e.2.fillDefaults) := by
  induction entries with
  | nil => rfl
  | cons e rest ih =>
    obtain ⟨key, value⟩ := e
    rw [Stored.fillEntries, List.map_cons, ih]

mutual

/-- **Filling in.** The induction is on the message, at every depth. -/
theorem Message.takes_fillDefaults {d : MessageDescriptor} {m : Message} (hm : d.Takes m) :
    d.Takes m.fillDefaults := by
  rcases hmk : m with ⟨e, fields, unknown⟩
  rw [hmk] at hm
  rw [Message.fillDefaults]
  have hd : e = d := hm.1
  -- what is stored is filled inside first, then the missing fields are added
  have hfilled : d.Takes (.mk e (Message.fillFields fields) unknown) := by
    obtain ⟨rfl, hm⟩ := hm
    refine ⟨rfl, ?_⟩
    obtain ⟨sorted, declared, held, single, undeclared⟩ := hm
    have hstored (f : FieldDescriptor) :
        (Message.mk e (Message.fillFields fields) unknown).stored? f =
          ((Message.mk e fields unknown).stored? f).map Stored.fillDefaults :=
      Message.lookupNumber_fillFields f.number fields
    refine .mk ?_ (fun entry hentry => ?_) (fun f hf s hs => ?_) (fun f hf hsome g hg => ?_) undeclared
    · rw [Message.fields_mk, Message.map_fst_fillFields]
      exact sorted
    · have hnumber : entry.1 ∈ fields.map (·.1) := by
        rw [← Message.map_fst_fillFields]
        exact List.mem_map.2 ⟨entry, hentry, rfl⟩
      obtain ⟨x, hx, hx'⟩ := List.mem_map.1 hnumber
      rw [← hx']
      exact declared x hx
    · rw [hstored] at hs
      obtain ⟨t, ht, rfl⟩ := Option.map_eq_some_iff.1 hs
      have hlt : sizeOf t < sizeOf m := hmk ▸ Message.sizeOf_stored?_lt ht
      exact FieldDescriptor.holds_fillDefaults (held f hf t ht)
    · rw [hstored, Option.isSome_map] at hsome
      rw [hstored, single f hf hsome g hg]
      rfl
  refine List.foldl_keeps (fun m f hf hm => ?_) hfilled
  have hf : f ∈ d.fields := hd ▸ hf
  split
  · rename_i s hs
    split
    · exact hm
    · rename_i hno
      exact Message.takes_fillDefault hm hf hs hno
  · exact hm
termination_by 2 * sizeOf m
decreasing_by
  omega

theorem FieldDescriptor.holds_fillDefaults {f : FieldDescriptor} {s : Stored} (hs : f.Holds s) :
    f.Holds s.fillDefaults := by
  by_cases hlist : f.isList = true
  · obtain ⟨items, hitems, hall⟩ := hs.items hlist
    rw [hitems, Stored.fillDefaults, Stored.fillItems_eq]
    refine .list hlist fun s hs => ?_
    obtain ⟨t, ht, rfl⟩ := List.mem_map.1 hs
    have hlt := List.sizeOf_lt_of_mem ht
    exact Kind.holds_fillDefaults (hall t ht)
  by_cases hmap : f.isMap = true
  · obtain ⟨entries, hentries, hkeys, hvalues, hsorted⟩ := hs.entries hmap
    rw [hentries, Stored.fillDefaults, Stored.fillEntries_eq]
    refine .map hmap (fun e he => ?_) (fun e he => ?_) ?_
    · obtain ⟨x, hx, rfl⟩ := List.mem_map.1 he
      exact hkeys x hx
    · obtain ⟨x, hx, rfl⟩ := List.mem_map.1 he
      have hlt := List.sizeOf_lt_of_mem hx
      exact Kind.holds_fillDefaults (hvalues x hx)
    · rw [List.map_map]
      exact hsorted
  · have hlist : f.isList = false := by simpa using hlist
    have hmap : f.isMap = false := by simpa using hmap
    exact .single hmap hlist (Kind.holds_fillDefaults (hs.kind hmap hlist))
termination_by 2 * sizeOf s + 1
decreasing_by
  · simp only [hitems, Stored.list.sizeOf_spec]
    omega
  · obtain ⟨key, value⟩ := x
    simp only [Prod.mk.sizeOf_spec] at hlt
    simp only [hentries, Stored.map.sizeOf_spec]
    omega
  · omega

theorem Kind.holds_fillDefaults {kind : Kind} {s : Stored} (hs : kind.Holds s) :
    kind.Holds s.fillDefaults := by
  cases hvalue : s with
  | scalar x =>
    rw [Stored.fillDefaults, ← hvalue]
    exact hs
  | message m =>
    rw [hvalue] at hs
    cases hs with
    | message hd hm =>
      rw [Stored.fillDefaults]
      exact (Message.takes_fillDefaults ⟨hd, hm⟩).holds
  | list items => exact absurd (hvalue ▸ hs) Kind.Holds.not_list
  | map entries => exact absurd (hvalue ▸ hs) Kind.Holds.not_map
termination_by 2 * sizeOf s
decreasing_by
  simp only [hvalue, Stored.message.sizeOf_spec]
  omega

end

end Protoscript
