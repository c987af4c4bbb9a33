import Protoscript.Proofs.MapEdits
import Protoscript.Proofs.TwinChecks

/-!
# Ways of storing a value

A value can be stored by assignment and by the methods of views, alone or as a part of a list or dict. Every
way goes by what the check of the type finds of the value: another value of which the same is found is stored
just as well, and the heaps are doubles afterwards.

* `Storing`, `Storing.script` — the ways;
* `Script.StoresBy` — whether a computation goes by the check of a type;
* `Script.setField_doubles`, `Script.checkPairs_twins`, `Script.storesBy_item` — what is shared by the ways;
* `Storing.storesBy` — all of them do.
-/

namespace Protoscript

/-! ## Lists with a hole -/

/-- Checks of all elements of a list find something of each. They find the same, if one element is replaced by
another one of which the same is found. -/
theorem Except.mapM_replace {α β ε : Type} {k : α → Except ε β} {before after : List α} {x : α} {cs : List β}
    (hcs : (before ++ x :: after).mapM k = .ok cs) :
    ∃ c, k x = .ok c ∧ ∀ {l : α → Except ε β} {y : α}, (∀ z, z ∈ before ∨ z ∈ after → l z = k z) →
      l y = .ok c → (before ++ y :: after).mapM l = .ok cs := by
  induction before generalizing cs with
  | nil =>
    rw [List.nil_append, List.mapM_cons, Except.bind_ok] at hcs
    obtain ⟨c, hc, hcs⟩ := hcs
    refine ⟨c, hc, fun {l y} hsame hy => ?_⟩
    rw [List.nil_append, List.mapM_cons, hy, Except.mapM_congr fun z hz => hsame z (.inr hz)]
    exact hcs
  | cons b before ih =>
    rw [List.cons_append, List.mapM_cons, Except.bind_ok] at hcs
    obtain ⟨d, hd, hcs⟩ := hcs
    obtain ⟨ds, hds, hcs⟩ := Except.bind_ok.1 hcs
    cases hcs
    obtain ⟨c, hc, hrest⟩ := ih hds
    refine ⟨c, hc, fun {l y} hsame hy => ?_⟩
    rw [List.cons_append, List.mapM_cons, hsame b (.inl (.head _)), hd,
      hrest (fun z hz => hsame z (hz.imp_left (List.mem_cons_of_mem _))) hy]
    rfl

/-! ## The ways -/

/-- How values are passed together. -/
inductive Packing where
  | list
  | tuple

/-- Values as one value of a heap, and the heap with it. -/
def Heap.pack (h : Heap) (items : List Value) : Packing → Value × Heap
  | .list => h.newList items
  | .tuple => (.tuple items, h)

/-- A way of storing a value. -/
inductive Storing where
  /-- assigns it to a field -/
  | assign (r : Ref .message) (name : String)
  /-- assigns a list or tuple with it to a field -/
  | assignList (r : Ref .message) (name : String) (packing : Packing) (before after : List Value)
  /-- assigns a dict with it to a field -/
  | assignDict (r : Ref .message) (name : String) (before after : List (Value × Value)) (key : Value)
  | append (r : Ref .repeated)
  | insert (r : Ref .repeated) (index : Int)
  | setAt (r : Ref .repeated) (index : Int)
  /-- appends the items of a list or tuple with it -/
  | extend (r : Ref .repeated) (packing : Packing) (before after : List Value)
  | mapSet (r : Ref .map) (key : Value)
  | mapSetDefault (r : Ref .map) (key : Value)
  /-- updates a view with a dict with it -/
  | updateDict (r : Ref .map) (before after : List (Value × Value)) (key : Value)
  /-- updates a view with a list or tuple of pairs, one of them with it -/
  | updatePairs (r : Ref .map) (packing : Packing) (before after : List (Value × Value)) (key : Value)
  /-- updates a view with keyword arguments, one of them with it -/
  | updateNamed (r : Ref .map) (before after : Keywords) (name : String)

namespace Storing

/-- What a script does to store a value. -/
def script : Storing → Value → Script Unit
  | assign r name, v => Script.setField r name v
  | assignList r name packing before after, v => do
    Script.setField r name (← modifyGet (·.pack (before ++ v :: after) packing))
  | assignDict r name before after key, v => do
    Script.setField r name (← modifyGet (·.newDict (before ++ (key, v) :: after)))
  | append r, v => Script.append r v
  | insert r index, v => Script.insert r index v
  | setAt r index, v => Script.setAt r index v
  | extend r packing before after, v => do
    Script.extend r (← modifyGet (·.pack (before ++ v :: after) packing))
  | mapSet r key, v => Script.mapSet r key v
  | mapSetDefault r key, v => do
    let _ ← Script.mapSetDefault r key v
  | updateDict r before after key, v => do
    Script.mapUpdate r (some (← modifyGet (·.newDict (before ++ (key, v) :: after)))) []
  | updatePairs r packing before after key, v => do
    let pairs := (before ++ (key, v) :: after).map fun e => .tuple [e.1, e.2]
    Script.mapUpdate r (some (← modifyGet (·.pack pairs packing))) []
  | updateNamed r before after name, v => Script.mapUpdate r none (before ++ (name, v) :: after)

/-- The values that are stored besides, or are needed to. -/
def values : Storing → List Value
  | assign _ _ | append _ | insert _ _ | setAt _ _ => []
  | assignList _ _ _ before after | extend _ _ before after => before ++ after
  | mapSet _ key | mapSetDefault _ key => [key]
  | assignDict _ _ before after key | updateDict _ before after key
  | updatePairs _ _ before after key =>
    key :: (before ++ after).flatMap fun e => [e.1, e.2]
  | updateNamed _ before after _ => (before ++ after).map (·.2)

/-- The message or view that is written to. -/
def place : Storing → Place
  | assign r _ | assignList r _ _ _ _ | assignDict r _ _ _ _ => ⟨.message, r⟩
  | append r | insert r _ | setAt r _ | extend r _ _ _ => ⟨.repeated, r⟩
  | mapSet r _ | mapSetDefault r _ | updateDict r _ _ _ | updatePairs r _ _ _ _ | updateNamed r _ _ _ =>
    ⟨.map, r⟩

/-- The configuration that goes for the place. -/
def config (h : Heap) : Storing → Config
  | assign r _ | assignList r _ _ _ _ | assignDict r _ _ _ _ => (h.cell r).config
  | append r | insert r _ | setAt r _ | extend r _ _ _ => (h.cell r).config
  | mapSet r _ | mapSetDefault r _ | updateDict r _ _ _ | updatePairs r _ _ _ _ | updateNamed r _ _ _ =>
    (h.cell r).config

/-- Whether values of a type are stored this way. -/
def Takes (h : Heap) (kind : Kind) : Storing → Prop
  | assign r name => ∃ f, (h.cell r).content.descriptor.field? name = some f ∧ f.isMap = false ∧
      f.isList = false ∧ f.kind = kind
  | assignList r name _ _ _ => ∃ f, (h.cell r).content.descriptor.field? name = some f ∧ f.isList = true ∧
      f.kind = kind
  | assignDict r name _ _ _ => ∃ f, (h.cell r).content.descriptor.field? name = some f ∧ f.isMap = true ∧
      f.valueKind = kind
  | append r | insert r _ | setAt r _ | extend r _ _ _ => (h.cell r).kind = kind
  | mapSet r _ | mapSetDefault r _ | updateDict r _ _ _ | updatePairs r _ _ _ _ | updateNamed r _ _ _ =>
    (h.cell r).field.valueKind = kind

/-- Whether a value is checked and stored when it is given: a default is not if its key is there. -/
def Stores (h : Heap) : Storing → Prop
  | mapSetDefault r key => h.lookup? key (h.cell r).entries = none
  | _ => True

end Storing

namespace Heap

/-- Whether a value is of a heap that has grown from a first one. -/
structure Lends (h b : Heap) (x : Value) : Prop where
  grown : h.Grows b
  closed : b.Closed
  within : x.Within b

variable {h b₁ g₁ : Heap} {kind : Kind} {config : Config} {x : Value}

theorem grows_pack (h : Heap) (items : List Value) (packing : Packing) :
    h.Grows (h.pack items packing).2 := by
  cases packing with
  | list => exact h.grows_alloc (s := .list) (by decide) _
  | tuple => exact .refl ∅ h

theorem grows_newDict (h : Heap) (entries : List (Value × Value)) : h.Grows (h.newDict entries).2 :=
  h.grows_alloc (s := .dict) (by decide) _

theorem isSequence_pack (h : Heap) (items : List Value) (packing : Packing) :
    (h.pack items packing).1.isSequence = true := by
  cases packing <;> rfl

theorem iterate_pack (h : Heap) (items : List Value) (packing : Packing) :
    (h.pack items packing).2.iterate (h.pack items packing).1 = .ok items := by
  cases packing with
  | list => exact congrArg (fun c : ListCell => Except.ok c.items) (cell_alloc_self h (s := .list) _)
  | tuple => rfl

/-- Pairs that are packed are taken as pairs. -/
theorem pairsOf_pack (h : Heap) (es : List (Value × Value)) (packing : Packing) :
    (h.pack (es.map fun e => .tuple [e.1, e.2]) packing).2.pairsOf
      (h.pack (es.map fun e => .tuple [e.1, e.2]) packing).1 = .ok es := by
  have hitems := h.iterate_pack (es.map fun e => .tuple [e.1, e.2]) packing
  unfold pairsOf
  cases packing with
  | list =>
    simp only [pack, newList, mappingEntries?] at hitems ⊢
    rw [hitems]
    exact Except.mapM_ok.2 (List.forall₂_map_left_iff.2 (List.forall₂_same.2 fun _ _ => rfl))
  | tuple =>
    simp only [pack, mappingEntries?] at hitems ⊢
    rw [hitems]
    exact Except.mapM_ok.2 (List.forall₂_map_left_iff.2 (List.forall₂_same.2 fun _ _ => rfl))

theorem mappingEntries?_newDict (h : Heap) (entries : List (Value × Value)) :
    (h.newDict entries).2.mappingEntries? (.dict (h.fresh .dict)) = some entries :=
  congrArg (fun c : DictCell => some c.entries) (cell_alloc_self h (s := .dict) _)

/-- The values of a list are of a heap, if the one that is lent is and the others are. -/
theorem Lends.within_list (hx : h.Lends b₁ x) (hg₁ : b₁.Grows g₁) {before after : List Value}
    (hothers : ∀ z, z ∈ before ∨ z ∈ after → z.Within h) : ∀ z ∈ before ++ x :: after, z.Within g₁ := by
  have hold {z : Value} (hz : z ∈ before ∨ z ∈ after) : z.Within g₁ :=
    (hothers z hz).grow (hx.grown.trans hg₁)
  intro z hz
  rcases List.mem_append.1 hz with hz | hz
  · exact hold (.inl hz)
  · rcases List.mem_cons.1 hz with rfl | hz
    · exact hx.within.grow hg₁
    · exact hold (.inr hz)

/-- So are the values of pairs. -/
theorem Lends.within_pairs (hx : h.Lends b₁ x) (hg₁ : b₁.Grows g₁) {before after : List (Value × Value)}
    {key : Value} (hkey : key.Within h)
    (hothers : ∀ e, e ∈ before ∨ e ∈ after → e.1.Within h ∧ e.2.Within h) :
    ∀ e ∈ before ++ (key, x) :: after, e.1.Within g₁ ∧ e.2.Within g₁ := by
  have hgrow := hx.grown.trans hg₁
  have hold {e : Value × Value} (he : e ∈ before ∨ e ∈ after) : e.1.Within g₁ ∧ e.2.Within g₁ :=
    ⟨(hothers e he).1.grow hgrow, (hothers e he).2.grow hgrow⟩
  intro e he
  rcases List.mem_append.1 he with he | he
  · exact hold (.inl he)
  · rcases List.mem_cons.1 he with rfl | he
    · exact ⟨hkey.grow hgrow, hx.within.grow hg₁⟩
    · exact hold (.inr he)

/-- Values can be packed on a heap that has grown. -/
theorem Lends.pack (hx : h.Lends b₁ x) {items : List Value} (hitems : ∀ z ∈ items, z.Within b₁)
    (packing : Packing) : h.Lends (b₁.pack items packing).2 (b₁.pack items packing).1 := by
  cases packing with
  | list =>
    refine ⟨hx.grown.trans (b₁.grows_pack items .list), hx.closed.alloc (s := .list) hitems, ?_⟩
    refine (Value.all_iff fun _ he => by cases he).2 fun a ha => ?_
    cases ha
    exact has_fresh_alloc b₁ .list _
  | tuple => exact ⟨hx.grown, hx.closed, Value.within_tuple.2 hitems⟩

/-- So can a dict be made of them. -/
theorem Lends.newDict (hx : h.Lends b₁ x) {entries : List (Value × Value)}
    (hentries : ∀ e ∈ entries, e.1.Within b₁ ∧ e.2.Within b₁) :
    h.Lends (b₁.newDict entries).2 (.dict (b₁.fresh .dict)) := by
  refine ⟨hx.grown.trans (b₁.grows_newDict _), hx.closed.alloc (s := .dict) (within_of_entries hentries), ?_⟩
  refine (Value.all_iff fun _ he => by cases he).2 fun a ha => ?_
  cases ha
  exact has_fresh_alloc b₁ .dict _

section

variable (hc : h.Closed)

include hc

/-- Pairs are judged as before when cells were added. -/
theorem Grows.checkUpdate (hg : h.Grows g₁) {c : MapCell} {e : Value × Value} (hkey : e.1.Within h)
    (hvalue : e.2.Within h) : g₁.checkUpdate c e = h.checkUpdate c e := by
  obtain ⟨key, value⟩ := e
  by_cases habsent : value = .absent
  · subst habsent
    rw [checkUpdate_absent, checkUpdate_absent, hg.check hc hkey]
  · rw [checkUpdate_of_ne habsent, checkUpdate_of_ne habsent, hg.check hc hkey, hg.check hc hvalue]

/-- Checks of a list find the same, if a value is replaced by one of which the same is found. -/
theorem Lends.check_replace (hx : h.Lends b₁ x) (hg₁ : b₁.Grows g₁) {before after : List Value}
    (hothers : ∀ z, z ∈ before ∨ z ∈ after → z.Within h) {ss : List Stored}
    (hss : (before ++ x :: after).mapM (g₁.check kind config) = .ok ss) :
    ∃ t, b₁.check kind config x = .ok t ∧ ∀ {b₂ g₂ y}, h.Lends b₂ y → b₂.Grows g₂ →
      b₂.check kind config y = .ok t → (before ++ y :: after).mapM (g₂.check kind config) = .ok ss := by
  have hsame {b g : Heap} {y : Value} (hy : h.Lends b y) (hg : b.Grows g) :
      ∀ z, z ∈ before ∨ z ∈ after → g.check kind config z = h.check kind config z :=
    fun z hz => (hy.grown.trans hg).check hc (hothers z hz)
  obtain ⟨t, ht, hreplace⟩ := Except.mapM_replace hss
  rw [hg₁.check hx.closed hx.within] at ht
  refine ⟨t, ht, fun hy hg₂ ht' =>
    hreplace (fun z hz => (hsame hy hg₂ z hz).trans (hsame hx hg₁ z hz).symm) ?_⟩
  rw [hg₂.check hy.closed hy.within, ht']

/-- Checks of pairs find the same, if the value of a pair is replaced by one of which the same is found. -/
theorem Lends.checkUpdate_replace (hx : h.Lends b₁ x) (habsent : x ≠ .absent) (hg₁ : b₁.Grows g₁)
    {c : MapCell} {before after : List (Value × Value)} {key : Value} (hkey : key.Within h)
    (hothers : ∀ e, e ∈ before ∨ e ∈ after → e.1.Within h ∧ e.2.Within h) {us : List (Stored × Option Stored)}
    (hus : (before ++ (key, x) :: after).mapM (g₁.checkUpdate c) = .ok us) :
    ∃ t, b₁.check c.field.valueKind c.config x = .ok t ∧ ∀ {b₂ g₂ y}, h.Lends b₂ y → b₂.Grows g₂ →
      b₂.check c.field.valueKind c.config y = .ok t →
        (before ++ (key, y) :: after).mapM (g₂.checkUpdate c) = .ok us := by
  have hsame {b g : Heap} {y : Value} (hy : h.Lends b y) (hg : b.Grows g) :
      ∀ e, e ∈ before ∨ e ∈ after → g.checkUpdate c e = h.checkUpdate c e :=
    fun e he => (hy.grown.trans hg).checkUpdate hc (hothers e he).1 (hothers e he).2
  obtain ⟨u, hu, hreplace⟩ := Except.mapM_replace hus
  rw [checkUpdate_of_ne habsent, (hx.grown.trans hg₁).check hc hkey, hg₁.check hx.closed hx.within] at hu
  obtain ⟨k, hk, hu⟩ := Except.bind_ok.1 hu
  obtain ⟨t, ht, hu⟩ := Except.bind_ok.1 hu
  cases hu
  refine ⟨t, ht, fun {b₂ g₂ y} hy hg₂ ht' =>
    hreplace (fun e he => (hsame hy hg₂ e he).trans (hsame hx hg₁ e he).symm) ?_⟩
  have habsent' : y ≠ .absent := by
    rintro rfl
    cases ht'
  rw [checkUpdate_of_ne habsent', (hy.grown.trans hg₂).check hc hkey, hg₂.check hy.closed hy.within, hk, ht']
  rfl

end

end Heap

namespace Script

variable {pools : Set Pool} {h : Heap} (hh : Heap.Reachable pools h)

/-- Whether a computation goes by what the check of a type finds of a value: if it succeeds, it does so with
every value of which the same is found, and the heaps are doubles afterwards. -/
def StoresBy (h : Heap) (kind : Kind) (config : Config) (script : Value → Script Unit) : Prop :=
  ∀ ⦃b₁ x k₁⦄, h.Lends b₁ x → x ≠ .absent → (script x).run b₁ = (.ok (), k₁) →
    ∃ t, b₁.check kind config x = .ok t ∧ ∀ ⦃b₂ y⦄, h.Lends b₂ y → b₂.check kind config y = .ok t →
      ∃ k₂ n₁ n₂, (script y).run b₂ = (.ok (), k₂) ∧ h.Doubles n₁ n₂ k₁ k₂

/-- A computation goes on with what was made on the heap. -/
theorem run_modifyGet_bind {α β : Type} (make : Heap → α × Heap) (body : α → Script β) (b : Heap) :
    Script.run (do body (← modifyGet make)) b = (body (make b).1).run (make b).2 :=
  rfl

/-- An edit goes on if what it edits is not frozen. -/
theorem edit_ok {s : Shelf} {α : Type} {a : α} {r : Ref s} {b k : Heap} {frozen : Cell s → Bool}
    {verb what : String} {body : Cell s → Script α} :
    Script.run (do
      let c ← cell r
      checkMutable (frozen c) verb what
      body c) b = (.ok a, k) ↔ frozen (b.cell r) = false ∧ (body (b.cell r)).run b = (.ok a, k) := by
  constructor
  · intro hrun
    obtain ⟨_, _, hcell, hrun⟩ := bind_ok.1 hrun
    cases hcell
    obtain ⟨_, _, hmutable, hrun⟩ := bind_ok.1 hrun
    obtain ⟨hthawed, rfl⟩ := checkMutable_ok.1 hmutable
    exact ⟨hthawed, hrun⟩
  · rintro ⟨hthawed, hrun⟩
    exact bind_ok.2 ⟨_, _, rfl, bind_ok.2 ⟨(), b, checkMutable_ok.2 ⟨hthawed, rfl⟩, hrun⟩⟩

/-! ## Items of lists -/

section

variable {r : Ref .repeated} (hr : h.Has ⟨.repeated, r⟩)

include hh hr

/-- Items that a view had are twins of themselves. -/
theorem twins_of_subset {items : List Value} (hitems : items ⊆ (h.cell r).items) {n₁ n₂ : Nat}
    {g₁ g₂ : Heap} : List.Forall₂ (h.Twin n₁ n₂ g₁ g₂) items items :=
  List.forall₂_same.2 fun v hv => .old (hh.closed ⟨.repeated, r⟩ hr v (hitems hv))

/-- A value that is checked and becomes an item of a view. -/
theorem storesBy_item (verb : String) (edit : RepeatedCell → Value → Script Unit)
    (hedit : ∀ {n₁ n₂ g₁ g₂ v w k₁}, h.Doubles n₁ n₂ g₁ g₂ → h.Twin n₁ n₂ g₁ g₂ v w →
      (edit (h.cell r) v).run g₁ = (.ok (), k₁) →
        ∃ k₂, (edit (h.cell r) w).run g₂ = (.ok (), k₂) ∧ h.Doubles n₁ n₂ k₁ k₂) :
    StoresBy h (h.cell r).kind (h.cell r).config (fun x => do
      let c ← cell r
      checkMutable c.frozen verb "list"
      let checked ← normalize c.kind x c.config
      edit c checked) := by
  intro b₁ x k₁ hx _ hrun
  obtain ⟨hthawed, hrun⟩ := edit_ok.1 hrun
  rw [hx.grown.cell hr] at hthawed hrun
  obtain ⟨v, g₁, hchecked, hrun⟩ := bind_ok.1 hrun
  obtain ⟨t, ht, hmake⟩ := ((normalize_performs hx.closed hx.within).ok_iff (.refl ∅ _)).1 hchecked
  -- the same was found of both values, so that what is made of it on the two heaps are twins
  refine ⟨t, ht, fun {b₂ y} hy ht' => ?_⟩
  have hmade := (Heap.Abreast.of_grows hx.grown hy.grown).adopt (h.cell r).kind (h.cell r).config
    (Heap.single_of_check ht)
  rcases hmake' : b₂.adopt (h.cell r).kind (h.cell r).config t with ⟨w, g₂⟩
  rw [hmake, hmake'] at hmade
  obtain ⟨k₂, hlast, hdoubles⟩ :=
    hedit (hh.doubles hmade.abreast.left hmade.abreast.right) hmade.related.twin hrun
  have hchecked' := ((normalize_performs hy.closed hy.within).ok_iff (.refl ∅ _)).2 ⟨t, ht', hmake'⟩
  refine ⟨k₂, _, _, edit_ok.2 ?_, hdoubles⟩
  rw [hy.grown.cell hr]
  exact ⟨hthawed, bind_ok.2 ⟨w, g₂, hchecked', hlast⟩⟩

omit hh in
/-- A view gets items that are twins. -/
theorem putItems_doubles {n₁ n₂ : Nat} {g₁ g₂ k₁ : Heap} (hd : h.Doubles n₁ n₂ g₁ g₂)
    {items items' : List Value} (hitems : List.Forall₂ (h.Twin n₁ n₂ g₁ g₂) items items')
    (hrun : (put r { h.cell r with items := items }).run g₁ = (.ok (), k₁)) :
    ∃ k₂, (put r { h.cell r with items := items' }).run g₂ = (.ok (), k₂) ∧ h.Doubles n₁ n₂ k₁ k₂ := by
  cases hrun
  exact ⟨_, rfl, hd.putRepeated hr ⟨rfl, rfl, hitems⟩⟩

theorem append_storesBy : StoresBy h (h.cell r).kind (h.cell r).config (append r) :=
  storesBy_item hh hr "append to" (fun c v => put r { c with items := c.items ++ [v] }) fun hd hv hrun =>
    putItems_doubles hr hd
      (List.rel_append (twins_of_subset hh hr (List.Subset.refl _)) (.cons hv .nil)) hrun

theorem insert_storesBy (index : Int) : StoresBy h (h.cell r).kind (h.cell r).config (insert r index) := by
  refine storesBy_item hh hr "insert into" (fun c v => do
    let position := (sliceBounds (some index) none c.items.length).1
    put r { c with items := c.items.take position ++ v :: c.items.drop position }) fun hd hv hrun => ?_
  exact putItems_doubles hr hd (List.rel_append (twins_of_subset hh hr (List.take_subset _ _))
    (.cons hv (twins_of_subset hh hr (List.drop_subset _ _)))) hrun

theorem setAt_storesBy (index : Int) : StoresBy h (h.cell r).kind (h.cell r).config (setAt r index) := by
  refine storesBy_item hh hr "set item of" (fun c v => do
    let position ← ofExcept (resolveIndex index c.items.length)
    put r { c with items := c.items.set position v }) fun {_ _ _ g₂ v w _} hd hv hrun => ?_
  obtain ⟨position, _, hposition, hrun⟩ := bind_ok.1 hrun
  obtain ⟨hresolved, rfl⟩ := Prod.mk.inj hposition
  have hitems := Heap.forall₂_modify (k := fun _ => v) (l := fun _ => w)
    (twins_of_subset hh hr (List.Subset.refl (h.cell r).items)) (fun _ _ _ => hv) position
  rw [← List.set_eq_modify, ← List.set_eq_modify] at hitems
  obtain ⟨k₂, hlast, hdoubles⟩ := putItems_doubles hr hd hitems hrun
  exact ⟨k₂, bind_ok.2 ⟨position, g₂, Prod.ext hresolved rfl, hlast⟩, hdoubles⟩

theorem extend_storesBy {packing : Packing} {before after : List Value}
    (hothers : ∀ z, z ∈ before ∨ z ∈ after → z.Within h) :
    StoresBy h (h.cell r).kind (h.cell r).config ((Storing.extend r packing before after).script) := by
  intro b₁ x k₁ hx _ hrun
  have hlist := hx.pack (hx.within_list (.refl ∅ _) hothers) packing
  replace hrun := (run_modifyGet_bind ..).symm.trans hrun
  obtain ⟨hthawed, hrun⟩ := edit_ok.1 hrun
  rw [hlist.grown.cell hr] at hthawed hrun
  obtain ⟨items, _, hreading, hrun⟩ := bind_ok.1 hrun
  obtain ⟨hitems, rfl⟩ := reading_ok.1 hreading
  obtain rfl := Except.ok.inj ((b₁.iterate_pack _ packing).symm.trans hitems)
  obtain ⟨vs, g₁, hchecked, hrun⟩ := bind_ok.1 hrun
  have hwithin := hlist.closed.iterate hlist.within hitems
  obtain ⟨ss, hss, hmake⟩ := ((normalizeAll_performs hlist.closed hwithin).ok_iff (.refl ∅ _)).1 hchecked
  obtain ⟨t, ht, hreplace⟩ := hx.check_replace hh.closed (b₁.grows_pack _ packing) hothers hss
  refine ⟨t, ht, fun {b₂ y} hy ht' => ?_⟩
  have hlist' := hy.pack (hy.within_list (.refl ∅ _) hothers) packing
  have hss' := hreplace hy (b₂.grows_pack (before ++ y :: after) packing) ht'
  have hmade := (Heap.Abreast.of_grows hlist.grown hlist'.grown).makeItems (h.cell r).kind (h.cell r).config
    (Heap.singles_of_check hss)
  rcases hmake' : (b₂.pack (before ++ y :: after) packing).2.makeAll
    (·.adopt (h.cell r).kind (h.cell r).config) ss with ⟨ws, g₂⟩
  rw [hmake, hmake'] at hmade
  have htwins := hmade.related.imp fun _ _ hv => hv.twin
  obtain ⟨k₂, hlast, hdoubles⟩ := putItems_doubles hr (hh.doubles hmade.abreast.left hmade.abreast.right)
    (List.rel_append (twins_of_subset hh hr (List.Subset.refl _)) htwins) hrun
  have hitems' := b₂.iterate_pack (before ++ y :: after) packing
  have hwithin' := hlist'.closed.iterate hlist'.within hitems'
  have hchecked' :=
    ((normalizeAll_performs hlist'.closed hwithin').ok_iff (.refl ∅ _)).2 ⟨ss, hss', hmake'⟩
  refine ⟨k₂, _, _, (run_modifyGet_bind ..).trans (edit_ok.2 ?_), hdoubles⟩
  rw [hlist'.grown.cell hr]
  exact ⟨hthawed, bind_ok.2 ⟨_, _, reading_ok.2 ⟨hitems', rfl⟩, bind_ok.2 ⟨ws, g₂, hchecked', hlast⟩⟩⟩

end

/-! ## Entries of maps -/

section

variable {r : Ref .map} (hr : h.Has ⟨.map, r⟩)

include hh

omit hh in
/-- Keys that two heaps have grown with are found alike. -/
theorem lookup?_of_grows (hc : h.Closed) {g : Heap} (hg : h.Grows g) {key : Value} (hkey : key.Within h)
    {entries : List (Value × Value)} (hentries : ∀ e ∈ entries, e.1.Bare ∧ e.1.Within h) :
    g.lookup? key entries = h.lookup? key entries := by
  unfold Heap.lookup?
  induction entries with
  | nil => rfl
  | cons e rest ih =>
    obtain ⟨⟨hbare, hwithin⟩, hrest⟩ := List.forall_mem_cons.1 hentries
    rw [List.find?_cons, List.find?_cons, hg.keysEqual_bare hc hbare hwithin hkey]
    split
    · rfl
    · exact ih hrest

/-- **Checks of pairs** go by what the check of one value finds, and make twins. -/
theorem checkPairs_twins {b₁ c₁ g₁ : Heap} {x : Value} (hx : h.Lends b₁ x) (habsent : x ≠ .absent)
    (hg₁ : b₁.Grows c₁) (hc₁ : c₁.Closed) {c : MapCell} {before after : List (Value × Value)} {key : Value}
    (hkey : key.Within h) (hothers : ∀ e, e ∈ before ∨ e ∈ after → e.1.Within h ∧ e.2.Within h)
    {us : List (Value × Option Value)}
    (hrun : (checkPairs c (before ++ (key, x) :: after)).run c₁ = (.ok us, g₁)) :
    ∃ t, b₁.check c.field.valueKind c.config x = .ok t ∧ ∀ {b₂ c₂ y}, h.Lends b₂ y → b₂.Grows c₂ → c₂.Closed →
      b₂.check c.field.valueKind c.config y = .ok t → ∃ us' g₂ n₁ n₂,
        (checkPairs c (before ++ (key, y) :: after)).run c₂ = (.ok us', g₂) ∧ h.Abreast n₁ n₂ g₁ g₂ ∧
          List.Forall₂ (h.TwinUpdates n₁ n₂ g₁ g₂) us us' := by
  have performs := checkPairs_performs (c := c) hc₁ (hx.within_pairs hg₁ hkey hothers)
  obtain ⟨checked, hchecked, hmake⟩ := (performs.ok_iff (.refl ∅ _)).1 hrun
  obtain ⟨t, ht, hreplace⟩ := hx.checkUpdate_replace hh.closed habsent hg₁ hkey hothers hchecked
  refine ⟨t, ht, fun {b₂ c₂ y} hy hg₂ hc₂ ht' => ?_⟩
  have hmade := (Heap.Abreast.of_grows (hx.grown.trans hg₁) (hy.grown.trans hg₂)).makeUpdates c
    (Heap.singles_of_checkUpdate hchecked)
  rcases hmake' : c₂.makeAll (·.adoptUpdate c) checked with ⟨us', g₂⟩
  rw [hmake, hmake'] at hmade
  have performs' := checkPairs_performs (c := c) hc₂ (hy.within_pairs hg₂ hkey hothers)
  have hchecked' := (performs'.ok_iff (.refl ∅ _)).2 ⟨checked, hreplace hy hg₂ ht', hmake'⟩
  exact ⟨us', g₂, _, _, hchecked', hmade.abreast, hmade.related⟩

/-- So do checks of one pair. -/
theorem checkPair_twins {b₁ g₁ : Heap} {x : Value} (hx : h.Lends b₁ x) (habsent : x ≠ .absent) {c : MapCell}
    {key : Value} (hkey : key.Within h) {u : Value × Option Value}
    (hrun : (checkPair c key x).run b₁ = (.ok u, g₁)) :
    ∃ t, b₁.check c.field.valueKind c.config x = .ok t ∧ ∀ {b₂ y}, h.Lends b₂ y →
      b₂.check c.field.valueKind c.config y = .ok t → ∃ u' g₂ n₁ n₂,
        (checkPair c key y).run b₂ = (.ok u', g₂) ∧ h.Abreast n₁ n₂ g₁ g₂ ∧
          h.TwinUpdates n₁ n₂ g₁ g₂ u u' := by
  have single {b k : Heap} {y : Value} {us : List (Value × Option Value)} :
      (checkPairs c ([] ++ (key, y) :: [])).run b = (.ok us, k) ↔
        ∃ u, (checkPair c key y).run b = (.ok u, k) ∧ us = [u] := by
    unfold checkPairs
    rw [List.nil_append, List.mapM_cons, List.mapM_nil, bind_ok]
    constructor
    · rintro ⟨u, mid, hu, hrest⟩
      cases hrest
      exact ⟨u, hu, rfl⟩
    · rintro ⟨u, hu, rfl⟩
      exact ⟨u, k, hu, rfl⟩
  obtain ⟨t, ht, htwins⟩ := checkPairs_twins hh hx habsent (.refl ∅ _) hx.closed hkey
    (fun e he => by simp at he) (single.2 ⟨u, hrun, rfl⟩)
  refine ⟨t, ht, fun {b₂ y} hy ht' => ?_⟩
  obtain ⟨us', g₂, n₁, n₂, hrun', habreast, hus⟩ := htwins hy (.refl ∅ _) hy.closed ht'
  obtain ⟨u', hu', rfl⟩ := single.1 hrun'
  cases hus with
  | cons hu _ => exact ⟨u', g₂, n₁, n₂, hu', habreast, hu⟩

include hr

/-- **Updates that are twins** leave doubles. -/
theorem commit_doubles {n₁ n₂ : Nat} {g₁ g₂ k₁ : Heap} (ha : h.Abreast n₁ n₂ g₁ g₂)
    {us us' : List (Value × Option Value)} (hus : List.Forall₂ (h.TwinUpdates n₁ n₂ g₁ g₂) us us')
    (hrun : (commit r us).run g₁ = (.ok (), k₁)) :
    ∃ k₂, (commit r us').run g₂ = (.ok (), k₂) ∧ h.Doubles n₁ n₂ k₁ k₂ := by
  have hd : h.Doubles n₁ n₂ g₁ g₂ := hh.doubles ha.left ha.right
  obtain ⟨hfield, hconfig, hentries⟩ := hd.map hr
  cases hrun
  exact ⟨_, rfl, hd.putMap hr ⟨hfield, hconfig, ha.commit hh.closed hentries hus⟩⟩

theorem mapSet_storesBy {key : Value} (hkey : key.Within h) :
    StoresBy h (h.cell r).field.valueKind (h.cell r).config (mapSet r key) := by
  intro b₁ x k₁ hx habsent hrun
  obtain ⟨hthawed, hrun⟩ := edit_ok.1 hrun
  rw [hx.grown.cell hr] at hthawed hrun
  obtain ⟨u, g₁, hchecked, hrun⟩ := bind_ok.1 hrun
  obtain ⟨t, ht, htwins⟩ := checkPair_twins hh hx habsent hkey hchecked
  refine ⟨t, ht, fun {b₂ y} hy ht' => ?_⟩
  obtain ⟨u', g₂, n₁, n₂, hchecked', habreast, hu⟩ := htwins hy ht'
  obtain ⟨k₂, hlast, hdoubles⟩ := commit_doubles hh hr habreast (.cons hu .nil) hrun
  refine ⟨k₂, n₁, n₂, edit_ok.2 ?_, hdoubles⟩
  rw [hy.grown.cell hr]
  exact ⟨hthawed, bind_ok.2 ⟨u', g₂, hchecked', hlast⟩⟩

/-- The keys of a view are found alike on heaps that have grown. -/
theorem lookup?_entries {b : Heap} (hb : h.Grows b) {key : Value} (hkey : key.Within h) :
    b.lookup? key (h.cell r).entries = h.lookup? key (h.cell r).entries :=
  lookup?_of_grows hh.closed hb hkey fun e he => ⟨hh.bareKeys r e he,
    hh.closed ⟨.map, r⟩ hr e.1 (List.mem_flatMap.2 ⟨e, he, .head _⟩)⟩

/-- A default is not looked at if its key is there. -/
theorem mapSetDefault_found {key : Value} (hkey : key.Within h)
    (hfound : h.lookup? key (h.cell r).entries ≠ none) {b k : Heap} (hb : h.Grows b) {y : Value} :
    ((Storing.mapSetDefault r key).script y).run b = (.ok (), k) ↔ (h.cell r).frozen = false ∧ k = b := by
  obtain ⟨value, hvalue⟩ := Option.ne_none_iff_exists'.1 hfound
  have hlookup := (lookup?_entries hh hr hb hkey).trans hvalue
  constructor
  · intro hrun
    obtain ⟨_, _, hdefault, hrun⟩ := bind_ok.1 hrun
    cases hrun
    obtain ⟨hthawed, hbody⟩ := edit_ok.1 hdefault
    rw [hb.cell hr] at hthawed hbody
    obtain ⟨_, _, hget, hbody⟩ := bind_ok.1 hbody
    cases hget
    rw [hlookup] at hbody
    cases hbody
    exact ⟨hthawed, rfl⟩
  · rintro ⟨hthawed, rfl⟩
    refine bind_ok.2 ⟨value, k, edit_ok.2 ?_, rfl⟩
    rw [hb.cell hr]
    refine ⟨hthawed, bind_ok.2 ⟨_, _, rfl, ?_⟩⟩
    rw [hlookup]
    rfl

/-- A default whose key is missing is checked and stored. -/
theorem mapSetDefault_missing {key : Value} (hkey : key.Within h)
    (hmissing : h.lookup? key (h.cell r).entries = none) {b k : Heap} (hb : h.Grows b) {y : Value} :
    ((Storing.mapSetDefault r key).script y).run b = (.ok (), k) ↔ (h.cell r).frozen = false ∧
      ∃ u mid, (checkPair (h.cell r) key y).run b = (.ok u, mid) ∧
        (u.2 = none ∧ k = mid ∨ u.2 ≠ none ∧ (commit r [u]).run mid = (.ok (), k)) := by
  have hlookup := (lookup?_entries hh hr hb hkey).trans hmissing
  constructor
  · intro hrun
    obtain ⟨v, _, hdefault, hrun⟩ := bind_ok.1 hrun
    cases hrun
    obtain ⟨hthawed, hbody⟩ := edit_ok.1 hdefault
    rw [hb.cell hr] at hthawed hbody
    obtain ⟨_, _, hget, hbody⟩ := bind_ok.1 hbody
    cases hget
    rw [hlookup] at hbody
    obtain ⟨u, mid, hu, hbody⟩ := bind_ok.1 hbody
    refine ⟨hthawed, u, mid, hu, ?_⟩
    split at hbody
    · rename_i hvalue
      obtain ⟨_, _, hcommit, hpure⟩ := bind_ok.1 hbody
      cases hpure
      exact .inr ⟨by rw [hvalue]; exact nofun, hcommit⟩
    · rename_i hvalue
      cases hbody
      exact .inl ⟨hvalue, rfl⟩
  · rintro ⟨hthawed, u, mid, hu, hlast⟩
    refine bind_ok.2 ⟨u.2.getD .absent, k, edit_ok.2 ?_, rfl⟩
    rw [hb.cell hr]
    refine ⟨hthawed, bind_ok.2 ⟨_, _, rfl, ?_⟩⟩
    rw [hlookup]
    refine bind_ok.2 ⟨u, mid, hu, ?_⟩
    rcases hlast with ⟨hunset, rfl⟩ | ⟨hset, hcommit⟩
    · rw [hunset]
      rfl
    · obtain ⟨value, hvalue⟩ := Option.ne_none_iff_exists'.1 hset
      rw [hvalue]
      exact bind_ok.2 ⟨(), k, hcommit, rfl⟩

theorem mapSetDefault_storesBy {key : Value} (hkey : key.Within h)
    (hmissing : h.lookup? key (h.cell r).entries = none) :
    StoresBy h (h.cell r).field.valueKind (h.cell r).config ((Storing.mapSetDefault r key).script) := by
  intro b₁ x k₁ hx habsent hrun
  obtain ⟨hthawed, u, g₁, hchecked, hlast⟩ := (mapSetDefault_missing hh hr hkey hmissing hx.grown).1 hrun
  obtain ⟨t, ht, htwins⟩ := checkPair_twins hh hx habsent hkey hchecked
  refine ⟨t, ht, fun {b₂ y} hy ht' => ?_⟩
  obtain ⟨u', g₂, n₁, n₂, hchecked', habreast, hu⟩ := htwins hy ht'
  -- twins are set or unset alike, so that both updates are committed or none
  have hnone : u'.2 = none ↔ u.2 = none := by
    obtain ⟨_, value⟩ := u
    obtain ⟨_, value'⟩ := u'
    cases hu.value <;> simp
  have stored {k₂ : Heap}
      (hlast' : u'.2 = none ∧ k₂ = g₂ ∨ u'.2 ≠ none ∧ (commit r [u']).run g₂ = (.ok (), k₂)) :
      ((Storing.mapSetDefault r key).script y).run b₂ = (.ok (), k₂) :=
    (mapSetDefault_missing hh hr hkey hmissing hy.grown).2 ⟨hthawed, u', g₂, hchecked', hlast'⟩
  rcases hlast with ⟨hunset, rfl⟩ | ⟨hset, hlast⟩
  · exact ⟨g₂, n₁, n₂, stored (.inl ⟨hnone.2 hunset, rfl⟩), hh.doubles habreast.left habreast.right⟩
  · obtain ⟨k₂, hlast', hdoubles⟩ := commit_doubles hh hr habreast (.cons hu .nil) hlast
    exact ⟨k₂, n₁, n₂, stored (.inr ⟨mt hnone.1 hset, hlast'⟩), hdoubles⟩

omit hh in
/-- An update checks the pairs that were given and commits them. -/
theorem mapUpdate_pairs {b k : Heap} {source : Option Value} {ks : Keywords} {pairs : List (Value × Value)}
    (hb : h.Grows b) (hpairs : b.updatePairs source ks = .ok pairs) :
    (mapUpdate r source ks).run b = (.ok (), k) ↔ (h.cell r).frozen = false ∧ ∃ us mid,
      (checkPairs (h.cell r) pairs).run b = (.ok us, mid) ∧ (commit r us).run mid = (.ok (), k) := by
  obtain ⟨given, hgiven, rfl⟩ := Except.map_ok.1 hpairs
  unfold mapUpdate
  rw [edit_ok, hb.cell hr]
  refine and_congr_right fun _ => ?_
  cases source with
  | none =>
    cases hgiven
    change Script.run (do
      let us ← checkPairs (h.cell r) ([] ++ ks.map fun k => (.text k.1, k.2))
      commit r us) b = _ ↔ _
    exact bind_ok
  | some source => rw [run_bind, reading_ok.2 ⟨hgiven, rfl⟩, bind_ok]

/-- **Updates with pairs** go by what the check of one value finds. -/
theorem mapUpdate_doubles {b₁ c₁ k₁ : Heap} {x : Value} (hx : h.Lends b₁ x) (habsent : x ≠ .absent)
    (hg₁ : b₁.Grows c₁) (hc₁ : c₁.Closed) {before after : List (Value × Value)} {key : Value}
    (hkey : key.Within h) (hothers : ∀ e, e ∈ before ∨ e ∈ after → e.1.Within h ∧ e.2.Within h)
    {source : Option Value} {ks : Keywords}
    (hpairs : c₁.updatePairs source ks = .ok (before ++ (key, x) :: after))
    (hrun : (mapUpdate r source ks).run c₁ = (.ok (), k₁)) :
    ∃ t, b₁.check (h.cell r).field.valueKind (h.cell r).config x = .ok t ∧ ∀ {b₂ c₂ y source' ks'},
      h.Lends b₂ y → b₂.Grows c₂ → c₂.Closed →
      b₂.check (h.cell r).field.valueKind (h.cell r).config y = .ok t →
        c₂.updatePairs source' ks' = .ok (before ++ (key, y) :: after) →
          ∃ k₂ n₁ n₂, (mapUpdate r source' ks').run c₂ = (.ok (), k₂) ∧ h.Doubles n₁ n₂ k₁ k₂ := by
  obtain ⟨hthawed, us, g₁, hchecked, hlast⟩ := (mapUpdate_pairs hr (hx.grown.trans hg₁) hpairs).1 hrun
  obtain ⟨t, ht, htwins⟩ := checkPairs_twins hh hx habsent hg₁ hc₁ hkey hothers hchecked
  refine ⟨t, ht, fun {b₂ c₂ y source' ks'} hy hg₂ hc₂ ht' hpairs' => ?_⟩
  obtain ⟨us', g₂, n₁, n₂, hchecked', habreast, hus⟩ := htwins hy hg₂ hc₂ ht'
  obtain ⟨k₂, hlast', hdoubles⟩ := commit_doubles hh hr habreast hus hlast
  have hrun' := (mapUpdate_pairs hr (hy.grown.trans hg₂) hpairs').2 ⟨hthawed, us', g₂, hchecked', hlast'⟩
  exact ⟨k₂, n₁, n₂, hrun', hdoubles⟩

section

variable {before after : List (Value × Value)} {key : Value} (hkey : key.Within h)
  (hothers : ∀ e, e ∈ before ∨ e ∈ after → e.1.Within h ∧ e.2.Within h)

include hkey hothers

theorem updateDict_storesBy : StoresBy h (h.cell r).field.valueKind (h.cell r).config
    ((Storing.updateDict r before after key).script) := by
  have pairs {b : Heap} {y : Value} : (b.newDict (before ++ (key, y) :: after)).2.updatePairs
      (some (.dict (b.fresh .dict))) [] = .ok (before ++ (key, y) :: after) := by
    unfold Heap.updatePairs Heap.pairsOf
    rw [Option.elim_some, Heap.mappingEntries?_newDict]
    exact congrArg Except.ok (List.append_nil _)
  have lends {b : Heap} {y : Value} (hy : h.Lends b y) :=
    hy.newDict (hy.within_pairs (.refl ∅ _) hkey hothers)
  intro b₁ x k₁ hx habsent hrun
  replace hrun := (run_modifyGet_bind ..).symm.trans hrun
  obtain ⟨t, ht, hreplace⟩ := mapUpdate_doubles hh hr hx habsent (b₁.grows_newDict _) (lends hx).closed hkey
    hothers pairs hrun
  refine ⟨t, ht, fun {b₂ y} hy ht' => ?_⟩
  obtain ⟨k₂, n₁, n₂, hlast, hdoubles⟩ := hreplace hy (b₂.grows_newDict _) (lends hy).closed ht' pairs
  exact ⟨k₂, n₁, n₂, (run_modifyGet_bind ..).trans hlast, hdoubles⟩

theorem updatePairs_storesBy (packing : Packing) : StoresBy h (h.cell r).field.valueKind (h.cell r).config
    ((Storing.updatePairs r packing before after key).script) := by
  let packed (b : Heap) (y : Value) : Value × Heap :=
    b.pack ((before ++ (key, y) :: after).map fun e => .tuple [e.1, e.2]) packing
  have pairs {b : Heap} {y : Value} :
      (packed b y).2.updatePairs (some (packed b y).1) [] = .ok (before ++ (key, y) :: after) := by
    unfold Heap.updatePairs
    rw [Option.elim_some]
    exact Except.map_ok.2 ⟨_, b.pairsOf_pack _ packing, List.append_nil _⟩
  have lends {b : Heap} {y : Value} (hy : h.Lends b y) : h.Lends (packed b y).2 (packed b y).1 := by
    refine hy.pack (fun z hz => ?_) packing
    obtain ⟨e, he, rfl⟩ := List.mem_map.1 hz
    have hwithin := hy.within_pairs (.refl ∅ _) hkey hothers e he
    exact Value.within_tuple.2 (List.forall_mem_cons.2 ⟨hwithin.1, List.forall_mem_singleton.2 hwithin.2⟩)
  intro b₁ x k₁ hx habsent hrun
  replace hrun := (run_modifyGet_bind ..).symm.trans hrun
  obtain ⟨t, ht, hreplace⟩ := mapUpdate_doubles hh hr hx habsent (b₁.grows_pack _ packing)
    (lends hx).closed hkey hothers pairs hrun
  refine ⟨t, ht, fun {b₂ y} hy ht' => ?_⟩
  obtain ⟨k₂, n₁, n₂, hlast, hdoubles⟩ := hreplace hy (b₂.grows_pack _ packing) (lends hy).closed ht' pairs
  exact ⟨k₂, n₁, n₂, (run_modifyGet_bind ..).trans hlast, hdoubles⟩

end

theorem updateNamed_storesBy {before after : Keywords} {name : String}
    (hothers : ∀ k, k ∈ before ∨ k ∈ after → k.2.Within h) :
    StoresBy h (h.cell r).field.valueKind (h.cell r).config
      ((Storing.updateNamed r before after name).script) := by
  have htext (s : String) : (Value.text s).Within h := Value.within_of_place?_none (by simp) rfl
  have pairs {b : Heap} {y : Value} : b.updatePairs none (before ++ (name, y) :: after) =
      .ok ((before.map fun k => (.text k.1, k.2)) ++
        (.text name, y) :: after.map fun k => (.text k.1, k.2)) := by
    unfold Heap.updatePairs
    simp [Except.map]
  have within {ks : Keywords} (hks : ∀ k ∈ ks, k.2.Within h) :
      ∀ e ∈ ks.map fun k => (Value.text k.1, k.2), e.1.Within h ∧ e.2.Within h := by
    intro e he
    obtain ⟨k, hk, rfl⟩ := List.mem_map.1 he
    exact ⟨htext k.1, hks k hk⟩
  intro b₁ x k₁ hx habsent hrun
  obtain ⟨t, ht, hreplace⟩ := mapUpdate_doubles hh hr hx habsent (.refl ∅ b₁) hx.closed (htext name)
    (fun e he => he.elim (within (fun k hk => hothers k (.inl hk)) e)
      (within (fun k hk => hothers k (.inr hk)) e)) pairs hrun
  refine ⟨t, ht, fun {b₂ y} hy ht' => ?_⟩
  obtain ⟨k₂, n₁, n₂, hlast, hdoubles⟩ := hreplace hy (.refl ∅ b₂) hy.closed ht' pairs
  exact ⟨k₂, n₁, n₂, hlast, hdoubles⟩

end

/-! ## Fields of messages -/

section

variable {r : Ref .message} {name : String} (hr : h.Has ⟨.message, r⟩) {f : FieldDescriptor}
  (hf : (h.cell r).content.descriptor.field? name = some f)

include hr hf

omit hh in
/-- An assignment stores what the value is stored as. -/
theorem stored_of_setField {c₁ k₁ : Heap} {x : Value} (hg₁ : h.Grows c₁)
    (hrun : (setField r name x).run c₁ = (.ok (), k₁)) : (h.cell r).frozen = false ∧ ∃ stored mid,
      (storedFor f x (h.cell r).config).run c₁ = (.ok stored, mid) ∧ k₁ = mid.put r { h.cell r with
        content := stored.elim ((h.cell r).content.clear f) ((h.cell r).content.set f)
        views := keptViews f (h.cell r).views } := by
  rw [← hg₁.cell hr] at hf ⊢
  have hthawed := (field_of_setField hrun).1
  exact ⟨hthawed, (setField_ok hf hthawed).1 hrun⟩

include hh

/-- **What stands for a value** is assigned as the value is. -/
theorem setField_doubles {c₁ c₂ k₁ : Heap} {x y : Value} (hx : h.Lends c₁ x) (hy : h.Lends c₂ y)
    (hxy : Heap.StandsFor c₁ c₂ f (h.cell r).config x y) (hrun : (setField r name x).run c₁ = (.ok (), k₁)) :
    ∃ k₂ n₁ n₂, (setField r name y).run c₂ = (.ok (), k₂) ∧ h.Doubles n₁ n₂ k₁ k₂ := by
  obtain ⟨hthawed, stored, mid, hstored, rfl⟩ := stored_of_setField hr hf hx.grown hrun
  obtain ⟨_, mid', hstored', hg₁, hg₂, rfl⟩ := storedFor_inStep hh.closed hx.closed hy.closed hx.grown
    hy.grown (.refl ∅ c₁) (.refl ∅ c₂) hx.within hy.within hxy hstored
  have hd : h.Doubles 0 0 mid mid' := hh.doubles (hx.grown.trans hg₁) (hy.grown.trans hg₂)
  rw [← hy.grown.cell hr] at hf hthawed hstored'
  refine ⟨_, 0, 0, (setField_ok hf hthawed).2 ⟨_, mid', hstored', rfl⟩, ?_⟩
  rw [hy.grown.cell hr]
  refine hd.putMessage hr fun view hview => ?_
  exact hh.closed ⟨.message, r⟩ hr _ (List.mem_map.2 ⟨view, (List.mem_filter.1 hview).1, rfl⟩)

theorem assign_storesBy (hmap : f.isMap = false) (hlist : f.isList = false) :
    StoresBy h f.kind (h.cell r).config (setField r name) := by
  intro b₁ x k₁ hx habsent hrun
  obtain ⟨-, _, _, hstored, -⟩ := stored_of_setField hr hf hx.grown hrun
  rw [storedFor_single hmap hlist, scalarFor_of_ne habsent] at hstored
  obtain ⟨t, _, ht, -⟩ := bind_ok.1 hstored
  rw [reading_ok, ← Heap.check_eq_toStored habsent] at ht
  refine ⟨t, ht.1, fun {b₂ y} hy ht' => setField_doubles hh hr hf hx hy ?_ hrun⟩
  have habsent' : y ≠ .absent := by
    rintro rfl
    cases ht'
  exact .single hmap hlist habsent habsent' fun hs => (ht.1.symm.trans hs) ▸ ht'

theorem assignList_storesBy (hlist : f.isList = true) {packing : Packing} {before after : List Value}
    (hothers : ∀ z, z ∈ before ∨ z ∈ after → z.Within h) :
    StoresBy h f.kind (h.cell r).config ((Storing.assignList r name packing before after).script) := by
  intro b₁ x k₁ hx _ hrun
  have lends {b : Heap} {y : Value} (hy : h.Lends b y) :=
    hy.pack (hy.within_list (.refl ∅ _) hothers) packing
  replace hrun := (run_modifyGet_bind ..).symm.trans hrun
  obtain ⟨-, _, _, hstored, -⟩ := stored_of_setField hr hf (lends hx).grown hrun
  obtain ⟨items, _, _, _, hitems, hchecked, -⟩ :=
    (storedFor_list hlist (b₁.isSequence_pack _ packing)).1 hstored
  obtain rfl := Except.ok.inj ((b₁.iterate_pack _ packing).symm.trans hitems)
  obtain ⟨ss, hss, -⟩ := ((normalizeAll_performs (lends hx).closed
    ((lends hx).closed.iterate (lends hx).within hitems)).ok_iff (.refl ∅ _)).1 hchecked
  obtain ⟨t, ht, hreplace⟩ := hx.check_replace hh.closed (b₁.grows_pack _ packing) hothers hss
  refine ⟨t, ht, fun {b₂ y} hy ht' => ?_⟩
  obtain ⟨k₂, n₁, n₂, hlast, hdoubles⟩ := setField_doubles hh hr hf (lends hx) (lends hy)
    (.list hlist (b₂.isSequence_pack _ packing) hitems (b₂.iterate_pack _ packing) fun hss' =>
      (hss.symm.trans hss') ▸ hreplace hy (b₂.grows_pack _ packing) ht') hrun
  exact ⟨k₂, n₁, n₂, (run_modifyGet_bind ..).trans hlast, hdoubles⟩

theorem assignDict_storesBy (hmap : f.isMap = true) {before after : List (Value × Value)} {key : Value}
    (hkey : key.Within h) (hothers : ∀ e, e ∈ before ∨ e ∈ after → e.1.Within h ∧ e.2.Within h) :
    StoresBy h f.valueKind (h.cell r).config ((Storing.assignDict r name before after key).script) := by
  intro b₁ x k₁ hx habsent hrun
  have lends {b : Heap} {y : Value} (hy : h.Lends b y) :=
    hy.newDict (hy.within_pairs (.refl ∅ _) hkey hothers)
  replace hrun := (run_modifyGet_bind ..).symm.trans hrun
  obtain ⟨-, _, _, hstored, -⟩ := stored_of_setField hr hf (lends hx).grown hrun
  obtain ⟨entries, _, _, _, hentries, hchecked, -⟩ := (storedFor_map hmap rfl).1 hstored
  obtain rfl := Option.some.inj ((Heap.mappingEntries?_newDict b₁ _).symm.trans hentries)
  obtain ⟨us, hus, -⟩ := ((checkPairs_performs (lends hx).closed
    ((lends hx).closed.mappingEntries (lends hx).within hentries)).ok_iff (.refl ∅ _)).1 hchecked
  obtain ⟨t, ht, hreplace⟩ := hx.checkUpdate_replace hh.closed habsent (b₁.grows_newDict _) hkey hothers hus
  refine ⟨t, ht, fun {b₂ y} hy ht' => ?_⟩
  obtain ⟨k₂, n₁, n₂, hlast, hdoubles⟩ := setField_doubles hh hr hf (lends hx) (lends hy)
    (.map hmap hentries (Heap.mappingEntries?_newDict b₂ _) fun hus' =>
      (hus.symm.trans hus') ▸ hreplace hy (b₂.grows_newDict _) ht') hrun
  exact ⟨k₂, n₁, n₂, (run_modifyGet_bind ..).trans hlast, hdoubles⟩

end

end Script

/-- **Every way of storing** goes by what the check of the type finds. -/
theorem Storing.storesBy {pools : Set Pool} {h : Heap} (hh : Heap.Reachable pools h) {kind : Kind}
    {way : Storing} (hplace : h.Has way.place) (htakes : way.Takes h kind) (hstores : way.Stores h)
    (hvalues : ∀ v ∈ way.values, v.Within h) : Script.StoresBy h kind (way.config h) way.script := by
  have parts {before after : List (Value × Value)}
      (hothers : ∀ v ∈ (before ++ after).flatMap fun e => [e.1, e.2], v.Within h) :
      ∀ e, e ∈ before ∨ e ∈ after → e.1.Within h ∧ e.2.Within h := fun e he =>
    have within {v : Value} (hv : v ∈ [e.1, e.2]) : v.Within h :=
      hothers v (List.mem_flatMap.2 ⟨e, List.mem_append.2 he, hv⟩)
    ⟨within (.head _), within (.tail _ (.head _))⟩
  cases way with
  | assign r name =>
    obtain ⟨f, hf, hmap, hlist, rfl⟩ := htakes
    exact Script.assign_storesBy hh hplace hf hmap hlist
  | assignList r name packing before after =>
    obtain ⟨f, hf, hlist, rfl⟩ := htakes
    exact Script.assignList_storesBy hh hplace hf hlist fun z hz => hvalues z (List.mem_append.2 hz)
  | assignDict r name before after key =>
    obtain ⟨f, hf, hmap, rfl⟩ := htakes
    obtain ⟨hkey, hothers⟩ := List.forall_mem_cons.1 hvalues
    exact Script.assignDict_storesBy hh hplace hf hmap hkey (parts hothers)
  | append r =>
    cases htakes
    exact Script.append_storesBy hh hplace
  | insert r index =>
    cases htakes
    exact Script.insert_storesBy hh hplace index
  | setAt r index =>
    cases htakes
    exact Script.setAt_storesBy hh hplace index
  | extend r packing before after =>
    cases htakes
    exact Script.extend_storesBy hh hplace fun z hz => hvalues z (List.mem_append.2 hz)
  | mapSet r key =>
    cases htakes
    exact Script.mapSet_storesBy hh hplace (List.forall_mem_singleton.1 hvalues)
  | mapSetDefault r key =>
    cases htakes
    exact Script.mapSetDefault_storesBy hh hplace (List.forall_mem_singleton.1 hvalues) hstores
  | updateDict r before after key =>
    cases htakes
    obtain ⟨hkey, hothers⟩ := List.forall_mem_cons.1 hvalues
    exact Script.updateDict_storesBy hh hplace hkey (parts hothers)
  | updatePairs r packing before after key =>
    cases htakes
    obtain ⟨hkey, hothers⟩ := List.forall_mem_cons.1 hvalues
    exact Script.updatePairs_storesBy hh hplace hkey (parts hothers) packing
  | updateNamed r before after name =>
    cases htakes
    exact Script.updateNamed_storesBy hh hplace fun k hk =>
      hvalues k.2 (List.mem_map.2 ⟨k, List.mem_append.2 hk, rfl⟩)

end Protoscript
