import Protoscript.Proofs.Blurring
import Protoscript.Proofs.Keys
import Protoscript.Proofs.Symmetry
import Protoscript.Script.Repr

/-!
# Questions that do not see the legacy switch

What is asked of a heap without changing it has the same answer when the switch is blurred; what fails
does so with the same error.

* `Kind.toStored_blurred`, `Heap.contents_blurred` — what values are stored as, and what messages hold;
* `Heap.equals_blurred`, `Heap.compare_blurred`, `Heap.hashBytes_blurred` — comparisons and hashes;
* `Heap.iterate_blurred`, `Heap.contains_blurred`, `Heap.commit_blurred` — containers;
* `Heap.repr_blurred`, `Heap.message_blurred` — the texts of values and errors.
-/

namespace Protoscript

/-! ## Stored data -/

theorem Except.mapM_blurred {α β γ δ : Type} {k : α → β} {l : γ → δ} {f : α → Except Error γ}
    {g : β → Except Error δ} {xs : List α} (hfg : ∀ x ∈ xs, g (k x) = Except.blurred l (f x)) :
    (xs.map k).mapM g = Except.blurred (List.map l) (xs.mapM f) := by
  induction xs with
  | nil => rfl
  | cons x rest ih =>
    rw [List.map_cons, List.mapM_cons, List.mapM_cons, hfg x List.mem_cons_self,
      ih fun y hy => hfg y (List.mem_cons_of_mem _ hy)]
    exact Except.blurred_bind fun y _ => Except.blurred_bind fun ys _ => rfl

section

variable (kind : Kind) (v : Value)

theorem intInRange_blurred (convert : Int → Option Scalar) :
    intInRange kind v.blurred convert = Except.blurred id (intInRange kind v convert) := by
  cases v with
  | int n =>
    simp only [intInRange, Value.blurred]
    cases convert n <;> rfl
  | _ => rfl

theorem ScalarType.toStored_blurred (t : ScalarType) :
    t.toStored v.blurred = Except.blurred id (t.toStored v) := by
  unfold toStored
  cases t.storage <;> first | exact intInRange_blurred _ v _ | (cases v <;> rfl)

theorem EnumDescriptor.toStored_blurred (d : EnumDescriptor) :
    d.toStored v.blurred = Except.blurred id (d.toStored v) := by
  cases v with
  | enum e =>
    simp only [toStored, Value.blurred]
    split <;> rfl
  | _ => rfl

theorem Kind.scalarToStored_blurred :
    kind.scalarToStored v.blurred = Except.blurred id (kind.scalarToStored v) := by
  cases kind with
  | scalar t => exact t.toStored_blurred v
  | enum d => exact d.toStored_blurred v
  | message d => rfl

theorem MessageDescriptor.box_blurred (d : MessageDescriptor) :
    d.box v.blurred = Except.blurred id (d.box v) := by
  unfold box
  cases d.boxField? with
  | none => rfl
  | some f =>
    dsimp only
    rw [f.kind.scalarToStored_blurred v]
    cases f.kind.scalarToStored v <;> rfl

end

section

variable {h : Heap} {flush flush' : Ref .message → Except Error Message} (kind : Kind) (v : Value)
  (config : Config) (hflush : ∀ r, flush' r = Except.blurred id (flush r))

include hflush

theorem MessageDescriptor.toStored_blurred (d : MessageDescriptor) :
    d.toStored h.blurred flush' v.blurred config.blurred =
      Except.blurred id (d.toStored h flush v config) := by
  have scalar (w : Value) : (if config.isScalarWrapper d.fullName then d.box w.blurred
      else .error (.typeMismatch w.blurred d.fullName)) = Except.blurred id
        (if config.isScalarWrapper d.fullName then d.box w
          else .error (.typeMismatch w d.fullName)) := by
    split
    · exact d.box_blurred w
    · rfl
  cases v with
  | message r =>
    simp only [Value.blurred, toStored, Heap.fullName_blurred, hflush]
    split
    · rfl
    · cases flush r with
      | error e => rfl
      | ok m =>
        dsimp only [Except.blurred_ok, id]
        unfold Message.adopt
        split
        · rfl
        · cases Message.ofWire? d m.toWire <;> rfl
  | tuple items => exact scalar (.tuple items)
  | _ => exact scalar _

theorem Kind.toStored_blurred : kind.toStored h.blurred flush' v.blurred config.blurred =
    Except.blurred id (kind.toStored h flush v config) := by
  cases kind with
  | message d =>
    rw [toStored, toStored, d.toStored_blurred v config hflush]
    exact Except.blurred_map fun _ => rfl
  | _ =>
    unfold toStored
    dsimp only
    rw [Kind.scalarToStored_blurred]
    exact Except.blurred_map fun _ => rfl

theorem Kind.toMapKey_blurred : kind.toMapKey h.blurred flush' v.blurred config.blurred =
    Except.blurred id (kind.toMapKey h flush v config) := by
  unfold toMapKey
  rw [kind.toStored_blurred v config hflush]
  rcases kind.toStored h flush v config with e | (s | _ | _ | _) <;> try rfl
  dsimp only [Except.blurred_ok, id]
  cases MapKey.ofScalar? s <;> rfl

theorem RepeatedCell.toStored_blurred (c : RepeatedCell) :
    RepeatedCell.toStored h.blurred flush' (Cell.blurred (s := .repeated) c) =
      Except.blurred id (c.toStored h flush) := by
  refine (congrArg (Except.map Stored.list)
    (Except.mapM_blurred (l := id) fun v _ => c.kind.toStored_blurred v c.config hflush)).trans ?_
  exact Except.blurred_map fun _ => by rw [List.map_id]

theorem MapCell.storedEntry_blurred (c : MapCell) (e : Value × Value) :
    MapCell.storedEntry h.blurred flush' (Cell.blurred (s := .map) c) (Value.blurredEntry e) =
      Except.blurred id (c.storedEntry h flush e) := by
  refine (congrArg₂ (· >>= ·) (c.field.keyKind.toMapKey_blurred e.1 c.config hflush) rfl).trans
    (Except.blurred_bind fun key _ => ?_)
  refine (congrArg₂ (· >>= ·) (c.field.valueKind.toStored_blurred e.2 c.config hflush) rfl).trans
    (Except.blurred_bind fun s _ => rfl)

theorem MapCell.toStored_blurred (c : MapCell) :
    MapCell.toStored h.blurred flush' (Cell.blurred (s := .map) c) =
      Except.blurred id (c.toStored h flush) := by
  rw [toStored_eq, toStored_eq]
  refine (congrArg (Except.map _)
    (Except.mapM_blurred (l := id) fun e _ => storedEntry_blurred hflush c e)).trans ?_
  exact Except.blurred_map fun _ => by rw [List.map_id]

theorem Heap.viewContents_blurred :
    h.blurred.viewContents flush' v.blurred = Except.blurred id (h.viewContents flush v) := by
  cases v with
  | message r =>
    simp only [Value.blurred, viewContents, hflush]
    exact Except.blurred_map fun _ => rfl
  | «repeated» r =>
    simp only [Value.blurred, viewContents, cell_blurred]
    rw [RepeatedCell.toStored_blurred hflush]
    exact Except.blurred_map fun _ => rfl
  | map r =>
    simp only [Value.blurred, viewContents, cell_blurred]
    rw [MapCell.toStored_blurred hflush]
    exact Except.blurred_map fun _ => rfl
  | _ => rfl

end

namespace Heap

/-- **Contents** do not depend on the switch. -/
theorem contents_blurred (h : Heap) (r : Ref .message) :
    h.blurred.contents r = Except.blurred id (h.contents r) := by
  -- the views of a message are followed to later messages only
  induction hk : h.messages.size - r.index using Nat.strongRecOn generalizing r with
  | ind k ih =>
    have hsize : h.blurred.messages.size = h.messages.size := h.size_shelf_blurred .message
    have hfollow (q : Ref .message) : h.blurred.follow r q = Except.blurred id (h.follow r q) := by
      unfold follow
      rw [hsize]
      split
      · exact ih _ (by omega) q rfl
      · rfl
    have hwrite (view : String × Value) :
        h.blurred.write r (Value.blurredNamed view) = Except.blurred id (h.write r view) := by
      have hfield : (h.blurred.cell r).content.descriptor.field? (Value.blurredNamed view).1 =
          (h.cell r).content.descriptor.field? view.1 := by
        rw [cell_blurred]
        rfl
      unfold write
      rw [hfield]
      cases (h.cell r).content.descriptor.field? view.1 with
      | none => rfl
      | some f =>
        dsimp only [Value.blurredNamed]
        rw [viewContents_blurred view.2 hfollow]
        exact Except.blurred_map fun _ => rfl
    rw [contents_eq, contents_eq, cell_blurred]
    refine (congrArg (Except.map _) (Except.mapM_blurred (l := id) fun view _ => hwrite view)).trans ?_
    exact Except.blurred_map fun _ => by rw [List.map_id]; rfl

variable (h : Heap)

theorem repeatedContents_blurred (r : Ref .repeated) :
    h.blurred.repeatedContents r = Except.blurred id (h.repeatedContents r) := by
  unfold repeatedContents
  rw [cell_blurred]
  exact RepeatedCell.toStored_blurred h.contents_blurred _

theorem mapContents_blurred (r : Ref .map) :
    h.blurred.mapContents r = Except.blurred id (h.mapContents r) := by
  unfold mapContents
  rw [cell_blurred]
  exact MapCell.toStored_blurred h.contents_blurred _

theorem toStored_blurred (kind : Kind) (v : Value) (config : Config) :
    h.blurred.toStored kind v.blurred config.blurred = Except.blurred id (h.toStored kind v config) :=
  kind.toStored_blurred v config h.contents_blurred

/-! ## Equality -/

@[simp] theorem sequenceItems?_blurred (v : Value) :
    h.blurred.sequenceItems? v.blurred = (h.sequenceItems? v).map (List.map Value.blurred) := by
  cases v <;> simp [Value.blurred, sequenceItems?, Cell.blurred]

@[simp] theorem mappingEntries?_blurred (v : Value) :
    h.blurred.mappingEntries? v.blurred = (h.mappingEntries? v).map (List.map Value.blurredEntry) := by
  cases v <;> simp [Value.blurred, mappingEntries?, Cell.blurred]

theorem flatEquals_blurred (a b : Value) :
    h.blurred.flatEquals a.blurred b.blurred = Except.blurred id (h.flatEquals a b) := by
  cases a <;> cases b
  case message.message r s =>
    simp only [Value.blurred, flatEquals, fullName_blurred, contents_blurred]
    split
    · rfl
    · split
      · rfl
      · cases h.contents r <;> cases h.contents s <;> rfl
  case callable.callable c d => cases c <;> cases d <;> rfl
  all_goals rfl

theorem listEquals_blurred {eq eq' : Value → Value → Except Error Bool} {xs ys : List Value}
    (heq : ∀ x ∈ xs, ∀ y ∈ ys, eq' x.blurred y.blurred = Except.blurred id (eq x y)) :
    listEquals eq' (xs.map Value.blurred) (ys.map Value.blurred) =
      Except.blurred id (listEquals eq xs ys) := by
  induction xs generalizing ys with
  | nil => cases ys <;> rfl
  | cons x xs ih =>
    cases ys with
    | nil => rfl
    | cons y ys =>
      rw [List.map_cons, List.map_cons, listEquals, listEquals, heq x List.mem_cons_self y List.mem_cons_self]
      rcases eq x y with e | _ | _
      · rfl
      · rfl
      · exact ih fun x hx y hy => heq x (List.mem_cons_of_mem _ hx) y (List.mem_cons_of_mem _ hy)

theorem toOption_blurred {r : Except Error Bool} :
    (Except.blurred id r).toOption = r.toOption := by
  cases r <;> rfl

theorem mappingWithin_blurred {eq eq' : Value → Value → Except Error Bool}
    {xs ys : List (Value × Value)} (heq : ∀ a b, eq' a.blurred b.blurred = Except.blurred id (eq a b)) :
    mappingWithin eq' (xs.map Value.blurredEntry) (ys.map Value.blurredEntry) =
      Except.blurred id (mappingWithin eq xs ys) := by
  induction xs with
  | nil => rfl
  | cons e xs ih =>
    rw [List.map_cons, mappingWithin, mappingWithin, List.find?_map]
    have hfind : (fun d => (eq' d.1 (Value.blurredEntry e).1).toOption == some true) ∘
        Value.blurredEntry = fun d => (eq d.1 e.1).toOption == some true := by
      funext d
      simp only [Function.comp, Value.blurredEntry, heq, toOption_blurred]
    rw [hfind]
    cases ys.find? fun d => (eq d.1 e.1).toOption == some true with
    | none => rfl
    | some d =>
      dsimp only [Option.map_some, Value.blurredEntry]
      rw [heq]
      rcases eq e.2 d.2 with _ | _ | _
      · rfl
      · rfl
      · exact ih

/-- **Equality** does not depend on the switch. -/
theorem equalsWithin_blurred (depth : Nat) (a b : Value) :
    h.blurred.equalsWithin depth a.blurred b.blurred = Except.blurred id (h.equalsWithin depth a b) := by
  by_cases htuple : ∃ xs ys, a = .tuple xs ∧ b = .tuple ys
  · obtain ⟨xs, ys, rfl, rfl⟩ := htuple
    rw [Value.blurred_tuple, Value.blurred_tuple, equalsWithin_tuple, equalsWithin_tuple, List.length_map,
      List.length_map]
    split
    · refine listEquals_blurred fun x hx y _ => ?_
      have hlt := List.sizeOf_lt_of_mem hx
      exact equalsWithin_blurred depth x y
    · rfl
  by_cases hsequence : ∃ xs ys, h.sequenceItems? a = some xs ∧ h.sequenceItems? b = some ys
  · obtain ⟨xs, ys, hxs, hys⟩ := hsequence
    have hxs' : h.blurred.sequenceItems? a.blurred = some (xs.map Value.blurred) := by simp [hxs]
    have hys' : h.blurred.sequenceItems? b.blurred = some (ys.map Value.blurred) := by simp [hys]
    rw [equalsWithin_sequence hxs hys, equalsWithin_sequence hxs' hys']
    cases depth with
    | zero => rfl
    | succ depth =>
      dsimp only
      rw [List.length_map, List.length_map]
      split
      · exact listEquals_blurred fun x _ y _ => equalsWithin_blurred depth x y
      · rfl
  by_cases hmapping : ∃ xs ys, h.mappingEntries? a = some xs ∧ h.mappingEntries? b = some ys
  · obtain ⟨xs, ys, hxs, hys⟩ := hmapping
    have hxs' : h.blurred.mappingEntries? a.blurred = some (xs.map Value.blurredEntry) := by simp [hxs]
    have hys' : h.blurred.mappingEntries? b.blurred = some (ys.map Value.blurredEntry) := by simp [hys]
    rw [equalsWithin_mapping hxs hys, equalsWithin_mapping hxs' hys']
    cases depth with
    | zero => rfl
    | succ depth =>
      dsimp only
      rw [List.length_map, List.length_map]
      split
      · exact mappingWithin_blurred fun x y => equalsWithin_blurred depth x y
      · rfl
  -- values of other sorts stay of these sorts
  rw [equalsWithin_flat (fun xs ys hab => htuple ⟨xs, ys, hab⟩) (fun xs ys hab => hsequence ⟨xs, ys, hab⟩)
      fun xs ys hab => hmapping ⟨xs, ys, hab⟩,
    equalsWithin_flat (fun xs ys hab => ?_) (fun xs ys hab => ?_) fun xs ys hab => ?_]
  · exact h.flatEquals_blurred a b
  · obtain ⟨xs, rfl⟩ := Value.exists_tuple_of_blurred hab.1
    obtain ⟨ys, rfl⟩ := Value.exists_tuple_of_blurred hab.2
    exact htuple ⟨xs, ys, rfl, rfl⟩
  · simp only [sequenceItems?_blurred, Option.map_eq_some_iff] at hab
    obtain ⟨⟨xs, hxs, -⟩, ys, hys, -⟩ := hab
    exact hsequence ⟨xs, ys, hxs, hys⟩
  · simp only [mappingEntries?_blurred, Option.map_eq_some_iff] at hab
    obtain ⟨⟨xs, hxs, -⟩, ys, hys, -⟩ := hab
    exact hmapping ⟨xs, ys, hxs, hys⟩
termination_by (depth, sizeOf a)

theorem equals_blurred (a b : Value) :
    h.blurred.equals a.blurred b.blurred = Except.blurred id (h.equals a b) := by
  unfold equals
  rw [size_blurred]
  exact h.equalsWithin_blurred _ a b

@[simp] theorem keysEqual_blurred (a b : Value) :
    h.blurred.keysEqual a.blurred b.blurred = h.keysEqual a b := by
  rw [keysEqual, keysEqual, equals_blurred, toOption_blurred]

@[simp] theorem order?_blurred (a b : Value) : order? a.blurred b.blurred = order? a b := by
  cases a <;> cases b <;> rfl

theorem compare_blurred (op : Comparison) (a b : Value) :
    h.blurred.compare op a.blurred b.blurred = Except.blurred id (h.compare op a b) := by
  cases op with
  | eq => exact h.equals_blurred a b
  | ne =>
    unfold compare
    rw [equals_blurred]
    exact Except.blurred_map fun _ => rfl
  | lt | le | gt | ge =>
    unfold compare
    dsimp only
    rw [order?_blurred, typeName_blurred, typeName_blurred]
    rcases order? a b with _ | _ | o <;> rfl

/-! ## Hashes -/

mutual

theorem hashBytes_blurred (v : Value) :
    h.blurred.hashBytes v.blurred = Except.blurred id (h.hashBytes v) := by
  have unhashable (v : Value) : (.error (.unhashable (h.blurred.typeName v.blurred)) :
      Except Error (List UInt8)) = Except.blurred id (.error (.unhashable (h.typeName v))) := by
    rw [typeName_blurred]
    rfl
  cases v with
  | tuple items => rw [Value.blurred_tuple, hashBytes, hashBytes, tupleHashBytes_blurred items]
  | float x =>
    simp only [Value.blurred, hashBytes]
    cases x.truncate? with
    | none => rfl
    | some n =>
      dsimp only
      split <;> rfl
  | list r => simpa only [Value.blurred, hashBytes] using unhashable (.list r)
  | dict r => simpa only [Value.blurred, hashBytes] using unhashable (.dict r)
  | message r => simpa only [Value.blurred, hashBytes] using unhashable (.message r)
  | «repeated» r => simpa only [Value.blurred, hashBytes] using unhashable (.repeated r)
  | map r => simpa only [Value.blurred, hashBytes] using unhashable (.map r)
  | callable c =>
    simp only [Value.blurred, hashBytes]
    cases c <;> rfl
  | _ => simp [Value.blurred, hashBytes] <;> rfl

theorem tupleHashBytes_blurred (items : List Value) :
    h.blurred.tupleHashBytes (items.map Value.blurred) = Except.blurred id (h.tupleHashBytes items) := by
  cases items with
  | nil => rfl
  | cons v rest =>
    rw [List.map_cons, tupleHashBytes, tupleHashBytes, hashBytes_blurred v]
    cases h.hashBytes v with
    | error e => rfl
    | ok bytes =>
      dsimp only [Except.blurred_ok, id]
      rw [tupleHashBytes_blurred rest]
      exact Except.blurred_map fun _ => rfl

end

/-! ## Containers -/

@[simp] theorem findKey?_blurred (key : Value) (entries : List (Value × Value)) :
    h.blurred.findKey? key.blurred (entries.map Value.blurredEntry) = h.findKey? key entries := by
  unfold findKey?
  rw [List.findIdx?_map]
  simp only [Function.comp_def, Value.blurredEntry, keysEqual_blurred]

@[simp] theorem lookup?_blurred (key : Value) (entries : List (Value × Value)) :
    h.blurred.lookup? key.blurred (entries.map Value.blurredEntry) =
      (h.lookup? key entries).map Value.blurred := by
  unfold lookup?
  rw [List.find?_map, Option.map_map, Option.map_map]
  simp only [Function.comp_def, Value.blurredEntry, keysEqual_blurred]

theorem unsupported_blurred (op : String) (a : Value) :
    h.blurred.unsupported op a.blurred = (h.unsupported op a).blurred := by
  rw [unsupported, typeName_blurred]
  rfl

theorem unsupportedFor_blurred (op : String) (a b : Value) :
    h.blurred.unsupportedFor op a.blurred b.blurred = (h.unsupportedFor op a b).blurred := by
  rw [unsupportedFor, typeName_blurred, typeName_blurred]
  rfl

theorem iterate_blurred (v : Value) :
    h.blurred.iterate v.blurred = Except.blurred (List.map Value.blurred) (h.iterate v) := by
  cases v with
  | tuple | list | dict | «repeated» | map =>
    simp [Value.blurred, iterate, Cell.blurred, Value.blurredEntry, Function.comp_def]
  | _ => exact congrArg Except.error (h.unsupported_blurred "iterate" _)

theorem length_blurred (v : Value) :
    h.blurred.length v.blurred = Except.blurred id (h.length v) := by
  cases v with
  | text | bytes | tuple | list | dict | «repeated» | map => simp [Value.blurred, length, Cell.blurred]
  | _ => exact congrArg Except.error (h.unsupported_blurred "len" _)

theorem contains_blurred (v needle : Value) :
    h.blurred.contains v.blurred needle.blurred = Except.blurred id (h.contains v needle) := by
  cases v with
  | text s =>
    cases needle with
    | text => rfl
    | _ => exact congrArg Except.error (h.unsupportedFor_blurred "in" (.text s) _)
  | dict r =>
    simp only [Value.blurred, contains, hashBytes_blurred, cell_blurred, Cell.blurred, lookup?_blurred,
      Option.isSome_map]
    exact Except.blurred_map fun _ => rfl
  | tuple | list | «repeated» | map => simp [Value.blurred, contains, Cell.blurred, Function.comp_def]
  | _ => exact congrArg Except.error (h.unsupportedFor_blurred "in" _ _)

/-- The pairs that a view is updated with. -/
theorem pairsOf_blurred (source : Value) :
    h.blurred.pairsOf source.blurred =
      Except.blurred (List.map Value.blurredEntry) (h.pairsOf source) := by
  have hitems := h.iterate_blurred source
  unfold pairsOf
  rw [mappingEntries?_blurred]
  cases h.mappingEntries? source with
  | some entries => rfl
  | none =>
    cases source with
    | list | tuple | «repeated» =>
      simp only [Option.map_none, Value.blurred] at hitems ⊢
      rw [hitems]
      rcases h.iterate _ with e | items
      · rfl
      refine Except.mapM_blurred fun pair _ => ?_
      rw [iterate_blurred]
      rcases h.iterate pair with e | parts
      · rfl
      -- only pairs have two parts
      rcases parts with _ | ⟨key, _ | ⟨value, _ | ⟨v, rest⟩⟩⟩
      · rfl
      · rfl
      · rfl
      · simp [Error.blurred]
    | _ => exact congrArg Except.error (h.unsupported_blurred "update" _)

theorem indexFrom_blurred (v : Value) (position : Nat) (items : List Value) :
    h.blurred.indexFrom v.blurred position (items.map Value.blurred) =
      Except.blurred id (h.indexFrom v position items) := by
  induction items generalizing position with
  | nil => rfl
  | cons item rest ih =>
    rw [List.map_cons, indexFrom, indexFrom, equals_blurred]
    rcases h.equals item v with _ | _ | _
    · rfl
    · exact ih _
    · rfl

theorem setValueAt_blurred (position : Nat) (v : Value) (entries : List (Value × Value)) :
    setValueAt position v.blurred (entries.map Value.blurredEntry) =
      (setValueAt position v entries).map Value.blurredEntry := by
  unfold setValueAt
  refine List.ext_getElem (by simp) fun i hi hi' => ?_
  simp only [List.getElem_modify, List.getElem_map]
  split <;> rfl

theorem commit_blurred (entries : List (Value × Value)) (updates : List (Value × Option Value)) :
    h.blurred.commit (entries.map Value.blurredEntry) (updates.map Value.blurredUpdate) =
      (h.commit entries updates).map Value.blurredEntry := by
  induction updates generalizing entries with
  | nil => rfl
  | cons u rest ih =>
    obtain ⟨key, value⟩ := u
    refine Eq.trans (congrArg (h.blurred.commit · (rest.map Value.blurredUpdate)) ?_) (ih _)
    dsimp only [Value.blurredUpdate]
    rw [findKey?_blurred]
    cases h.findKey? key entries <;> cases value <;>
      simp [List.eraseIdx_map, setValueAt_blurred, Value.blurredEntry]

/-! ## Texts -/

mutual

/-- **The text of a value** does not depend on the switch. -/
theorem reprWithin_blurred (depth : Nat) (v : Value) :
    h.blurred.reprWithin depth v.blurred = h.reprWithin depth v := by
  cases v with
  | tuple items =>
    rw [Value.blurred_tuple, reprWithin, reprWithin, tupleReprs_blurred depth items, List.length_map]
  | list r =>
    cases depth with
    | zero => simp [Value.blurred, reprWithin]
    | succ depth =>
      simp only [Value.blurred, reprWithin, cell_blurred, Cell.blurred, List.map_map, Function.comp_def,
        reprWithin_blurred depth]
  | «repeated» r =>
    cases depth with
    | zero => simp [Value.blurred, reprWithin]
    | succ depth =>
      simp only [Value.blurred, reprWithin, cell_blurred, Cell.blurred, List.map_map, Function.comp_def,
        reprWithin_blurred depth]
  | dict r =>
    cases depth with
    | zero => simp [Value.blurred, reprWithin]
    | succ depth =>
      simp only [Value.blurred, reprWithin, cell_blurred, Cell.blurred, List.map_map, Function.comp_def,
        Value.blurredEntry, reprWithin_blurred depth]
  | map r =>
    cases depth with
    | zero => simp [Value.blurred, reprWithin]
    | succ depth =>
      simp only [Value.blurred, reprWithin, cell_blurred, Cell.blurred, List.map_map, Function.comp_def,
        Value.blurredEntry, reprWithin_blurred depth]
  | message r =>
    have hcontents := h.contents_blurred r
    rcases hm : h.contents r with e | m <;> rw [hm] at hcontents
    · cases depth with
      | zero => simp [Value.blurred, reprWithin, hm, hcontents]
      | succ depth => simp [Value.blurred, reprWithin, hm, hcontents, messageWithin_blurred depth e]
    · simp [Value.blurred, reprWithin, hm, hcontents]
  | callable c =>
    simp only [Value.blurred, reprWithin]
    cases c <;> rfl
  | messageType | package => simp only [Value.blurred, reprWithin]; rfl
  | _ => simp only [Value.blurred, reprWithin]
termination_by (depth, sizeOf v)

theorem tupleReprs_blurred (depth : Nat) (items : List Value) :
    h.blurred.tupleReprs depth (items.map Value.blurred) = h.tupleReprs depth items := by
  cases items with
  | nil => simp [tupleReprs]
  | cons v rest =>
    rw [List.map_cons, tupleReprs, tupleReprs, reprWithin_blurred depth v, tupleReprs_blurred depth rest]
termination_by (depth, sizeOf items)

/-- **The wording of an error** does not depend on the switch. -/
theorem messageWithin_blurred (depth : Nat) (e : Error) :
    h.blurred.messageWithin depth e.blurred = h.messageWithin depth e := by
  cases e with
  | typeMismatch value expected =>
    simp only [Error.blurred, messageWithin, reprWithin_blurred depth value, typeName_blurred]
  | keyNotFound key => simp only [Error.blurred, messageWithin, reprWithin_blurred depth key]
  | elementNotFound element => simp only [Error.blurred, messageWithin, reprWithin_blurred depth element]
  | config fault => cases fault <;> simp only [Error.blurred, messageWithin]
  | _ => simp only [Error.blurred, messageWithin]
termination_by (depth, sizeOf e)

end

theorem repr_blurred (v : Value) : h.blurred.repr v.blurred = h.repr v := by
  rw [repr, repr, size_blurred, reprWithin_blurred]

theorem message_blurred (e : Error) : h.blurred.message e.blurred = h.message e := by
  rw [message, message, size_blurred, messageWithin_blurred]

end Heap

end Protoscript
