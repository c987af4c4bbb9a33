import Protoscript.Proofs.MirroredCalls

/-!
# Two loaders side by side

Two loaders of one pool whose settings differ in the legacy switch are asked for the same operations. If
all files of the pool are of the newer edition, nobody can tell which of them is which: every operation
gives the same value or fails with the same error, and messages have the same contents throughout.

* `Operation.blurred` — an operation with the switch blurred in all that it is given;
* `Operation.mirrors` — on such a pool an operation does alike, whatever the switch;
* `Heap.Tandem` — pairs of heaps that two loaders come to with the same operations;
* `Heap.Tandem.switch_unseen` — the switch cannot be seen.
-/

namespace Protoscript

/-! ## Operations -/

namespace Operation

/-- An operation with the switch blurred in all that it is given. -/
def blurred : {α : Type} → Operation α → Operation α
  | _, attr v name => attr v.blurred name
  | _, assign v name value => assign v.blurred name value.blurred
  | _, index v key => index v.blurred key.blurred
  | _, setIndex v key value => setIndex v.blurred key.blurred value.blurred
  | _, slice v start stop => slice v.blurred start stop
  | _, length v => length v.blurred
  | _, iterate v => iterate v.blurred
  | _, contains v needle => contains v.blurred needle.blurred
  | _, equals a b => equals a.blurred b.blurred
  | _, compare operator a b => compare operator a.blurred b.blurred
  | _, hash v => hash v.blurred
  | _, add a b => add a.blurred b.blurred
  | _, call v args keywords =>
    call v.blurred (args.map Value.blurred) (keywords.map Value.blurredNamed)
  | _, freeze v => freeze v.blurred
  | _, push r value => push r value.blurred
  | _, setItem r position value => setItem r position value.blurred
  | _, dictGet r key => dictGet r key.blurred
  | _, dictRemove r key => dictRemove r key.blurred
  | _, newList items => newList (items.map Value.blurred)
  | _, newDict entries => newDict (entries.map Value.blurredEntry)
  | _, repeatedOf field value config => repeatedOf field value.blurred config.blurred
  | _, mapOf field value config => mapOf field value.blurred config.blurred
  | _, newLibrary loader => newLibrary loader.blurred
  | _, decode loader fullName bytes => decode loader.blurred fullName bytes
  | _, wrap loader m => wrap loader.blurred m
  | _, unwrap v => unwrap v.blurred

/-- What an operation gave, with the switch blurred. -/
def blurredResult : {α : Type} → Operation α → α → α
  | _, attr _ _ | _, dictGet _ _ | _, dictRemove _ _ => Option.map Value.blurred
  | _, index _ _ | _, slice _ _ _ | _, add _ _ | _, call _ _ _ | _, newList _ | _, newDict _
  | _, newLibrary _ | _, decode _ _ _ | _, wrap _ _ => Value.blurred
  | _, iterate _ => List.map Value.blurred
  | _, _ => id

variable {α : Type}

theorem blurredResult_blurred (op : Operation α) : op.blurred.blurredResult = op.blurredResult := by
  cases op <;> rfl

section

variable {p : Pool} {h : Heap} (hp : p.IsProto3) (ht : h.Typed p) (hc : h.Closed)

include hp ht hc

theorem call_mirrors {v : Value} {args : List Value} {keywords : Keywords}
    (hop : (call v args keywords).Within {p} h) : Script.Mirrors Value.blurred h
      (Script.call v args keywords)
      (Script.call v.blurred (args.map Value.blurred) (keywords.map Value.blurredNamed)) := by
  have refused := h.typeName_blurred v
  cases v with
  | messageType t =>
    have ht' := Value.From.type (hop.typed _ List.mem_cons_self)
    refine Script.construct_mirrors hp ht hc ht' args fun keyword hkeyword => hop.within _ ?_
    exact List.mem_cons_of_mem _ (List.mem_append_right _ (List.mem_map.2 ⟨keyword, hkeyword, rfl⟩))
  | callable c =>
    cases c with
    | «repeated» id receiver r m => exact Script.callRepeated_mirrors r h receiver m args keywords
    | map id receiver r m =>
      exact Script.callMap_mirrors r h ((ht.ignoresSwitch hp).maps r) receiver m args keywords
    | function library f => exact Script.callFunction_mirrors library f args keywords h
  | _ => exact .bind_get (.throw (by rw [refused]; rfl))

/-- **An operation** does alike, whatever the switch, if all files of the pool are of the newer edition. -/
theorem mirrors {op : Operation α} (hop : op.Within {p} h) :
    Script.Mirrors op.blurredResult h op.script op.blurred.script := by
  have hblind := ht.ignoresSwitch hp
  cases op with
  | attr v name => exact Script.attr_mirrors hblind v name
  | assign v name value => exact Script.assignField_mirrors hblind v name value
  | index v key => exact Script.index_mirrors v key h
  | setIndex v key value => exact Script.setIndex_mirrors hblind v key value
  | slice v start stop => exact Script.slice_mirrors v start stop h
  | length v => exact .reading (h.length_blurred v)
  | iterate v => exact .reading (h.iterate_blurred v)
  | contains v needle => exact .reading (h.contains_blurred v needle)
  | equals a b => exact .reading (h.equals_blurred a b)
  | compare operator a b => exact .reading (h.compare_blurred operator a b)
  | hash v => exact Script.hash_mirrors v h
  | add a b => exact Script.add_mirrors a b h
  | call v args keywords => exact call_mirrors hp ht hc hop
  | freeze v => exact Script.freeze_mirrors v h
  | push r value => exact Script.push_mirrors value h r
  | setItem r position value => exact Script.setItem_mirrors value h r position
  | dictGet r key => exact Script.dictGet_mirrors key h r
  | dictRemove r key => exact Script.dictRemove_mirrors key h r
  | newList items => exact Script.newList_mirrors items h
  | newDict entries => exact Script.dictOf_mirrors entries h
  | repeatedOf field value config => exact Script.repeatedOf_mirrors value h field config
  | mapOf field value config =>
    exact Script.mapOf_mirrors (FieldDescriptor.Of.ignoresSwitch hp ⟨hop.admitted.1, hop.admitted.2⟩ _) value h
  | newLibrary loader => exact rfl
  | decode loader fullName bytes =>
    refine .bind (.ofExcept (loader.messageType_blurred fullName)) fun t mid _ => ?_
    dsimp only [MessageType.blurred]
    split
    · exact Script.newMessage_mirrors _ _ mid
    · exact .throw rfl
  | wrap loader m => exact Script.newMessage_mirrors m _ h
  | unwrap v =>
    cases v with
    | message r => exact Script.contents_mirrors r h
    | tuple items => exact .throw rfl
    | _ => exact .throw rfl

end

end Operation

/-! ## What may be asked for -/

theorem Value.place?_blurred (v : Value) : v.blurred.place? = v.place? := by
  cases v with
  | callable c => cases c <;> rfl
  | _ => rfl

theorem Value.pool?_blurred (v : Value) : v.blurred.pool? = v.pool? := by
  cases v with
  | callable c => cases c <;> rfl
  | _ => rfl

/-- What holds of the parts of a value holds of them when the switch is blurred. -/
theorem Value.all_blurred {P Q : Value → Prop} (hPQ : ∀ v, P v.blurred ↔ Q v) (v : Value) :
    v.blurred.All P ↔ v.All Q := by
  by_cases ht : ∃ items, v = .tuple items
  · obtain ⟨items, rfl⟩ := ht
    rw [Value.blurred_tuple, Value.all_tuple, Value.all_tuple, List.forall_mem_map]
    refine forall₂_congr fun w hw => ?_
    have hlt := List.sizeOf_lt_of_mem hw
    exact Value.all_blurred hPQ w
  · rw [Value.all_iff fun items he => ht (Value.exists_tuple_of_blurred he),
      Value.all_iff fun items he => ht ⟨items, he⟩]
    exact hPQ v
termination_by sizeOf v

theorem Value.within_blurred {h : Heap} (v : Value) : v.blurred.Within h.blurred ↔ v.Within h := by
  refine Value.all_blurred (fun v => ?_) v
  rw [Value.place?_blurred]
  unfold Heap.Has
  simp only [Heap.size_shelf_blurred]

theorem Value.from_blurred {pools : Set Pool} (v : Value) : v.blurred.From pools ↔ v.From pools := by
  refine Value.all_blurred (fun v => ?_) v
  rw [Value.pool?_blurred]
  refine and_congr Iff.rfl ?_
  cases v with
  | messageType t =>
    refine ⟨fun hv t' ht => ?_, fun hv t' ht => ?_⟩
    · cases ht
      exact hv t.blurred rfl
    · cases ht
      exact hv t rfl
  | _ => exact ⟨fun _ _ ht => (by cases ht), fun _ _ ht => (by cases ht)⟩

namespace Operation

variable {α : Type}

theorem values_blurred (op : Operation α) : op.blurred.values = op.values.map Value.blurred := by
  cases op with
  | newDict entries =>
    simp [blurred, values, List.map_flatMap, List.flatMap_map, Value.blurredEntry]
  | call => simp [blurred, values, Value.blurredNamed, Function.comp_def]
  | _ => rfl

/-- Whether an operation may be asked for does not depend on the switch. -/
theorem within_blurred {pools : Set Pool} {h : Heap} {op : Operation α} :
    op.blurred.Within pools h.blurred ↔ op.Within pools h := by
  have hadmitted : op.blurred.Admitted pools ↔ op.Admitted pools := by
    cases op <;> exact Iff.rfl
  constructor
  · rintro ⟨hwithin, htyped, hop⟩
    rw [values_blurred, List.forall_mem_map] at hwithin htyped
    exact ⟨fun v hv => (Value.within_blurred v).1 (hwithin v hv),
      fun v hv => (Value.from_blurred v).1 (htyped v hv), hadmitted.1 hop⟩
  · rintro ⟨hwithin, htyped, hop⟩
    refine ⟨?_, ?_, hadmitted.2 hop⟩ <;> rw [values_blurred, List.forall_mem_map]
    · exact fun v hv => (Value.within_blurred v).2 (hwithin v hv)
    · exact fun v hv => (Value.from_blurred v).2 (htyped v hv)

end Operation

/-! ## Two runs -/

namespace Heap

/-- Pairs of heaps that two loaders of a pool come to with the same operations, one after another. What
the operations are given may differ in the legacy switch, and in nothing else. -/
inductive Tandem (p : Pool) : Heap → Heap → Prop
  | start : Tandem p {} {}
  | step {h h' : Heap} (hh : Tandem p h h') {α : Type} {op op' : Operation α} (hop : op.Within {p} h)
    (hsame : op'.blurred = op.blurred) : Tandem p (op.run h).2 (op'.run h').2

namespace Tandem

variable {p : Pool} {h h' : Heap}

/-- **One step of two loaders.** If their heaps are the same up to the switch, so is what an operation
gives, and what it leaves behind. -/
theorem run_blurred (hp : p.IsProto3) (hh : Reachable {p} h) (hh' : Reachable {p} h')
    (hsame : h'.blurred = h.blurred) {α : Type} {op op' : Operation α} (hop : op.Within {p} h)
    (hop' : op'.Within {p} h') (heq : op'.blurred = op.blurred) :
    Except.blurred op.blurredResult (op'.run h').1 = Except.blurred op.blurredResult (op.run h).1 ∧
      (op'.run h').2.blurred = (op.run h).2.blurred := by
  have hfirst := Operation.mirrors hp hh.typed hh.closed hop
  have hsecond := Operation.mirrors hp hh'.typed hh'.closed hop'
  have hresult : op'.blurredResult = op.blurredResult := by
    rw [← op'.blurredResult_blurred, heq, op.blurredResult_blurred]
  unfold Script.Mirrors at hfirst hsecond
  rw [heq, hsame, hfirst, hresult] at hsecond
  exact (Prod.mk.inj hsecond).imp Eq.symm Eq.symm

/-- **What two loaders come to** is the same up to the switch. -/
theorem blurred_eq (hp : p.IsProto3) (hh : Tandem p h h') :
    Reachable {p} h ∧ Reachable {p} h' ∧ h'.blurred = h.blurred := by
  induction hh with
  | start => exact ⟨.refl, .refl, rfl⟩
  | @step h h' _ α op op' hop heq ih =>
    obtain ⟨hfirst, hsecond, hsame⟩ := ih
    have hop' : op'.Within {p} h' := by
      rw [← Operation.within_blurred, heq, hsame, Operation.within_blurred]
      exact hop
    exact ⟨.tail hfirst (.operation op hop), .tail hsecond (.operation op' hop'),
      (run_blurred hp hfirst hsecond hsame hop hop' heq).2⟩

/-- **The legacy switch cannot be seen** if all files of a pool are of the newer edition. Whatever two
loaders of the pool were asked for before, every message has the same contents for both of them, and
every operation gives them the same value or fails with the same error, worded alike. -/
theorem switch_unseen (hp : p.IsProto3) (hh : Tandem p h h') :
    (∀ r m, h'.contents r = .ok m ↔ h.contents r = .ok m) ∧
      ∀ {α : Type} (op op' : Operation α), op.Within {p} h → op'.blurred = op.blurred →
        Except.blurred op.blurredResult (op'.run h').1 = Except.blurred op.blurredResult (op.run h).1 ∧
          ∀ e e', (op.run h).1 = .error e → (op'.run h').1 = .error e' →
            (op'.run h').2.message e' = (op.run h).2.message e := by
  -- both runs are compared to the one with the switch left out
  obtain ⟨hfirst, hsecond, hsame⟩ := blurred_eq hp hh
  refine ⟨fun r m => ?_, fun op op' hop heq => ?_⟩
  · have hcontents := h.contents_blurred r
    rw [← hsame, h'.contents_blurred r] at hcontents
    rw [← Except.blurred_id_ok (x := h'.contents r), hcontents, Except.blurred_id_ok]
  · have hop' : op'.Within {p} h' := by
      rw [← Operation.within_blurred, heq, hsame, Operation.within_blurred]
      exact hop
    obtain ⟨hresult, hheap⟩ := run_blurred hp hfirst hsecond hsame hop hop' heq
    refine ⟨hresult, fun e e' he he' => ?_⟩
    rw [he, he'] at hresult
    rw [← message_blurred, hheap, Except.error.inj hresult, message_blurred]

end Tandem

end Heap

namespace Sample

/-- A loader with the default settings and one without the legacy rules, to which a message was given. -/
theorem tandem_tree : Heap.Tandem pool wrapped
    { messages := #[{ content := tree, config := .strict }] } := by
  have hwrap : (Operation.wrap ⟨pool, {}⟩ tree).Within {pool} {} :=
    ⟨List.forall_mem_nil _, List.forall_mem_nil _, ⟨rfl, by decide⟩, conforms_tree⟩
  have hsame : (Operation.wrap ⟨pool, .strict⟩ tree).blurred = (Operation.wrap ⟨pool, {}⟩ tree).blurred :=
    rfl
  exact .step .start hwrap hsame

/-- Neither of them lets the depth of a node be unset by assigning the absent value, and they say so in
the same words. -/
theorem depth_keeps_presence :
    ∃ e e' : Error, ((Operation.assign (.message root) "depth" .absent).run wrapped).1 = .error e ∧
      ((Operation.assign (.message root) "depth" .absent).run
        { messages := #[{ content := tree, config := .strict }] }).1 = .error e' ∧
      Heap.message { messages := #[{ content := tree, config := .strict }] } e' =
        wrapped.message e := by
  have hassign : (Operation.assign (.message root) "depth" .absent).Within {pool} wrapped :=
    within_of_given (fun v hv => by
      rcases List.mem_pair.1 hv with rfl | rfl
      · exact given_message {pool} (by decide)
      · exact given {pool} wrapped .absent (by simp) (by simp [Value.place?, Value.ref?]) rfl (by simp)) trivial
  have hunseen := (tandem_tree.switch_unseen (by decide)).2 _ _ hassign rfl
  exact ⟨_, _, rfl, rfl, hunseen.2 _ _ rfl rfl⟩

end Sample

end Protoscript
