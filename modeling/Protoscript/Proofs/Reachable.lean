import Protoscript.Proofs.Calls
import Protoscript.Proofs.Writes

/-!
# Heaps of a run

Every operation takes the heap through changes. If it succeeds it has altered its target at most,
unless it freezes, and put nothing into messages and views but what is new; if it fails it has altered
nothing.

* `Operation.runs` — every operation does so;
* `Heap.Reaches.changes`, `Heap.Reachable.closed` — a run is a sequence of changes, and the heaps of
  a run are closed.
-/

namespace Protoscript

theorem Heap.grows_count (h : Heap) (n : Nat) : h.Grows { h with nextId := n } := by
  refine ⟨fun s => ?_, fun {p} _ _ => ?_, fun {q} hq => ?_⟩
  · cases s <;> exact Nat.le_refl _
  · obtain ⟨s, r⟩ := p
    cases s <;> rfl
  · exact Heap.Alters.views (Heap.Alters.refl ∅ h) hq

namespace Script

variable {pools : Set Pool} {h : Heap}

/-! ## Operations on all values -/

theorem newId_runs : Runs pools ∅ h newId Any :=
  Runs.add rfl (.count _) (h.grows_count _) trivial

theorem freeze_runs {v : Value} (hv : v.Within h) : Runs pools Set.univ h (freeze v) (Planted h) := by
  refine ⟨.single (.freeze hv), fun hrun => ?_, fun hrun => ?_⟩
  · cases hrun
    exact ⟨h.alters_freezeAll [v], Heap.plants_of_cells (Heap.freeze_cell_freezeAll h [v])⟩
  · cases hrun

theorem newLibrary_runs {l : Loader} : Runs pools ∅ h (newLibrary l) Any :=
  Runs.add rfl (.count _) (h.grows_count _) trivial

theorem decodeMessage_runs {l : Loader} {fullName : String} {bytes : List UInt8}
    (hl : l.pool ∈ pools) :
    Runs pools ∅ h (decodeMessage l fullName bytes) (MessageMade h) := by
  refine .bind_ofExcept fun t ht => ?_
  split
  · rename_i m hm
    rw [Loader.messageType_eq] at ht
    split at ht
    · rename_i d hd
      cases ht
      exact newMessage_runs (.wire (Pool.among_of_message? hl hd) hm)
    · cases ht
  · exact .throw

theorem unwrapMessage_runs {v : Value} : Runs pools ∅ h (unwrapMessage v) Any := by
  unfold unwrapMessage
  split
  · exact .reading fun _ _ => trivial
  · exact .throw

theorem indexOperand_runs {v key : Value} :
    Runs pools ∅ h (indexOperand v key) fun h' _ => h' = h := by
  unfold indexOperand
  split
  · exact .pure rfl
  · exact .bind_get .throw

theorem itemAt_runs {v key : Value} {items : List Value} :
    Runs pools ∅ h (itemAt v key items) Any :=
  .bind indexOperand_runs (fun _ _ _ _ _ => .bind_ofExcept fun _ _ => .pure trivial)
    fun _ hp => absurd hp id

section

variable {v key value : Value} (hc : h.Closed)

/-- What is altered where a value leads to. -/
theorem Runs.at {α : Type} {s : Script α} {p : Place} (hs : Runs pools {p} h s (Planted h))
    (hp : v.place? = some p) : Runs pools v.places h s (Planted h) :=
  hs.mono (Set.singleton_subset_iff.2 hp) fun _ _ hq => hq

include hc

/-- Writing a list or dict plants nothing. -/
theorem Runs.atContainer {α : Type} {s : Script α} {Q : Heap → α → Prop} {t : Shelf} {r : Ref t}
    (hs : Runs pools {⟨t, r⟩} h s Q) (ht : t = .list ∨ t = .dict) (hr : v.place? = some ⟨t, r⟩) :
    Runs pools v.places h s (Planted h) :=
  Runs.at ⟨hs.changes, fun hrun => ⟨(hs.ok hrun).1, (hs.ok hrun).1.plants_container hc ht⟩, hs.error⟩ hr

theorem assignField_runs {name : String} (hv : Given pools h v) (hvalue : value.Within h) :
    Runs pools v.places h (assignField v name value) (Planted h) := by
  unfold assignField
  split
  · exact ((setField_runs hc (hv.within.has rfl) hvalue).planted hc fun _ _ hviews => hviews.1).at rfl
  · exact .bind_get .throw

theorem attr_runs {name : String} (hv : Given pools h v) :
    Runs pools v.places h (attr v name) (Planted h) := by
  unfold attr
  split
  · refine Runs.at ?_ rfl
    exact (messageAttr_runs hc (hv.within.has rfl)).mono subset_rfl fun _ _ hq => hq.2
  · split
    · exact .pure (.refl h)
    · exact (Runs.bind (R := Any) newId_runs (fun _ _ _ _ _ => .bind_get (.pure trivial))
        fun _ hp => absurd hp id).only hc
  · split
    · exact .pure (.refl h)
    · exact (Runs.bind (R := Any) newId_runs (fun _ _ _ _ _ => .bind_get (.pure trivial))
        fun _ hp => absurd hp id).only hc
  · exact .pure (.refl h)
  · exact .bind_ofExcept fun _ _ => .pure (.refl h)
  · exact .bind_ofExcept fun _ _ => .pure (.refl h)
  · exact .pure (.refl h)
  · split
    · exact .pure (.refl h)
    · split <;> exact .pure (.refl h)
  all_goals exact .pure (.refl h)

theorem index_runs (hv : v.Within h) : Runs pools ∅ h (index v key) Any := by
  unfold index
  split
  · exact itemAt_runs
  · exact .bind_cell itemAt_runs
  · exact .bind_cell itemAt_runs
  · refine .bind (dictGet_runs hc (hv.has rfl)) (fun _ found _ _ _ => ?_) fun _ hp => absurd hp id
    cases found with
    | none => exact .throw
    | some _ => exact .pure trivial
  · exact mapIndex_runs
  · exact .bind_get .throw

theorem setIndex_runs (hv : v.Within h) (hkey : key.Within h) (hvalue : value.Within h) :
    Runs pools v.places h (setIndex v key value) (Planted h) := by
  unfold setIndex
  split
  · rename_i r
    have hr : h.Has ⟨.list, r⟩ := hv.has rfl
    refine Runs.atContainer (Q := Any) hc (.bind indexOperand_runs ?_ fun p hp => hp ▸ hr) (.inl rfl) rfl
    rintro mid n - - rfl
    exact .bind_cell (.bind_ofExcept fun position _ => setItem_runs hc hr hvalue)
  · rename_i r
    have hr : h.Has ⟨.repeated, r⟩ := hv.has rfl
    refine Runs.at (p := ⟨.repeated, r⟩) (.bind indexOperand_runs ?_ fun p hp => hp ▸ hr) rfl
    rintro mid n - - rfl
    exact setAt_runs hc hr hvalue
  · exact (dictInsert_runs hc (hv.has rfl) hkey hvalue).atContainer hc (.inr rfl) rfl
  · exact (mapSet_runs hc (hv.has rfl) hkey hvalue).at rfl
  · exact .bind_get .throw

theorem slice_runs {start stop : Option Int} (hv : v.Within h) :
    Runs pools ∅ h (slice v start stop) Any := by
  have part {items : List Value} (hitems : ∀ v ∈ items, v.Within h) :
      Runs pools ∅ h (newList (sliceOf start stop items)) Any :=
    (newList_runs fun w hw => hitems w (List.mem_of_mem_drop (List.mem_of_mem_take hw))).mono
      subset_rfl fun _ _ _ => trivial
  unfold slice
  split
  · exact .pure trivial
  · exact .bind_cell (part (hc.items (hv.has rfl)))
  · exact .bind_cell (part (hc.repeatedItems (hv.has rfl)))
  · exact .bind_get .throw

theorem add_runs {a b : Value} (ha : a.Within h) (hb : b.Within h) :
    Runs pools ∅ h (add a b) Any := by
  have joined {r : Ref .list} (hr : h.Has ⟨.list, r⟩)
      (hb : ∀ items, h.iterate b = .ok items → ∀ v ∈ items, v.Within h) :
      Runs pools ∅ h (do newList ((← cell r).items ++ (← reading (·.iterate b)))) Any := by
    refine .bind_cell (.bind_reading fun items hi => (newList_runs fun v hv => ?_).mono
      subset_rfl fun _ _ _ => trivial)
    rcases List.mem_append.1 hv with hv | hv
    · exact hc.items hr v hv
    · exact hb items hi v hv
  unfold add
  split
  · split
    · exact .pure trivial
    · exact .bind_get .throw
  · exact .pure trivial
  · exact .pure trivial
  · exact .pure trivial
  · exact .pure trivial
  · exact .pure trivial
  · exact .pure trivial
  · exact (concat_runs hc (ha.has rfl) hb).mono subset_rfl fun _ _ _ => trivial
  · exact (concat_runs hc (ha.has rfl) hb).mono subset_rfl fun _ _ _ => trivial
  · exact joined (ha.has rfl) fun items hi => by cases hi; exact hc.items (hb.has rfl)
  · exact joined (ha.has rfl) fun items hi => by cases hi; exact hc.repeatedItems (hb.has rfl)
  · exact .bind_get .throw

theorem call_runs {args : List Value} {keywords : Keywords} (hv : Given pools h v)
    (hargs : ∀ w ∈ args, Given pools h w) (hkeywords : ∀ k ∈ keywords, Given pools h k.2) :
    Runs pools (Operation.call v args keywords).writes h (call v args keywords) (Planted h) := by
  have hargsWithin : ∀ w ∈ args, w.Within h := fun w hw => (hargs w hw).within
  have hkeywordsWithin : ∀ k ∈ keywords, k.2.Within h := fun k hk => (hkeywords k hk).within
  unfold call
  split
  · exact (construct_runs hc hv.typed.type hkeywordsWithin).only hc
  · refine (callRepeated_runs hc (hv.within.has rfl) hargsWithin hkeywordsWithin).mono ?_ fun _ _ hq => hq
    exact Set.singleton_subset_iff.2 (.inr ⟨_, rfl, rfl⟩)
  · refine (callMap_runs hc (hv.within.has rfl) hargsWithin hkeywordsWithin).mono ?_ fun _ _ hq => hq
    exact Set.singleton_subset_iff.2 (.inr ⟨_, rfl, rfl⟩)
  · exact (callFunction_runs hc (hv.typed.pool rfl) hargs hkeywords).mono (fun _ => .inr) fun _ _ hq => hq
  · exact .bind_get .throw

end

end Script

namespace Operation

variable {pools : Set Pool} {h : Heap} {α : Type}

/-- **What an operation does.** It takes the heap through changes; if it succeeds it has altered
its target only, where messages and views hold nothing else than they did or what is new, and if it
fails nothing. -/
theorem runs {op : Operation α} (hc : h.Closed) (hop : op.Within pools h) :
    Script.Runs pools op.writes h op.script (Script.Planted h) := by
  have given {v : Value} (hv : v ∈ op.values) : Script.Given pools h v :=
    ⟨hop.within v hv, hop.typed v hv⟩
  -- what may change is the place of the value that is operated on
  have target {v : Value} {s : Script α} (hs : Script.Runs pools v.places h s (Script.Planted h))
      (hv : op.target? = some v) : Script.Runs pools op.writes h s (Script.Planted h) :=
    hs.mono (fun p hp => .inr ⟨v, hv, hp⟩) fun _ _ hq => hq
  cases op with
  | attr v name => exact target (Script.attr_runs hc (given (.head _))) rfl
  | assign v name value =>
    exact target (Script.assignField_runs hc (given (.head _)) (given (.tail _ (.head _))).within) rfl
  | index v key => exact (Script.index_runs hc (given (.head _)).within).only hc
  | setIndex v key value =>
    exact target (Script.setIndex_runs hc (given (.head _)).within (given (.tail _ (.head _))).within
      (given (.tail _ (.tail _ (.head _)))).within) rfl
  | slice v start stop => exact (Script.slice_runs hc (given (.head _)).within).only hc
  | length v | iterate v | contains v needle | equals a b | compare operator a b | hash v =>
    exact .reading fun _ _ => .refl h
  | add a b =>
    exact (Script.add_runs hc (given (.head _)).within (given (.tail _ (.head _))).within).only hc
  | call v args keywords =>
    refine Script.call_runs hc (given (.head _)) (fun w hw => ?_) fun k hk => ?_
    · exact given (.tail _ (List.mem_append_left _ hw))
    · exact given (.tail _ (List.mem_append_right _ (List.mem_map.2 ⟨k, hk, rfl⟩)))
  | freeze v =>
    exact (Script.freeze_runs (hop.within v (.head _))).mono (fun _ _ => .inl rfl) fun _ _ hq => hq
  | push r value =>
    have hr := given (v := .list r) (.head _)
    refine target (v := .list r) (.atContainer hc (Script.push_runs hc ?_ ?_) (.inl rfl) rfl) rfl
    · exact hr.within.has rfl
    · exact (given (.tail _ (.head _))).within
  | setItem r position value =>
    have hr := given (v := .list r) (.head _)
    refine target (v := .list r) (.atContainer hc (Script.setItem_runs hc ?_ ?_) (.inl rfl) rfl) rfl
    · exact hr.within.has rfl
    · exact (given (.tail _ (.head _))).within
  | dictGet r key =>
    exact (Script.dictGet_runs hc ((given (v := .dict r) (.head _)).within.has rfl)).only hc
  | dictRemove r key =>
    have hr := given (v := .dict r) (.head _)
    refine target (v := .dict r) (.atContainer hc (Script.dictRemove_runs hc ?_) (.inr rfl) rfl) rfl
    exact hr.within.has rfl
  | newList items => exact (Script.newList_runs hop.within).only hc
  | newDict entries =>
    refine (Script.dictOf_runs hc fun e he => ?_).only hc
    have part {v : Value} (hv : v ∈ [e.1, e.2]) : v.Within h :=
      hop.within v (List.mem_flatMap.2 ⟨e, he, hv⟩)
    exact ⟨part (.head _), part (.tail _ (.head _))⟩
  | repeatedOf field value config =>
    exact (Script.repeatedOf_runs hc (.given hop.admitted.1 hop.admitted.2)
      (hop.within value (.head _))).only hc
  | mapOf field value config =>
    exact (Script.mapOf_runs hc (.given hop.admitted.1 hop.admitted.2)
      (hop.within value (.head _))).only hc
  | newLibrary loader => exact Script.newLibrary_runs.only hc
  | decode loader fullName bytes => exact (Script.decodeMessage_runs hop.admitted).only hc
  | wrap loader m => exact (Script.newMessage_runs (.given hop.admitted.1 hop.admitted.2)).only hc
  | unwrap v => exact Script.unwrapMessage_runs.only hc

end Operation

namespace Heap

variable {pools : Set Pool} {h h' : Heap}

/-! ## Runs -/

/-- The heap at the start has no cell, so there is nothing in its cells. -/
theorem closed_empty : ({} : Heap).Closed := by
  rintro ⟨s, r⟩ hp
  cases s <;> exact absurd hp (Nat.not_lt_zero _)

theorem Step.changes (hh : Step pools h h') (hc : h.Closed) : h.Changes pools h' := by
  cases hh with
  | operation op hop => exact (op.runs hc hop).changes

/-- **A run is a sequence of changes.** -/
theorem Reaches.changes (hh : Reaches pools h h') (hc : h.Closed) : h.Changes pools h' := by
  induction hh with
  | refl => exact .refl
  | tail _ hlast ih => exact ih.trans (hlast.changes (ih.closed hc))

/-- The heaps of a run come from the empty one by changes. -/
theorem Reachable.changes (hh : Reachable pools h) : Changes pools {} h :=
  Reaches.changes hh closed_empty

/-- **In the heaps of a run, references lead to cells.** -/
theorem Reachable.closed (hh : Reachable pools h) : h.Closed := hh.changes.closed closed_empty

end Heap

/-! ## A small run

A message with a oneof of two messages, one of which is set, and the heaps of a run in which the set
one is read and edited through its view. -/

namespace Sample

theorem takes_none (kind : KindRef) : ∀ s ∈ (none : Option Scalar), kind.takes s = true :=
  fun s hs => absurd hs (Option.not_mem_none s)

/-- A field without a declared default. -/
def field (name : String) (number : Nat) (kind : KindRef) (isRepeated : Bool) (oneof : Option Nat) :
    FieldInfo where
  name := name
  jsonName := name
  number := number
  isRepeated := isRepeated
  kind := kind
  hasPresence := oneof.isSome
  declaredDefault := none
  oneof := oneof
  takes_default := takes_none kind
  repeated_presence := fun _ hnone => by rw [hnone]; rfl

/-- A pool with one message type. -/
def pool : Pool where
  id := 0
  messages := [{
    name := "Node"
    fullName := "Node"
    package := ""
    edition := .proto3
    parent := none
    isMapEntry := false
    fields := [
      field "left" 1 (.message 0) false (some 0),
      field "right" 2 (.message 0) false (some 0),
      field "depth" 3 (.scalar .int32) false none,
      field "items" 4 (.scalar .int32) true none]
    nodup_numbers := by decide
    nodup_names := by decide }]
  enums := []
  nodup_names := by decide
  kinds_within := by decide

def node : MessageDescriptor := ⟨pool, 0⟩

def leftField : FieldDescriptor := ⟨node, field "left" 1 (.message 0) false (some 0)⟩

def rightField : FieldDescriptor := ⟨node, field "right" 2 (.message 0) false (some 0)⟩

/-- A node whose right side is an empty node. -/
def tree : Message := .mk node [(2, .message (.empty node))] []

def root : Ref .message := ⟨0⟩

def right : Ref .message := ⟨1⟩

/-- The node as a host hands it over. -/
def wrapped : Heap where
  messages := #[{ content := tree, config := {} }]

/-- After the right side was read. -/
def viewed : Heap where
  messages := #[{ content := tree, views := [("right", .message right)], config := {} },
    { content := .empty node, config := {} }]

/-- After the right side was edited through its view. -/
def edited : Heap where
  messages := #[{ content := tree, views := [("right", .message right)], config := {} },
    { content := .mk node [(3, .scalar (.i32 5))] [], config := {} }]

theorem conforms_tree : tree.Conforms :=
  (Message.Conforms.empty node).set (f := rightField) (.tail _ (.head _))
    (.single rfl rfl (.message rfl (.empty node)))

theorem reachable_wrapped : Heap.Reachable {pool} wrapped := by
  have hrun : ((Operation.wrap ⟨pool, {}⟩ tree).run {}).2 = wrapped := rfl
  rw [← hrun]
  exact .single (.operation _ ⟨nofun, nofun, ⟨Set.mem_singleton _, by decide⟩, conforms_tree⟩)

/-- A value that leads to a cell, or nowhere, and is no type can be given to an operation. -/
theorem given (pools : Set Pool) (h : Heap) (v : Value) (ht : ∀ items, v ≠ .tuple items)
    (hp : ∀ p, v.place? = some p → h.Has p) (hpool : v.pool? = none)
    (htype : ∀ t, v ≠ .messageType t) : v.Within h ∧ v.From pools := by
  refine ⟨(Value.all_iff ht).2 hp, (Value.all_iff ht).2 ⟨fun p hp => ?_, fun t e => ?_⟩⟩
  · rw [hpool] at hp
    cases hp
  · exact absurd e (htype t)

theorem given_message (pools : Set Pool) {h : Heap} {r : Ref .message}
    (hr : r.index < h.messages.size) : (Value.message r).Within h ∧ (Value.message r).From pools :=
  given pools h _ nofun (fun p hp => by cases hp; exact hr) rfl nofun

/-- An operation that is given such values can be asked for. -/
theorem within_of_given {α : Type} {pools : Set Pool} {h : Heap} {op : Operation α}
    (hop : ∀ v ∈ op.values, v.Within h ∧ v.From pools) (hadmitted : op.Admitted pools) :
    op.Within pools h :=
  ⟨fun v hv => (hop v hv).1, fun v hv => (hop v hv).2, hadmitted⟩

/-- So can one that is given a message. -/
theorem within_of_message (pools : Set Pool) (h : Heap) {α : Type} {op : Operation α}
    {r : Ref .message} (hop : op.values = [.message r]) (hr : r.index < h.messages.size)
    (hadmitted : op.Admitted pools) : op.Within pools h := by
  refine within_of_given ?_ hadmitted
  rw [hop]
  exact List.forall_mem_singleton.2 (given_message pools hr)

theorem reachable_viewed : Heap.Reachable {pool} viewed := by
  have hrun : ((Operation.attr (.message root) "right").run wrapped).2 = viewed := rfl
  rw [← hrun]
  exact reachable_wrapped.tail (.operation _ (within_of_message {pool} wrapped rfl (by decide) trivial))

theorem reachable_edited : Heap.Reachable {pool} edited := by
  have hrun : ((Operation.assign (.message right) "depth" (.int 5)).run viewed).2 = edited := rfl
  have hright := given_message {pool} (by decide : right.index < viewed.messages.size)
  have hfive := given {pool} viewed (.int 5) nofun nofun rfl nofun
  rw [← hrun]
  refine reachable_viewed.tail (.operation _ (within_of_given ?_ trivial))
  exact List.forall_mem_cons.2 ⟨hright, List.forall_mem_singleton.2 hfive⟩

end Sample

end Protoscript
