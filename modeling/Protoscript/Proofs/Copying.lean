import Protoscript.Proofs.Flushing
import Protoscript.Proofs.ReadOut
import Protoscript.Proofs.Separation

/-!
# Copies

Whatever is stored in a message or in a view is copied, and so is what a clone or a merge takes over.
The copy and what it was made from are apart from then on: no later mutation of the one reaches the
other.

* `Copy` — what an operation makes a copy in: a field of a message, or a message as a whole;
* `Operation.Copies` — the operations that make copies;
* `Heap.Spares` — operations that alter one set of places only do not alter another one;
* `Heap.Reachable.ownership` — ownership is a forest, and copies share nothing.
-/

namespace Protoscript

variable {pools : Set Pool} {h mid h' : Heap} {p q : Place} {v w : Value}

namespace Heap

/-! ## What a value leads to -/

/-- A value leads to what is in a cell that it leads to. -/
theorem Leads.tail (hp : h.Leads v p) (hw : w ∈ (h.cell p.2).values) (hq : w.ref? = some q) :
    h.Leads v q := by
  induction hp with
  | here hv => exact .through hv hw (.here hq)
  | part hmem _ ih => exact .part hmem (ih hw)
  | through hv hu _ ih => exact .through hv hu (ih hw)

/-- What is held is in the cell of its holder. -/
theorem Holds.mem_values (hh : h.Holds p q) : ∃ w ∈ (h.cell p.2).values, w.ref? = some q := by
  cases hh with
  | @view r name v q hv hq => exact ⟨v, List.mem_map.2 ⟨_, hv, rfl⟩, hq⟩
  | @element view w p q hview hw hq =>
    refine ⟨w, ?_, hq⟩
    cases view with
    | «repeated» r =>
      cases hview
      exact hw
    | map r =>
      cases hview
      obtain ⟨e, he, rfl⟩ := List.mem_map.1 hw
      exact List.mem_flatMap.2 ⟨e, he, by simp⟩
    | _ => cases hw

/-- So a value leads to what is held by what it leads to. -/
theorem Leads.held (hp : h.Leads v p) (hq : h.Below p q) : h.Leads v q := by
  induction hq with
  | refl => exact hp
  | tail _ hlast ih =>
    obtain ⟨w, hw, he⟩ := hlast.mem_values
    exact ih.tail hw he

theorem Leads.has (hp : h.Leads v p) (hc : h.Closed) (hv : v.Within h) : h.Has p :=
  (hp.lasts (fun _ hhas => ⟨hhas, rfl⟩) hc hv).2

/-- A value that leads to nothing that was altered leads to what it led to. -/
theorem Leads.before {W : Set Place} (hp : mid.Leads v p) (ha : h.Alters W mid) (hc : h.Closed)
    (hv : v.Within h) (hW : ∀ p ∈ W, ¬ h.Leads v p) : h.Leads v p := by
  induction hp with
  | here hv' => exact .here hv'
  | part hmem _ ih =>
    exact .part hmem (ih (Value.within_tuple.1 hv _ hmem) fun p hp hq => hW p hp (.part hmem hq))
  | through hv' hw _ ih =>
    have hhas := hv.has (Value.place?_of_ref? hv')
    rw [ha.cell hhas fun hmem => hW _ hmem (.here hv')] at hw
    exact .through hv' hw (ih (hc _ hhas _ hw) fun p hp hq => hW p hp (.through hv' hw hq))

end Heap

/-! ## Copies -/

/-- What a copy is made in. -/
inductive Copy where
  /-- a field of a message -/
  | field (r : Ref .message) (name : String)
  /-- a message as a whole -/
  | whole (p : Place)

namespace Copy

/-- The place of the message with the copy. -/
def root : Copy → Place
  | field r _ => ⟨.message, r⟩
  | whole p => p

/-- What belongs to a copy on a heap: the message, and what is below the view of the field, or of all
fields. -/
def places (h : Heap) : Copy → Set Place
  | field r name => {q | q = ⟨.message, r⟩ ∨
      ∃ v p, (name, v) ∈ (h.cell r).views ∧ v.ref? = some p ∧ h.Below p q}
  | whole p => h.region {p}

/-- Whether nothing has been read of a copy yet. -/
def Bare (h : Heap) : Copy → Prop
  | field r name => ∀ v, (name, v) ∉ (h.cell r).views
  | whole p => ∀ q, ¬ h.Holds p q

/-- **A copy stays apart** from what it was apart from when it was made. -/
theorem disjoint {base : Heap} {A : Set Place} {copy : Copy} (hh : base.Continues h)
    (hA : ∀ p ∈ A, base.Has p) (hbare : copy.Bare base) (hroot : base.Has copy.root)
    (hapart : copy.root ∉ base.region A) : Disjoint (h.region A) (copy.places h) := by
  cases copy with
  | field r name =>
    refine Set.disjoint_right.2 ?_
    rintro q (rfl | ⟨v, p, hview, hp, hbelow⟩)
    · exact fun hq => hapart (hh.region_old hA hq hroot)
    · exact hh.disjoint_view hA hroot hview hbare hp hapart hbelow
  | whole p =>
    refine hh.disjoint hA (by rintro _ rfl; exact hroot) (Set.disjoint_right.2 ?_)
    rintro q ⟨_, rfl, hbelow⟩
    -- nothing is below the copy when it is made
    rcases Relation.ReflTransGen.cases_head hbelow with rfl | ⟨q', hfirst, -⟩
    · exact hapart
    · exact absurd hfirst (hbare q')

end Copy

namespace Operation

/-- Whether an operation that took `h` to `mid` made a copy: it assigned to a field, constructed or
cloned a message, merged into one, or put a new element into a view. -/
inductive Copies (h mid : Heap) : {α : Type} → Operation α → α → Copy → Prop
  | assign {r : Ref .message} {name : String} {value : Value} :
    Copies h mid (assign (.message r) name value) () (.field r name)
  | construct {t : MessageType} {args : List Value} {keywords : Keywords} {q : Ref .message} :
    Copies h mid (call (.messageType t) args keywords) (.message q) (.whole ⟨.message, q⟩)
  | clone {l : Library} {args : List Value} {keywords : Keywords} {q : Ref .message} :
    Copies h mid (call (.callable (.function l .clone)) args keywords) (.message q)
      (.whole ⟨.message, q⟩)
  | merge {l : Library} {args : List Value} {keywords : Keywords} {dst : Ref .message} :
    Copies h mid (call (.callable (.function l .merge)) args keywords) (.message dst)
      (.whole ⟨.message, dst⟩)
  /-- appending, extending, inserting, writing an item, and setting or updating entries -/
  | element {α : Type} {op : Operation α} {result : α} {view w : Value} {p q : Place}
    (hp : view.ref? = some p) (hhas : h.Has p) (hw : w ∈ mid.elements view)
    (hnew : w ∉ h.elements view) (hq : w.ref? = some q) : Copies h mid op result (.whole q)

end Operation

/-! ## What the operations leave -/

namespace Script

theorem messageArgument_yields {callee param : String} :
    Yields h (messageArgument callee param v) fun h' r => h' = h ∧ v = .message r := by
  unfold messageArgument
  split
  · exact .pure ⟨rfl, rfl⟩
  · exact .bind_get .throw

/-- A clone is a message in a new cell. -/
theorem clone_yields {l : Library} {args : List Value} {keywords : Keywords} :
    Yields h (callFunction l .clone args keywords) fun h' result => ∃ m config,
      result = .message (h.fresh .message) ∧ h' = h.alloc .message { content := m, config := config } := by
  refine .bind fun r mid hrun => ?_
  obtain ⟨bound, mid', hbound, hrun⟩ := bind_ok.1 hrun
  obtain ⟨-, rfl⟩ := Prod.mk.inj hbound
  obtain ⟨rfl, -⟩ := messageArgument_yields _ _ hrun
  refine .bind fun m mid' hm => ?_
  obtain ⟨-, rfl⟩ := Prod.mk.inj hm
  refine .bind_cell fun result h' hmade => ?_
  cases hmade
  exact ⟨m, _, rfl, rfl⟩

/-- A message that was replaced keeps no views. -/
theorem replace_yields {r : Ref .message} {m : Message} :
    Yields h (replace r m) fun h' _ => h'.Has ⟨.message, r⟩ → (h'.cell r).views = [] := by
  refine .bind_cell fun _ h' hput hr => ?_
  cases hput
  rw [Heap.cell_put_self h (s := .message) r _ (Heap.has_put.1 hr)]

/-- A merge gives the destination, which keeps no views. -/
theorem merge_yields {l : Library} {args : List Value} {keywords : Keywords} :
    Yields h (callFunction l .merge args keywords) fun h' result => ∃ dst,
      result = .message dst ∧ Function.merge.target? args keywords = some (.message dst) ∧
        (h'.Has ⟨.message, dst⟩ → (h'.cell dst).views = []) := by
  refine .bind_ofExcept fun bound hbound => .bind fun dst mid hdst => ?_
  obtain ⟨rfl, hfirst⟩ := messageArgument_yields _ _ hdst
  have htarget : Function.merge.target? args keywords = some (.message dst) :=
    Function.target?_eq_some.2 ⟨_, bound, rfl, hbound, hfirst⟩
  refine .bind fun src mid' _ => .bind fun _ h' hmerge => .pure ⟨dst, rfl, htarget, ?_⟩
  have hmerged : Yields mid' (mergeMessage dst src) fun h' _ =>
      h'.Has ⟨.message, dst⟩ → (h'.cell dst).views = [] := by
    refine .bind_cell (.bind fun _ _ _ => .bind_get ?_)
    split
    · exact .bind fun _ _ hthrow => by cases hthrow
    · exact .bind fun _ _ _ => .bind fun _ _ _ => replace_yields
  exact hmerged _ _ hmerge

end Script

/-- The target of an operation is a value of the heap. -/
theorem Operation.Within.has_target {α : Type} {op : Operation α} (hop : op.Within pools h)
    (hv : op.target? = some v) (hp : v.place? = some p) : h.Has p := by
  have given (hmem : v ∈ op.values) : h.Has p := (hop.within v hmem).has hp
  cases op <;> try cases hv
  case call f args keywords =>
    have called (hf : some f = some v) : h.Has p := by
      cases hf
      exact given List.mem_cons_self
    cases f with
    | callable c =>
      cases c with
      | function l f =>
        obtain ⟨params, bound, -, hbound, rfl⟩ := Function.target?_eq_some.1 hv
        refine Value.Within.has (BoundArguments.value_of_given hbound (fun w hw => ?_) (fun k hk => ?_)
          (Value.within_of_place?_none (by simp) rfl) 0) hp
        · exact hop.within w (.tail _ (List.mem_append_left _ hw))
        · exact hop.within k.2 (.tail _ (List.mem_append_right _ (List.mem_map.2 ⟨k, hk, rfl⟩)))
      | «repeated» => exact called hv
      | map => exact called hv
    | _ => exact called hv
  all_goals exact given List.mem_cons_self

/-- **When a copy was made**, nothing has been read of it yet; the message is what was altered, or it is
new. -/
theorem Operation.Copies.start {α : Type} {op : Operation α} {result : α} {copy : Copy}
    (hh : Heap.Reachable pools h) (hop : op.Within pools h) (hrun : op.run h = (.ok result, mid))
    (hcopy : op.Copies h mid result copy) :
    copy.Bare mid ∧ mid.Has copy.root ∧ (copy.root ∈ op.writes ∨ ¬ h.Has copy.root) := by
  have hc := hh.closed
  have hstep := Heap.Step.operation op hop
  rw [hrun] at hstep
  have hmid : Heap.Reachable pools mid := hh.tail hstep
  obtain ⟨ha, hplants⟩ := (op.runs hc hop).ok hrun
  have bare {q : Ref .message} (hviews : (mid.cell q).views = []) :
      (Copy.whole ⟨.message, q⟩).Bare mid := fun _ => Heap.not_holds_of_views hviews
  cases hcopy with
  | @assign r name value =>
    have hr : h.Has ⟨.message, r⟩ := (hop.within _ (.head _)).has rfl
    have hset : Script.Runs pools {⟨.message, r⟩} h (Script.setField r name value) _ :=
      Script.setField_runs hc hr (hop.within _ (.tail _ (.head _)))
    exact ⟨(hset.ok hrun).2.2, ha.has hr, .inl (.inr ⟨_, rfl, rfl⟩)⟩
  | @construct t args keywords q =>
    have hmade := (Script.construct_runs hc (hop.typed (.messageType t) (.head _)).type fun k hk =>
      hop.within k.2 (.tail _ (List.mem_append_right _ (List.mem_map.2 ⟨k, hk, rfl⟩)))).ok hrun
    obtain ⟨q', hq, hnew, hhas⟩ := hmade.2
    cases hq
    exact ⟨bare (ha.views hnew), hhas, .inr hnew⟩
  | @clone l _ _ _ =>
    obtain ⟨m, config, hq, rfl⟩ := Script.clone_yields (l := l) _ _ hrun
    cases hq
    have hnew := h.not_has_fresh .message
    exact ⟨bare (ha.views hnew), h.has_fresh_alloc .message _, .inr hnew⟩
  | @merge l _ _ _ =>
    obtain ⟨dst, hq, htarget, hviews⟩ := Script.merge_yields (l := l) _ _ hrun
    cases hq
    have hhas := ha.has (hop.has_target htarget (p := ⟨.message, _⟩) rfl)
    exact ⟨bare (hviews hhas), hhas, .inl (.inr ⟨_, htarget, rfl⟩)⟩
  | @element _ _ _ view w p q hp hhas hw hnew hq =>
    have hno : ¬ h.Has q := by
      rcases hplants.elements hw with hold | hw | ⟨hview, -⟩
      · exact absurd hold hnew
      · exact hw.not_has hq
      · exact absurd hhas (hview.not_has hp)
    have hholds : mid.Holds p q := .element hp hw hq
    refine ⟨fun q' hq' => ?_, hholds.has hmid.closed, .inr hno⟩
    -- an element is no view, and a new message has none
    obtain ⟨s, r⟩ := q
    rcases hq'.shelf with hs | hs | hs
    · cases hs
      exact Heap.not_holds_of_views (ha.views hno) hq'
    · exact (hmid.flat hw hq).1 hs
    · exact (hmid.flat hw hq).2 hs

namespace Heap

/-! ## Mutations -/

/-- Whether what lies in `B` is as it was after every operation that alters places in `A` only. -/
def Spares (pools : Set Pool) (h : Heap) (A B : Set Place) : Prop :=
  ∀ {α : Type} (op : Operation α) (result : α) (h' : Heap), op.Within pools h →
    op.run h = (.ok result, h') → op.writes ⊆ A → ∀ q ∈ B, h'.cell q.2 = h.cell q.2

theorem spares_of_disjoint {A B : Set Place} (hc : h.Closed) (hAB : Disjoint A B)
    (hB : ∀ q ∈ B, h.Has q) : h.Spares pools A B := by
  intro α op result h' hop hrun hA q hq
  obtain ⟨ha, -⟩ := (op.runs hc hop).ok hrun
  exact ha.cell (hB q hq) fun hmem => Set.disjoint_left.1 hAB (hA hmem) hq

/-- What is below something of a closed heap is of the heap. -/
theorem Below.has (hq : h.Below p q) (hc : h.Closed) (hp : h.Has p) : h.Has q := by
  cases hq with
  | refl => exact hp
  | tail _ hlast => exact hlast.has hc

theorem Continues.has_copy {base : Heap} {copy : Copy} (hh : base.Continues h) (hc : h.Closed)
    (hroot : base.Has copy.root) (hq : q ∈ copy.places h) : h.Has q := by
  cases copy with
  | field r name =>
    rcases hq with rfl | ⟨v, p, hview, hp, hbelow⟩
    · exact hh.has hroot
    · exact hbelow.has hc (Holds.has (.view hview hp) hc)
  | whole p =>
    obtain ⟨_, rfl, hbelow⟩ := hq
    exact hbelow.has hc (hh.has hroot)

/-- **Ownership is a forest.** On the heaps of a run nothing lies in two slots, and no message is
reached from itself. So if an operation makes a copy, of a value or of anything else, a value that
neither is what the operation alters nor leads there stays apart from the copy, whatever is done
later: what the value led to, and what has come below it since, is not altered through the copy, and
the copy is not altered through that. -/
theorem Reachable.ownership (hh : Reachable pools h) :
    (∀ {a b : Slot} {v : Value}, h.Fills a v → h.Fills b v → v.ref?.isSome → a = b) ∧
      (∀ r : Ref .message, ¬ Relation.TransGen h.Owns r r) ∧
      ∀ {α : Type} {op : Operation α} {result : α} {mid later : Heap} {copy : Copy} {v : Value},
        op.Within pools h → op.run h = (.ok result, mid) → op.Copies h mid result copy →
        v.Within h → (∀ p ∈ op.writes, ¬ h.Leads v p) → Reaches pools mid later →
        later.Spares pools (later.region {p | mid.Leads v p}) (copy.places later) ∧
          later.Spares pools (copy.places later) (later.region {p | mid.Leads v p}) := by
  have hc := hh.closed
  refine ⟨hh.forest.unique, hh.forest.not_owns_self, ?_⟩
  intro α op result mid later copy v hop hrun hcopy hv hapart hlater
  have hstep := Step.operation op hop
  rw [hrun] at hstep
  have hmid : Reachable pools mid := hh.tail hstep
  have hreach : Reachable pools later := hmid.trans hlater
  have hcont := hlater.continues hmid
  obtain ⟨ha, -⟩ := (op.runs hc hop).ok hrun
  obtain ⟨hbare, hroot, hdestination⟩ := hcopy.start hh hop hrun
  have hbefore {p : Place} (hp : mid.Leads v p) : h.Leads v p := hp.before ha hc hv hapart
  have hA : ∀ p ∈ {p | mid.Leads v p}, mid.Has p := fun p hp => hp.has hmid.closed (hv.grow ha)
  -- the copy is new, or replaces something that the value does not lead to
  have hnot : copy.root ∉ mid.region {p | mid.Leads v p} := by
    rintro ⟨p, hp, hbelow⟩
    have hleads := hbefore (hp.held hbelow)
    rcases hdestination with hwrite | hno
    · exact hapart _ hwrite hleads
    · exact hno (hleads.has hc hv)
  have hdisjoint := copy.disjoint hcont hA hbare hroot hnot
  refine ⟨spares_of_disjoint hreach.closed hdisjoint fun q hq => ?_,
    spares_of_disjoint hreach.closed hdisjoint.symm fun q hq => ?_⟩
  · exact hcont.has_copy hreach.closed hroot hq
  · obtain ⟨p, hp, hbelow⟩ := hq
    exact hbelow.has hreach.closed (hcont.has (hA p hp))

end Heap

/-! ## A side that is copied -/

namespace Sample

/-- Assigning the right side of the node, as it was read, to its left side. -/
def assignLeft : Operation Unit := .assign (.message root) "left" (.message right)

/-- After that: the view of the right side was given up. -/
def copied : Heap where
  messages := #[{ content := .mk node [(1, .message (.empty node))] [], config := {} },
    { content := .empty node, config := {} }]

/-- After the left side was read. -/
def reread : Heap where
  messages := #[{
      content := .mk node [(1, .message (.empty node))] []
      views := [("left", .message ⟨2⟩)]
      config := {} },
    { content := .empty node, config := {} },
    { content := .empty node, config := {} }]

theorem run_assignLeft : assignLeft.run viewed = (.ok (), copied) := by
  have hright : viewed.contents right = .ok (.empty node) := by
    rw [Heap.contents_eq]
    rfl
  have hstored : viewed.toStored leftField.kind (.message right) {} = .ok (.message (.empty node)) :=
    Heap.toStored_message rfl hright rfl
  have hwritten : (Script.storedFor leftField (.message right) {}).run viewed =
      (.ok (some (.message (.empty node))), viewed) := by
    rw [Script.storedFor_single rfl rfl, Script.scalarFor_of_ne Value.noConfusion]
    exact Script.bind_ok.2 ⟨_, _, Script.reading_ok.2 ⟨hstored, rfl⟩, rfl⟩
  have hfield : (viewed.cell root).content.descriptor.field? "left" = some leftField := rfl
  have hfrozen : (viewed.cell root).frozen = false := rfl
  exact (Script.setField_ok hfield hfrozen).2 ⟨_, _, hwritten, rfl⟩

/-- The view of the right side leads to nothing else. -/
theorem leads_right {p : Place} (hp : viewed.Leads (.message right) p) : p = ⟨.message, right⟩ := by
  cases hp with
  | here hv => exact (Option.some.inj hv).symm
  | through hv hw =>
    cases hv
    cases hw

theorem within_assignLeft : assignLeft.Within {pool} viewed := by
  have hroot := given_message {pool} (by decide : root.index < viewed.messages.size)
  have hright := given_message {pool} (by decide : right.index < viewed.messages.size)
  exact within_of_given (List.forall_mem_cons.2 ⟨hroot, List.forall_mem_singleton.2 hright⟩) trivial

theorem reaches_reread : Heap.Reaches {pool} copied reread := by
  have hrun : ((Operation.attr (.message root) "left").run copied).2 = reread := rfl
  rw [← hrun]
  exact .single (.operation _ (within_of_message {pool} copied rfl (by decide) trivial))

/-- The right side of the node is assigned to its left side, which is read then: from then on neither
is altered through the other. -/
theorem left_apart_from_right :
    Heap.Reachable {pool} viewed ∧ assignLeft.Within {pool} viewed ∧
      assignLeft.run viewed = (.ok (), copied) ∧
      assignLeft.Copies viewed copied () (.field root "left") ∧
      (Value.message right).Within viewed ∧
      (∀ p ∈ assignLeft.writes, ¬ viewed.Leads (.message right) p) ∧
      Heap.Reaches {pool} copied reread ∧
      reread.Spares {pool} (reread.region {p | copied.Leads (.message right) p})
        ((Copy.field root "left").places reread) ∧
      reread.Spares {pool} ((Copy.field root "left").places reread)
        (reread.region {p | copied.Leads (.message right) p}) := by
  have hright := given_message {pool} (by decide : right.index < viewed.messages.size)
  have happart : ∀ p ∈ assignLeft.writes, ¬ viewed.Leads (.message right) p := by
    rintro p (hfreezes | ⟨v, hv, hp⟩) hleads
    · cases hfreezes
    · cases hv
      cases hp
      cases leads_right hleads
  exact ⟨reachable_viewed, within_assignLeft, run_assignLeft, .assign, hright.1, happart, reaches_reread,
    (Heap.Reachable.ownership reachable_viewed).2.2 within_assignLeft run_assignLeft .assign hright.1
      happart reaches_reread⟩

end Sample

end Protoscript
