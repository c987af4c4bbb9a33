import Protoscript.Proofs.Closed
import Protoscript.Proofs.Lasting

/-!
# What a computation does to the heap

A computation takes the heap through changes; if it succeeds it has altered a few old cells only, and
if it fails none at all. Most computations first check and convert, which only adds cells, and
then write one cell, which does not fail.

* `Script.Runs` — a computation does so from a given heap;
* `Script.Runs.bind` — checks and conversions before a computation;
* `Script.Runs.write` — the final write.
-/

namespace Protoscript.Script

/-- A computation that takes `h` through changes. If it succeeds, only cells in `W` are altered and
`Q` holds of the heap then and the result; if it fails, none is. -/
structure Runs (pools : Set Pool) (W : Set Place) (h : Heap) {α : Type} (s : Script α)
    (Q : Heap → α → Prop) : Prop where
  /-- the heap goes through changes -/
  changes : h.Changes pools (s.run h).2
  /-- success -/
  ok {a : α} {h' : Heap} (hrun : s.run h = (.ok a, h')) : h.Alters W h' ∧ Q h' a
  /-- failure -/
  error {e : Error} {h' : Heap} (hrun : s.run h = (.error e, h')) : h.Grows h'

/-- A postcondition that says nothing. -/
def Any {α : Type} : Heap → α → Prop := fun _ _ => True

namespace Runs

variable {pools : Set Pool} {W : Set Place} {h : Heap} {α β : Type} {Q : Heap → α → Prop}
  {R : Heap → β → Prop}

theorem pure {a : α} (ha : Q h a) : Runs pools W h (pure a) Q := by
  refine ⟨.refl, fun hrun => ?_, fun hrun => ?_⟩
  · cases hrun
    exact ⟨.refl W h, ha⟩
  · cases hrun

theorem throw {e : Error} : Runs pools W h (throw e) Q := by
  refine ⟨.refl, fun hrun => ?_, fun hrun => ?_⟩
  · cases hrun
  · cases hrun
    exact .refl ∅ h

theorem mono {W' : Set Place} {s : Script α} {Q' : Heap → α → Prop} (hs : Runs pools W h s Q)
    (hW : W ⊆ W') (hQ : ∀ h' a, Q h' a → Q' h' a) : Runs pools W' h s Q' :=
  ⟨hs.changes, fun hrun => ⟨(hs.ok hrun).1.mono hW, hQ _ _ (hs.ok hrun).2⟩, hs.error⟩

/-- Only the result of a run matters, not how it is computed. -/
theorem congr {s t : Script α} (ht : Runs pools W h t Q) (he : s.run h = t.run h) :
    Runs pools W h s Q :=
  ⟨he ▸ ht.changes, fun hrun => ht.ok (he ▸ hrun), fun hrun => ht.error (he ▸ hrun)⟩

/-- **Checks and conversions first.** They only add cells; what comes then may alter old ones. -/
theorem bind {s : Script α} {f : α → Script β} (hs : Runs pools ∅ h s Q)
    (hf : ∀ mid a, h.Changes pools mid → h.Grows mid → Q mid a → Runs pools W mid (f a) R)
    (hW : ∀ p ∈ W, h.Has p) : Runs pools W h (s >>= f) R := by
  rcases hrun : s.run h with ⟨e | a, mid⟩
  · have hbind : (s >>= f).run h = (.error e, mid) := by rw [run_bind, hrun]
    refine ⟨?_, fun hb => ?_, fun hb => ?_⟩
    · rw [hbind]
      have := hs.changes
      rwa [hrun] at this
    · rw [hbind] at hb
      cases hb
    · rw [hbind] at hb
      cases hb
      exact hs.error hrun
  · have hbind : (s >>= f).run h = (f a).run mid := by rw [run_bind, hrun]
    have hch : h.Changes pools mid := by
      have := hs.changes
      rwa [hrun] at this
    obtain ⟨hg, hQ⟩ := hs.ok hrun
    have hrest := hf mid a hch hg hQ
    refine ⟨?_, fun hb => ?_, fun hb => ?_⟩
    · rw [hbind]
      exact hch.trans hrest.changes
    · rw [hbind] at hb
      exact ⟨Heap.Grows.alters hg (hrest.ok hb).1 hW, (hrest.ok hb).2⟩
    · rw [hbind] at hb
      exact Heap.Grows.trans hg (hrest.error hb)

/-- What comes after a write neither fails nor changes the heap. -/
theorem andThen {s : Script α} {f : α → Script β} (hs : Runs pools W h s Q)
    (hf : ∀ mid a, Q mid a → ∃ b, (f a).run mid = (.ok b, mid) ∧ R mid b) :
    Runs pools W h (s >>= f) R := by
  rcases hrun : s.run h with ⟨e | a, mid⟩
  · have hbind : (s >>= f).run h = (.error e, mid) := by rw [run_bind, hrun]
    refine ⟨?_, fun hb => ?_, fun hb => ?_⟩
    · rw [hbind]
      have := hs.changes
      rwa [hrun] at this
    · rw [hbind] at hb
      cases hb
    · rw [hbind] at hb
      cases hb
      exact hs.error hrun
  · obtain ⟨ha, hQ⟩ := hs.ok hrun
    obtain ⟨b, hb, hR⟩ := hf mid a hQ
    have hbind : (s >>= f).run h = (.ok b, mid) := by rw [run_bind, hrun]; exact hb
    refine ⟨?_, fun hrun' => ?_, fun hrun' => ?_⟩
    · rw [hbind]
      have := hs.changes
      rwa [hrun] at this
    · rw [hbind] at hrun'
      cases hrun'
      exact ⟨ha, hR⟩
    · rw [hbind] at hrun'
      cases hrun'

/-! ## Steps -/

theorem bind_pure {a : α} {f : α → Script β} (hf : Runs pools W h (f a) R) :
    Runs pools W h (Pure.pure a >>= f) R :=
  hf.congr (by rw [run_bind, run_pure])

theorem bind_cell {s : Shelf} {r : Ref s} {f : Cell s → Script β}
    (hf : Runs pools W h (f (h.cell r)) R) : Runs pools W h (cell r >>= f) R :=
  hf.congr (by rw [run_bind, run_cell])

theorem bind_get {f : Heap → Script β} (hf : Runs pools W h (f h) R) :
    Runs pools W h (get >>= f) R :=
  hf.congr (by rw [run_bind, run_get])

/-- Cells that a function makes, and the rest from there. -/
theorem bind_modifyGet {g : Heap → α × Heap} {f : α → Script β} (hc : h.Changes pools (g h).2)
    (hg : h.Grows (g h).2) (hf : Runs pools W (g h).2 (f (g h).1) R) (hW : ∀ p ∈ W, h.Has p) :
    Runs pools W h (modifyGet g >>= f) R := by
  have hrun : (modifyGet g >>= f).run h = (f (g h).1).run (g h).2 := by
    rw [run_bind, run_modifyGet]
  refine ⟨?_, fun hb => ?_, fun hb => ?_⟩
  · rw [hrun]
    exact hc.trans hf.changes
  · rw [hrun] at hb
    exact ⟨Heap.Grows.alters hg (hf.ok hb).1 hW, (hf.ok hb).2⟩
  · rw [hrun] at hb
    exact Heap.Grows.trans hg (hf.error hb)

theorem bind_ofExcept {r : Except Error α} {f : α → Script β}
    (hf : ∀ a, r = .ok a → Runs pools W h (f a) R) : Runs pools W h (ofExcept r >>= f) R := by
  cases r with
  | error e => exact throw.congr (by rw [run_bind, run_ofExcept, run_throw])
  | ok a => exact (hf a rfl).congr (by rw [run_bind, run_ofExcept])

theorem bind_reading {g : Heap → Except Error α} {f : α → Script β}
    (hf : ∀ a, g h = .ok a → Runs pools W h (f a) R) : Runs pools W h (reading g >>= f) R :=
  (bind_ofExcept hf).congr (by rw [run_bind, run_bind, run_reading, run_ofExcept])

theorem bind_checkMutable {frozen : Bool} {verb target : String} {f : Unit → Script β}
    (hf : frozen = false → Runs pools W h (f ()) R) :
    Runs pools W h (checkMutable frozen verb target >>= f) R := by
  cases frozen with
  | true => exact throw.congr (by rw [run_bind]; rfl)
  | false => exact (hf rfl).congr (by rw [run_bind]; rfl)

theorem reading {g : Heap → Except Error α} (hg : ∀ a, g h = .ok a → Q h a) :
    Runs pools W h (reading g) Q := by
  refine ⟨.refl, fun hrun => ?_, fun hrun => ?_⟩
  · rw [run_reading] at hrun
    obtain ⟨hok, rfl⟩ := Prod.mk.inj hrun
    exact ⟨.refl W h, hg _ hok⟩
  · rw [run_reading] at hrun
    obtain ⟨-, rfl⟩ := Prod.mk.inj hrun
    exact .refl ∅ h

/-- **The final write.** -/
theorem write {s : Shelf} {r : Ref s} {c : Cell s} (hc : h.Change pools (h.put r c)) :
    Runs pools {⟨s, r⟩} h (put r c) fun h' _ => h' = h.put r c := by
  refine ⟨.single hc, fun hrun => ?_, fun hrun => ?_⟩
  · cases hrun
    exact ⟨Heap.alters_put h r c, rfl⟩
  · cases hrun

/-- A new cell, which is all that is altered. -/
theorem add {s : Script α} {a : α} {h' : Heap} (hrun : s.run h = (.ok a, h'))
    (hc : h.Change pools h') (hg : h.Grows h') (ha : Q h' a) : Runs pools ∅ h s Q := by
  refine ⟨?_, fun hr => ?_, fun hr => ?_⟩
  · rw [hrun]
    exact .single hc
  · rw [hrun] at hr
    cases hr
    exact ⟨hg, ha⟩
  · rw [hrun] at hr
    cases hr

/-- The heap is adjusted after a computation, which still alters no old cell. -/
theorem settle {s : Script α} {g : α → Heap → Heap} {T : Heap → α → Prop}
    (hs : Runs pools ∅ h s Q)
    (hg : ∀ mid a, h.Changes pools mid → Q mid a →
      h.Changes pools (g a mid) ∧ h.Grows (g a mid) ∧ T (g a mid) a) :
    Runs pools ∅ h (do
      let a ← s
      modify (g a)
      return a) T := by
  rcases hrun : s.run h with ⟨e | a, mid⟩
  · have hall : (s >>= fun a => modify (g a) >>= fun _ => Pure.pure a).run h = (.error e, mid) := by
      rw [run_bind, hrun]
    have hch : h.Changes pools mid := by
      have := hs.changes
      rwa [hrun] at this
    refine ⟨hall ▸ hch, fun hb => ?_, fun hb => ?_⟩
    · rw [hall] at hb
      cases hb
    · rw [hall] at hb
      cases hb
      exact hs.error hrun
  · have hall : (s >>= fun a => modify (g a) >>= fun _ => Pure.pure a).run h = (.ok a, g a mid) := by
      rw [run_bind, hrun]
      rfl
    have hch : h.Changes pools mid := by
      have := hs.changes
      rwa [hrun] at this
    obtain ⟨hch, hgrows, hQ⟩ := hg mid a hch (hs.ok hrun).2
    refine ⟨hall ▸ hch, fun hb => ?_, fun hb => ?_⟩
    · rw [hall] at hb
      cases hb
      exact ⟨hgrows, hQ⟩
    · rw [hall] at hb
      cases hb

end Runs

/-! ## Loops -/

/-- A computation that keeps a property of the heap, whether it succeeds or fails. -/
def Keeps (I : Heap → Prop) {α : Type} (s : Script α) : Prop := ∀ h, I h → I (s.run h).2

namespace Keeps

variable {I : Heap → Prop} {α β : Type}

theorem pure (a : α) : Keeps I (pure a) := fun _ hI => hI

theorem throw (e : Error) : Keeps I (throw e : Script α) := fun _ hI => hI

theorem bind {s : Script α} {f : α → Script β} (hs : Keeps I s) (hf : ∀ a, Keeps I (f a)) :
    Keeps I (s >>= f) := by
  intro h hI
  have hmid := hs h hI
  rw [run_bind]
  rcases hrun : s.run h with ⟨e | a, mid⟩
  · rw [hrun] at hmid
    exact hmid
  · rw [hrun] at hmid
    exact hf a mid hmid

/-- A loop keeps what its body keeps. -/
theorem forIn {xs : List α} {body : α → PUnit → Script (ForInStep PUnit)}
    (hbody : ∀ x ∈ xs, ∀ u, Keeps I (body x u)) (u : PUnit) : Keeps I (forIn xs u body) := by
  induction xs generalizing u with
  | nil =>
    rw [List.forIn_nil]
    exact pure u
  | cons x rest ih =>
    rw [List.forIn_cons]
    refine bind (hbody x List.mem_cons_self u) fun step => ?_
    cases step with
    | done v => exact pure v
    | yield v => exact ih (fun y hy => hbody y (List.mem_cons_of_mem _ hy)) v

end Keeps

/-- A computation that only goes through changes and alters nothing. -/
theorem Runs.of_keeps {pools : Set Pool} {h : Heap} {α : Type} {s : Script α} {Q : Heap → α → Prop}
    (hc : h.Changes pools (s.run h).2) (hg : h.Grows (s.run h).2)
    (hQ : ∀ a h', s.run h = (.ok a, h') → Q h' a) : Runs pools ∅ h s Q := by
  refine ⟨hc, fun hrun => ?_, fun hrun => ?_⟩
  · rw [hrun] at hg
    exact ⟨hg, hQ _ _ hrun⟩
  · rw [hrun] at hg
    exact hg

end Protoscript.Script
