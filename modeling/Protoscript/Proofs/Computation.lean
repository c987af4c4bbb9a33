import Protoscript.Script.Operations
import Mathlib.Data.List.Forall2

/-!
# Running computations

What a run of a `Script` computation gives, and from which heap to which it goes, in terms of the
runs of its parts.

* `Script.run` — the result of a computation, and the heap after it;
* `Script.bind_ok`, `Script.bind_error` — a run of two computations in a row, taken apart;
* `Script.run_cell`, `Script.run_put`, … — the steps that all computations are made of.
-/

namespace Protoscript

theorem Except.map_ok {ε α β : Type} {x : Except ε α} {f : α → β} {b : β} :
    x.map f = .ok b ↔ ∃ a, x = .ok a ∧ f a = b := by
  cases x <;> simp [Except.map]

theorem Except.bind_ok {ε α β : Type} {x : Except ε α} {f : α → Except ε β} {b : β} :
    (x >>= f) = .ok b ↔ ∃ a, x = .ok a ∧ f a = .ok b := by
  cases x <;> simp [bind, Except.bind]

/-- A list of results is a success if each of them is. -/
theorem Except.mapM_ok {ε α β : Type} {f : α → Except ε β} {xs : List α} {ys : List β} :
    xs.mapM f = .ok ys ↔ List.Forall₂ (fun x y => f x = .ok y) xs ys := by
  induction xs generalizing ys with
  | nil =>
    rw [List.mapM_nil, List.forall₂_nil_left_iff]
    exact ⟨fun h => by cases h; rfl, fun h => by rw [h]; rfl⟩
  | cons x rest ih =>
    rw [List.mapM_cons, Except.bind_ok]
    constructor
    · rintro ⟨y, hy, hrest⟩
      obtain ⟨zs, hzs, hcons⟩ := Except.bind_ok.1 hrest
      cases hcons
      exact .cons hy (ih.1 hzs)
    · rintro (_ | ⟨hy, hrest⟩)
      refine ⟨_, hy, ?_⟩
      rw [ih.2 hrest]
      rfl

theorem Except.mapM_congr {ε α β : Type} {f g : α → Except ε β} {xs : List α}
    (h : ∀ x ∈ xs, f x = g x) : xs.mapM f = xs.mapM g := by
  induction xs with
  | nil => rfl
  | cons x rest ih =>
    rw [List.mapM_cons, List.mapM_cons, h x List.mem_cons_self,
      ih fun y hy => h y (List.mem_cons_of_mem _ hy)]

namespace Script

variable {α β : Type}

/-- The result of a computation on a heap, and the heap after it. -/
def run (s : Script α) (h : Heap) : Except Error α × Heap := s h

/-! ## Two computations in a row -/

theorem run_bind (s : Script α) (f : α → Script β) (h : Heap) :
    (s >>= f).run h =
      match s.run h with
      | (.ok a, mid) => (f a).run mid
      | (.error e, mid) => (.error e, mid) := by
  simp only [run, bind, ExceptT.bind, ExceptT.mk, ExceptT.bindCont, StateT.bind]
  rcases s h with ⟨_ | _, _⟩ <;> rfl

/-- **Success of two computations in a row.** Both succeed, the second one from where the first one
left the heap. -/
theorem bind_ok {s : Script α} {f : α → Script β} {h h' : Heap} {b : β} :
    (s >>= f).run h = (.ok b, h') ↔
      ∃ a mid, s.run h = (.ok a, mid) ∧ (f a).run mid = (.ok b, h') := by
  rw [run_bind]
  rcases s.run h with ⟨e | a, mid⟩ <;> simp [and_assoc]

/-- **Failure of two computations in a row.** The first one fails, or else the second one. -/
theorem bind_error {s : Script α} {f : α → Script β} {h h' : Heap} {e : Error} :
    (s >>= f).run h = (.error e, h') ↔
      s.run h = (.error e, h') ∨
        ∃ a mid, s.run h = (.ok a, mid) ∧ (f a).run mid = (.error e, h') := by
  rw [run_bind]
  rcases s.run h with ⟨e | a, mid⟩ <;> simp [and_assoc]

/-! ## Steps -/

@[simp] theorem run_pure (a : α) (h : Heap) : (pure a : Script α).run h = (.ok a, h) := rfl

@[simp] theorem run_throw (e : Error) (h : Heap) : (throw e : Script α).run h = (.error e, h) := rfl

@[simp] theorem run_cell {s : Shelf} (r : Ref s) (h : Heap) :
    @run (no_index (Cell s)) (cell r) h = (.ok (h.cell r), h) := rfl

@[simp] theorem run_put {s : Shelf} (r : Ref s) (c : Cell s) (h : Heap) :
    (put r c).run h = (.ok (), h.put r c) := rfl

@[simp] theorem run_get (h : Heap) : (get : Script Heap).run h = (.ok h, h) := rfl

@[simp] theorem run_set (h' h : Heap) : (set h' : Script Unit).run h = (.ok (), h') := rfl

@[simp] theorem run_modify (f : Heap → Heap) (h : Heap) :
    (modify f : Script Unit).run h = (.ok (), f h) := rfl

@[simp] theorem run_modifyGet (f : Heap → α × Heap) (h : Heap) :
    (modifyGet f : Script α).run h = (.ok (f h).1, (f h).2) := rfl

@[simp] theorem run_reading (f : Heap → Except Error α) (h : Heap) :
    (reading f).run h = (f h, h) := rfl

@[simp] theorem run_ofExcept (r : Except Error α) (h : Heap) : (ofExcept r).run h = (r, h) := rfl

theorem reading_ok {f : Heap → Except Error α} {h h' : Heap} {a : α} :
    (reading f).run h = (.ok a, h') ↔ f h = .ok a ∧ h = h' := by
  rw [run_reading, Prod.mk.injEq]

/-- A check that succeeds found nothing frozen. -/
@[simp] theorem checkMutable_ok {frozen : Bool} {verb target : String} {h h' : Heap} {u : Unit} :
    (checkMutable frozen verb target).run h = (.ok u, h') ↔ frozen = false ∧ h = h' := by
  cases frozen <;> simp [checkMutable]

end Script

end Protoscript
