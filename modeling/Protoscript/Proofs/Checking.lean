import Protoscript.Proofs.InStep

/-!
# Checking values

Whatever goes into a view is checked first, value by value, and each value that is found good is made
into the form that the view holds. Making only adds cells, so that all values are judged as they were
at the start, and the error is that of the first one which is refused.

* `Heap.check`, `Heap.checkUpdate` — what a value, or a pair of values, is found to be;
* `Script.Performs` — whether a computation checks something and then makes what it was found to be;
  `Script.Performs.mapM` — several of them in a row;
* `Script.normalize_performs`, `Script.normalizeAll_performs`, `Script.checkPairs_performs` — the checks
  of views.
-/

namespace Protoscript

variable {h g : Heap} {kind : Kind} {config : Config} {v : Value}

theorem Except.bind_error {ε α β : Type} {x : Except ε α} {f : α → Except ε β} {e : ε} :
    (x >>= f) = .error e ↔ x = .error e ∨ ∃ a, x = .ok a ∧ f a = .error e := by
  cases x with
  | error e' =>
    constructor
    · intro h
      cases h
      exact .inl rfl
    · rintro (h | ⟨_, h, -⟩)
      · cases h
        rfl
      · cases h
  | ok a =>
    constructor
    · exact fun h => .inr ⟨a, rfl, h⟩
    · rintro (h | ⟨_, h, hf⟩)
      · cases h
      · cases h
        exact hf

theorem Except.map_error {ε α β : Type} {x : Except ε α} {f : α → β} {e : ε} :
    x.map f = .error e ↔ x = .error e := by
  cases x <;> simp [Except.map]

/-- All of several computations succeed if each does. -/
theorem Except.mapM_isOk_iff {ε α β : Type} {f : α → Except ε β} {xs : List α} :
    (∃ ys, xs.mapM f = .ok ys) ↔ ∀ x ∈ xs, ∃ y, f x = .ok y := by
  refine ⟨fun ⟨ys, hys⟩ x hx => ?_, Except.mapM_isOk⟩
  obtain ⟨y, -, hy⟩ := exists_of_forall₂ (Except.mapM_ok.1 hys).flip hx
  exact ⟨y, hy⟩

/-- The error of several computations is that of the first one that fails. -/
theorem Except.mapM_error_of_append {ε α β : Type} {f : α → Except ε β} {before after : List α} {x : α}
    {e : ε} (hbefore : ∀ y ∈ before, ∃ z, f y = .ok z) (hx : f x = .error e) :
    (before ++ x :: after).mapM f = .error e := by
  obtain ⟨zs, hzs⟩ := Except.mapM_isOk hbefore
  rw [List.mapM_append, hzs, List.mapM_cons, hx]
  rfl

theorem Except.mapM_error {ε α β : Type} {f : α → Except ε β} {xs : List α} {e : ε} :
    xs.mapM f = .error e ↔ ∃ before x after, xs = before ++ x :: after ∧
      (∀ y ∈ before, ∃ z, f y = .ok z) ∧ f x = .error e := by
  constructor
  · intro he
    induction xs with
    | nil => cases he
    | cons x rest ih =>
      rw [List.mapM_cons] at he
      rcases Except.bind_error.1 he with hx | ⟨y, hy, he⟩
      · exact ⟨[], x, rest, rfl, nofun, hx⟩
      · rcases Except.bind_error.1 he with hrest | ⟨_, -, hpure⟩
        · obtain ⟨before, z, after, rfl, hbefore, hz⟩ := ih hrest
          exact ⟨x :: before, z, after, rfl, List.forall_mem_cons.2 ⟨⟨y, hy⟩, hbefore⟩, hz⟩
        · cases hpure
  · rintro ⟨before, x, after, rfl, hbefore, hx⟩
    exact Except.mapM_error_of_append hbefore hx

namespace Heap

/-- What a view stores a value as. The absent value is no item. -/
def check (h : Heap) (kind : Kind) (config : Config) (v : Value) : Except Error Stored :=
  match v with
  | .absent => .error (.typeMismatch v kind.name)
  | v => h.toStored kind v config

/-- What a view of a map field stores a pair as: a key, and a value if there is to be an entry. -/
def checkUpdate (h : Heap) (c : MapCell) (pair : Value × Value) :
    Except Error (Stored × Option Stored) := do
  let key ← h.check c.field.keyKind c.config pair.1
  match pair.2 with
  | .absent =>
    if c.field.isLegacy c.config then return (key, none)
    else throw (.absentRefused c.field.valueKind.name)
  | value => return (key, some (← h.check c.field.valueKind c.config value))

/-- The form in which a view of a map field holds a pair. -/
def adoptUpdate (h : Heap) (c : MapCell) (update : Stored × Option Stored) :
    (Value × Option Value) × Heap :=
  let key := h.adopt c.field.keyKind c.config update.1
  match update.2 with
  | none => ((key.1, none), key.2)
  | some s =>
    let value := key.2.adopt c.field.valueKind c.config s
    ((key.1, some value.1), value.2)

/-- The forms of several things, made one after another. -/
def makeAll {σ α : Type} (make : Heap → σ → α × Heap) (h : Heap) : List σ → List α × Heap
  | [] => ([], h)
  | s :: rest =>
    let first := make h s
    let others := makeAll make first.2 rest
    (first.1 :: others.1, others.2)

theorem check_eq_toStored (hv : v ≠ .absent) : h.check kind config v = h.toStored kind v config := by
  cases v <;> first | rfl | exact absurd rfl hv

/-- A value that is found good is stored as it is in fields. -/
theorem check_ok {s : Stored} : h.check kind config v = .ok s ↔ h.toStored kind v config = .ok s := by
  by_cases hv : v = .absent
  · subst hv
    exact ⟨fun hs => (by cases hs), fun hs => absurd hs Script.toStored_absent⟩
  · rw [check_eq_toStored hv]

theorem checkUpdate_absent {c : MapCell} {key : Value} :
    h.checkUpdate c (key, .absent) = (do
      let key ← h.check c.field.keyKind c.config key
      if c.field.isLegacy c.config then return (key, none)
      else throw (.absentRefused c.field.valueKind.name)) :=
  rfl

theorem checkUpdate_of_ne {c : MapCell} {key value : Value} (hvalue : value ≠ .absent) :
    h.checkUpdate c (key, value) = (do
      let key ← h.check c.field.keyKind c.config key
      let value ← h.check c.field.valueKind c.config value
      return (key, some value)) := by
  cases value <;> first | rfl | exact absurd rfl hvalue

/-- Values are judged as before when cells were added. -/
theorem Grows.check (hg : h.Grows g) (hc : h.Closed) (hv : v.Within h) :
    g.check kind config v = h.check kind config v := by
  by_cases habsent : v = .absent
  · subst habsent
    rfl
  · rw [check_eq_toStored habsent, check_eq_toStored habsent, hg.toStored hc hv]

/-- Making the form of a value that was found good adds cells only. -/
theorem grows_adopt_of_check {s : Stored} (hs : h.check kind config v = .ok s) (g : Heap) :
    g.Grows (g.adopt kind config s).2 := by
  rcases Kind.toStored_ok (check_ok.1 hs) with ⟨x, rfl, -⟩ | ⟨d, m, -, rfl, -⟩
  · rw [adopt]
    exact .refl ∅ g
  · rw [adopt]
    exact (g.shows_newMessage kind m config).1

end Heap

namespace Script

variable {σ α : Type}

/-- Whether a computation, on a heap and on those with more cells, fails as a check does or makes what
the check has found, and adds cells only. -/
structure Performs (h : Heap) (s : Script α) (check : Except Error σ) (make : Heap → σ → α × Heap) :
    Prop where
  ok {g : Heap} (hg : h.Grows g) {x : σ} (hx : check = .ok x) :
    s.run g = (.ok (make g x).1, (make g x).2) ∧ g.Grows (make g x).2
  error {g : Heap} (hg : h.Grows g) {e : Error} (he : check = .error e) :
    ∃ g', g.Grows g' ∧ s.run g = (.error e, g')

namespace Performs

variable {s : Script α} {check : Except Error σ} {make : Heap → σ → α × Heap} {a : α} {e : Error}

/-- Success, read off a run. -/
theorem ok_iff (hs : Performs h s check make) (hg : h.Grows g) {g' : Heap} :
    s.run g = (.ok a, g') ↔ ∃ x, check = .ok x ∧ make g x = (a, g') := by
  constructor
  · intro hrun
    cases hcheck : check with
    | ok x =>
      have hok := (hs.ok hg hcheck).1.symm.trans hrun
      rw [Prod.mk.injEq] at hok
      exact ⟨x, rfl, Prod.ext (Except.ok.inj hok.1) hok.2⟩
    | error e =>
      obtain ⟨_, -, hfail⟩ := hs.error hg hcheck
      rw [hfail] at hrun
      cases hrun
  · rintro ⟨x, hx, hmake⟩
    rw [(hs.ok hg hx).1, hmake]

/-- What comes after a check that found something good. -/
theorem run_ok {β : Type} {body : α → Script β} (hs : Performs h s check make) (hg : h.Grows g) {x : σ}
    (hx : check = .ok x) :
    Script.run (do let a ← s; body a) g = (body (make g x).1).run (make g x).2 := by
  rw [run_bind, (hs.ok hg hx).1]

/-- Nothing comes after a check that refused something. -/
theorem run_error {β : Type} {body : α → Script β} (hs : Performs h s check make) (hg : h.Grows g)
    (he : check = .error e) :
    ∃ g', g.Grows g' ∧ Script.run (do let a ← s; body a) g = (.error e, g') := by
  obtain ⟨g', hgrow, hrun⟩ := hs.error hg he
  exact ⟨g', hgrow, bind_error.2 (.inl hrun)⟩

/-- One check and then another. -/
theorem both {β γ τ υ : Type} {t : Script β} {check' : Except Error τ} {make' : Heap → τ → β × Heap}
    {make'' : Heap → υ → γ × Heap} {k : α → β → γ} {l : σ → τ → υ} (hs : Performs h s check make)
    (ht : Performs h t check' make')
    (hmake : ∀ g x y, make'' g (l x y) =
      (k (make g x).1 (make' (make g x).2 y).1, (make' (make g x).2 y).2)) :
    Performs h (do let a ← s; let b ← t; return k a b) (do let x ← check; let y ← check'; return l x y)
      make'' := by
  refine ⟨fun {g} hg {z} hz => ?_, fun {g} hg {e} he => ?_⟩
  · obtain ⟨x, hx, hz⟩ := Except.bind_ok.1 hz
    obtain ⟨y, hy, hz⟩ := Except.bind_ok.1 hz
    cases hz
    obtain ⟨hrun, hgrow⟩ := hs.ok hg hx
    obtain ⟨hrun', hgrow'⟩ := ht.ok (hg.trans hgrow) hy
    rw [hmake]
    exact ⟨bind_ok.2 ⟨_, _, hrun, bind_ok.2 ⟨_, _, hrun', rfl⟩⟩, hgrow.trans hgrow'⟩
  · rcases Except.bind_error.1 he with hx | ⟨x, hx, he⟩
    · obtain ⟨g', hgrow, hrun⟩ := hs.error hg hx
      exact ⟨g', hgrow, bind_error.2 (.inl hrun)⟩
    · obtain ⟨hrun, hgrow⟩ := hs.ok hg hx
      rcases Except.bind_error.1 he with hy | ⟨_, _, he⟩
      · obtain ⟨g', hgrow', hrun'⟩ := ht.error (hg.trans hgrow) hy
        exact ⟨g', hgrow.trans hgrow', bind_error.2 (.inr ⟨_, _, hrun, bind_error.2 (.inl hrun')⟩)⟩
      · cases he

/-- **Several checks in a row.** All are made if all are found good; else the error is that of the first
one that is not. -/
theorem mapM {ι : Type} {f : ι → Script α} {check : ι → Except Error σ} {xs : List ι}
    (hf : ∀ x ∈ xs, Performs h (f x) (check x) make) :
    Performs h (xs.mapM f) (xs.mapM check) (Heap.makeAll make) := by
  induction xs with
  | nil =>
    refine ⟨fun {g} _ {ys} hys => ?_, fun {_} _ {_} he => (by cases he)⟩
    cases hys
    exact ⟨rfl, .refl ∅ g⟩
  | cons x rest ih =>
    rw [List.mapM_cons, List.mapM_cons]
    exact (hf x (.head _)).both (ih fun y hy => hf y (.tail _ hy)) fun _ _ _ => rfl

end Performs

/-- A check of a key for a map field and of a value that is there. -/
theorem checkPair_of_ne {c : MapCell} {key value : Value} (hvalue : value ≠ .absent) :
    checkPair c key value = (do
      let key ← normalize c.field.keyKind key c.config
      let value ← normalize c.field.valueKind value c.config
      return (key, some value)) := by
  cases value <;> first | rfl | exact absurd rfl hvalue

section

variable (hc : h.Closed)

include hc

/-- **A check of a value** for a type. -/
theorem normalize_performs (hv : v.Within h) :
    Performs h (normalize kind v config) (h.check kind config v) (·.adopt kind config) := by
  refine ⟨fun {g} hg {s} hs => ⟨?_, Heap.grows_adopt_of_check hs g⟩, fun {g} hg {e} he => ?_⟩
  · rw [← hg.check hc hv, Heap.check_ok] at hs
    exact normalize_ok.2 ⟨s, hs, rfl⟩
  · refine ⟨g, .refl ∅ g, ?_⟩
    rw [← hg.check hc hv] at he
    cases v <;> first
      | (cases he; rfl)
      | (change g.toStored kind _ config = _ at he
         exact bind_error.2 (.inl (Prod.ext he rfl)))

/-- **The checks of several values**, before any of them goes into a view. -/
theorem normalizeAll_performs {values : List Value} (hv : ∀ v ∈ values, v.Within h) :
    Performs h (normalizeAll kind values config) (values.mapM (h.check kind config))
      (Heap.makeAll (·.adopt kind config)) :=
  .mapM fun v hmem => normalize_performs hc (hv v hmem)

/-- A check of a pair for a map field. -/
theorem checkPair_performs {c : MapCell} {key value : Value} (hk : key.Within h) (hv : value.Within h) :
    Performs h (checkPair c key value) (h.checkUpdate c (key, value)) (·.adoptUpdate c) := by
  have hkey : Performs h (normalize c.field.keyKind key c.config)
      (h.check c.field.keyKind c.config key) (·.adopt c.field.keyKind c.config) :=
    normalize_performs hc hk
  have hvalue : Performs h (normalize c.field.valueKind value c.config)
      (h.check c.field.valueKind c.config value) (·.adopt c.field.valueKind c.config) :=
    normalize_performs hc hv
  by_cases habsent : value = .absent
  · subst habsent
    unfold checkPair
    rw [Heap.checkUpdate_absent]
    refine ⟨fun {g} hg {x} hx => ?_, fun {g} hg {e} he => ?_⟩
    · obtain ⟨k, hk, hx⟩ := Except.bind_ok.1 hx
      obtain ⟨hrun, hgrow⟩ := hkey.ok hg hk
      by_cases hlegacy : c.field.isLegacy c.config = true
      · simp only [hlegacy, if_true] at hx ⊢
        cases hx
        exact ⟨bind_ok.2 ⟨_, _, hrun, rfl⟩, hgrow⟩
      · rw [if_neg hlegacy] at hx
        cases hx
    · rcases Except.bind_error.1 he with hk | ⟨k, hk, he⟩
      · obtain ⟨g', hgrow, hrun⟩ := hkey.error hg hk
        exact ⟨g', hgrow, bind_error.2 (.inl hrun)⟩
      · obtain ⟨hrun, hgrow⟩ := hkey.ok hg hk
        refine ⟨_, hgrow, bind_error.2 (.inr ⟨_, _, hrun, ?_⟩)⟩
        by_cases hlegacy : c.field.isLegacy c.config = true
        · rw [if_pos hlegacy] at he
          cases he
        · rw [if_neg hlegacy] at he ⊢
          cases he
          rfl
  · rw [checkPair_of_ne habsent, Heap.checkUpdate_of_ne habsent]
    exact hkey.both hvalue fun _ _ _ => rfl

/-- **The checks of several pairs**, before any of them goes into a view. -/
theorem checkPairs_performs {c : MapCell} {pairs : List (Value × Value)}
    (hpairs : ∀ e ∈ pairs, e.1.Within h ∧ e.2.Within h) :
    Performs h (checkPairs c pairs) (pairs.mapM (h.checkUpdate c)) (Heap.makeAll (·.adoptUpdate c)) :=
  .mapM fun e he => checkPair_performs hc (hpairs e he).1 (hpairs e he).2

end

end Script

end Protoscript
