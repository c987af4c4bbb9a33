import Protoscript.Script.Types

/-!
# Lookups of types

A loader remembers the types that it has looked up. That never shows: what it remembers is what it would find
again, and a lookup keeps it so. Hence the results of lookups do not depend on those made before.

* `TypeMemory.Sound` — what is remembered is what would be found;
* `Lookup.Gives` — the result of a lookup, whatever is remembered, with its rules for composed lookups;
* `Loader.gives_findMessage`, `Loader.gives_findEnum`, `Loader.gives_findPackage` — the lookups of a loader;
* `Package.members_eq` — the types of a package;
* `Loader.sound_remembered` — a loader's memory after any lookups.
-/

namespace Protoscript

/-- What is remembered is what would be found. -/
structure TypeMemory.Sound (l : Loader) (known : TypeMemory) : Prop where
  messages : ∀ fullName t, lookupName fullName known.messages = some t → l.messageType fullName = .ok t
  enums : ∀ fullName d, lookupName fullName known.enums = some d → l.enumType fullName = .ok d
  packages : ∀ name p, lookupName name known.packages = some p → l.package name = .ok p

/-- A lookup has the result `r`, whatever the loader remembers, and keeps what is remembered sound. -/
def Lookup.Gives {α : Type} (l : Loader) (lookup : Lookup α) (r : Except Error α) : Prop :=
  ∀ known : TypeMemory, known.Sound l →
    (lookup.run.run known).1 = r ∧ TypeMemory.Sound l (lookup.run.run known).2

variable {l : Loader}

theorem TypeMemory.sound_empty : TypeMemory.Sound l {} := ⟨nofun, nofun, nofun⟩

namespace Lookup

variable {α β : Type} {lookup : Lookup α} {r : Except Error α}

theorem Gives.result (h : Lookup.Gives l lookup r) : lookup.result = r := (h {} TypeMemory.sound_empty).1

theorem gives_pure (a : α) : Lookup.Gives l (pure a) (.ok a) := fun _ hknown => ⟨rfl, hknown⟩

theorem run_bind (lookup : Lookup α) (f : α → Lookup β) (known : TypeMemory) :
    (lookup >>= f).run.run known = match lookup.run.run known with
      | (.ok a, known') => (f a).run.run known'
      | (.error e, known') => (.error e, known') := by
  rw [ExceptT.run_bind, StateT.run_bind]
  generalize lookup.run.run known = found
  obtain ⟨e | a, known'⟩ := found <;> rfl

theorem run_get (known : TypeMemory) : (get : Lookup TypeMemory).run.run known = (.ok known, known) := rfl

theorem Gives.bind {f : α → Lookup β} {s : α → Except Error β} (h : Lookup.Gives l lookup r)
    (hf : ∀ a, Lookup.Gives l (f a) (s a)) : Lookup.Gives l (lookup >>= f) (r >>= s) := by
  intro known hknown
  obtain ⟨hr, hkept⟩ := h known hknown
  rw [run_bind]
  generalize lookup.run.run known = found at hr hkept
  subst hr
  obtain ⟨e | a, known'⟩ := found
  · exact ⟨rfl, hkept⟩
  · exact hf a known' hkept

theorem Gives.mapM {f : α → Lookup β} {s : α → Except Error β} (h : ∀ a, Lookup.Gives l (f a) (s a))
    (items : List α) : Lookup.Gives l (items.mapM f) (items.mapM s) := by
  induction items with
  | nil => exact gives_pure []
  | cons a rest ih =>
    rw [List.mapM_cons, List.mapM_cons]
    exact (h a).bind fun b => ih.bind fun bs => gives_pure (b :: bs)

end Lookup

/-- What is found is what was added last, or was there before. -/
theorem lookupName_cons {α : Type} {name other : String} {a b : α} {entries : List (String × α)}
    (h : lookupName name ((other, a) :: entries) = some b) :
    name = other ∧ b = a ∨ lookupName name entries = some b := by
  unfold lookupName at *
  rw [List.find?_cons] at h
  split at h
  · rename_i heq
    exact .inl ⟨(beq_iff_eq.1 heq).symm, (Option.some.inj h).symm⟩
  · exact .inr h

namespace Loader

/-- **A message type** is found as it would be at first. -/
theorem gives_findMessage (l : Loader) (fullName : String) :
    Lookup.Gives l (l.findMessage fullName) (l.messageType fullName) := by
  intro known hknown
  rw [findMessage, Lookup.run_bind, Lookup.run_get]
  dsimp only
  cases hknows : lookupName fullName known.messages with
  | some t => exact ⟨(hknown.messages fullName t hknows).symm, hknown⟩
  | none =>
    have heq := l.messageType_eq fullName
    cases hfound : l.pool.message? fullName with
    | none =>
      rw [hfound] at heq
      exact ⟨heq.symm, hknown⟩
    | some d =>
      rw [hfound] at heq
      refine ⟨heq.symm, fun other t ht => ?_, hknown.enums, hknown.packages⟩
      obtain ⟨rfl, rfl⟩ | ht := lookupName_cons ht
      · exact heq
      · exact hknown.messages other t ht

/-- **An enum type** is found as it would be at first. -/
theorem gives_findEnum (l : Loader) (fullName : String) :
    Lookup.Gives l (l.findEnum fullName) (l.enumType fullName) := by
  intro known hknown
  rw [findEnum, Lookup.run_bind, Lookup.run_get]
  dsimp only
  cases hknows : lookupName fullName known.enums with
  | some d => exact ⟨(hknown.enums fullName d hknows).symm, hknown⟩
  | none =>
    have heq := l.enumType_eq fullName
    cases hfound : l.pool.enum? fullName with
    | none =>
      rw [hfound] at heq
      exact ⟨heq.symm, hknown⟩
    | some d =>
      rw [hfound] at heq
      refine ⟨heq.symm, hknown.messages, fun other e he => ?_, hknown.packages⟩
      obtain ⟨rfl, rfl⟩ | he := lookupName_cons he
      · exact heq
      · exact hknown.enums other e he

/-- The types of a package, each looked up as it would be at first. -/
theorem gives_findMembers (l : Loader) (package : String) :
    Lookup.Gives l (l.findMembers package) (do
      let messages ← (l.topMessages package).mapM fun d => do
        return (d.name, TypeHandle.message (← l.messageType d.fullName))
      let enums ← (l.topEnums package).mapM fun d => do
        return (d.name, TypeHandle.enum (← l.enumType d.fullName))
      return messages ++ enums) := by
  unfold findMembers
  refine Lookup.Gives.bind (Lookup.Gives.mapM (fun d => ?_) _) fun messages => ?_
  · exact (l.gives_findMessage d.fullName).bind fun t => Lookup.gives_pure _
  refine Lookup.Gives.bind (Lookup.Gives.mapM (fun d => ?_) _) fun enums => Lookup.gives_pure _
  exact (l.gives_findEnum d.fullName).bind fun e => Lookup.gives_pure _

end Loader

/-- The types of a package are those found by their full names. -/
theorem Package.members_eq (p : Package) : p.members = (do
    let messages ← (p.loader.topMessages p.name).mapM fun d => do
      return (d.name, TypeHandle.message (← p.loader.messageType d.fullName))
    let enums ← (p.loader.topEnums p.name).mapM fun d => do
      return (d.name, TypeHandle.enum (← p.loader.enumType d.fullName))
    return messages ++ enums) :=
  (p.loader.gives_findMembers p.name).result

namespace Loader

/-- A package is given out if its types are found. -/
theorem package_eq (l : Loader) (name : String) : l.package name = (do
    let _ ← (⟨l, name⟩ : Package).members
    return ⟨l, name⟩) := by
  rw [package, Lookup.result, findPackage, Lookup.run_bind, Lookup.run_get]
  show ((l.findMembers name >>= _).run.run {}).1 = _
  rw [Lookup.run_bind, Package.members, Lookup.result]
  generalize (l.findMembers name).run.run {} = found
  obtain ⟨e | types, known⟩ := found <;> rfl

/-- **A package** is found as it would be at first. -/
theorem gives_findPackage (l : Loader) (name : String) :
    Lookup.Gives l (l.findPackage name) (l.package name) := by
  intro known hknown
  rw [findPackage, Lookup.run_bind, Lookup.run_get]
  dsimp only
  -- a package that was found before is given again
  cases hknows : lookupName name known.packages with
  | some p => exact ⟨(hknown.packages name p hknows).symm, hknown⟩
  | none =>
    dsimp only
    have heq := l.package_eq name
    obtain ⟨hmembers, hkept⟩ := l.gives_findMembers name known hknown
    rw [← Package.members_eq ⟨l, name⟩] at hmembers
    rw [← hmembers] at heq
    rw [Lookup.run_bind]
    generalize (l.findMembers name).run.run known = found at *
    obtain ⟨e | types, known'⟩ := found
    · exact ⟨heq.symm, hkept⟩
    · refine ⟨heq.symm, hkept.messages, hkept.enums, fun other p hp => ?_⟩
      obtain ⟨rfl, rfl⟩ | hp := lookupName_cons hp
      · exact heq
      · exact hkept.packages other p hp

end Loader

/-! ## Histories -/

/-- Something to look up. -/
inductive TypeQuery where
  | message (fullName : String)
  | enum (fullName : String)
  | package (name : String)

namespace Loader

/-- What a loader remembers after a lookup, whether it fails or not. -/
def remember (l : Loader) (known : TypeMemory) : TypeQuery → TypeMemory
  | .message fullName => ((l.findMessage fullName).run.run known).2
  | .enum fullName => ((l.findEnum fullName).run.run known).2
  | .package name => ((l.findPackage name).run.run known).2

/-- What a loader remembers after lookups. -/
def remembered (l : Loader) (queries : List TypeQuery) : TypeMemory := queries.foldl l.remember {}

theorem sound_remember {known : TypeMemory} (h : TypeMemory.Sound l known) (query : TypeQuery) :
    TypeMemory.Sound l (l.remember known query) := by
  cases query with
  | message fullName => exact (l.gives_findMessage fullName known h).2
  | enum fullName => exact (l.gives_findEnum fullName known h).2
  | package name => exact (l.gives_findPackage name known h).2

theorem sound_foldl {known : TypeMemory} (h : TypeMemory.Sound l known) (queries : List TypeQuery) :
    TypeMemory.Sound l (queries.foldl l.remember known) := by
  induction queries generalizing known with
  | nil => exact h
  | cons query rest ih => exact ih (sound_remember h query)

/-- **What is remembered is what would be found**, whatever was looked up. -/
theorem sound_remembered (l : Loader) (queries : List TypeQuery) : TypeMemory.Sound l (l.remembered queries) :=
  sound_foldl TypeMemory.sound_empty queries

end Loader

end Protoscript
