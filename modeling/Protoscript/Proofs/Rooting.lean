import Protoscript.Proofs.Presence

/-!
# Full names

The full name of a type is that of its package or of the message around it, and then its short name. In a
pool the message around a type goes by its place, so the places have to be the right ones.

* `MessageSite.scope_flatten`, `MessageSite.scope_messageSites` — the scope of a message is the full name of
  the message at the place that it is said to be in;
* `Pool.Rooted` — whether full names in a pool are put together like that, and no two types have one name;
* `Pool.rooted_ofFiles` — they are, if the pool was made from files.
-/

namespace Protoscript

/-! ## Declarations -/

namespace MessageSite

mutual

/-- A message and what is nested in it: the scope is the one given, or the full name of the message that is
said to be around. -/
theorem scope_flatten {file place : Nat} {scope : String} {parent : Option Nat} (m : MessageDecl) :
    ∀ site ∈ flatten file scope parent place m,
      site.parent = parent ∧ site.scope = scope ∨
        ∃ i outer, site.parent = some (place + i) ∧ (flatten file scope parent place m)[i]? = some outer ∧
          site.scope = outer.fullName := by
  obtain ⟨name, fields, nested, enums, oneofs, isMapEntry⟩ := m
  intro site hsite
  rw [flatten] at hsite ⊢
  rcases List.mem_cons.1 hsite with rfl | hsite
  · exact .inl ⟨rfl, rfl⟩
  · obtain ⟨hparent, hscope⟩ | ⟨i, outer, hparent, houter, hscope⟩ := scope_flattenAll nested site hsite
    · exact .inr ⟨0, _, hparent, rfl, hscope⟩
    · exact .inr ⟨i + 1, outer, by rw [hparent, Nat.add_assoc, Nat.add_comm 1], houter, hscope⟩

theorem scope_flattenAll {file place : Nat} {scope : String} {parent : Option Nat} (ms : List MessageDecl) :
    ∀ site ∈ flatten.flattenAll file scope parent place ms,
      site.parent = parent ∧ site.scope = scope ∨
        ∃ i outer, site.parent = some (place + i) ∧
          (flatten.flattenAll file scope parent place ms)[i]? = some outer ∧ site.scope = outer.fullName := by
  intro site hsite
  cases ms with
  | nil => cases hsite
  | cons m rest =>
    rw [flatten.flattenAll] at hsite ⊢
    rcases List.mem_append.1 hsite with hsite | hsite
    · refine (scope_flatten m site hsite).imp id ?_
      rintro ⟨i, outer, hparent, houter, hscope⟩
      exact ⟨i, outer, hparent, by rwa [List.getElem?_append_left (List.getElem?_eq_some_iff.1 houter).1], hscope⟩
    · refine (scope_flattenAll rest site hsite).imp id ?_
      rintro ⟨i, outer, hparent, houter, hscope⟩
      refine ⟨_, outer, by rw [hparent, Nat.add_assoc], ?_, hscope⟩
      rwa [List.getElem?_append_right (Nat.le_add_right _ _), Nat.add_sub_cancel_left]

end

/-- The scope is the package of the file, or the full name of the message of `sites` that is said to be
around. -/
def Rooted (files : List FileDecl) (sites : List MessageSite) (file : Nat) (parent : Option Nat)
    (scope : String) : Prop :=
  (parent = none ∧ ∃ decl, files[file]? = some decl ∧ scope = decl.package) ∨
    ∃ place outer, parent = some place ∧ sites[place]? = some outer ∧ scope = outer.fullName

theorem Rooted.append {files : List FileDecl} {sites : List MessageSite} {file : Nat} {parent : Option Nat}
    {scope : String} (h : Rooted files sites file parent scope) (more : List MessageSite) :
    Rooted files (sites ++ more) file parent scope := by
  refine h.imp id ?_
  rintro ⟨place, outer, hparent, houter, hscope⟩
  exact ⟨place, outer, hparent,
    by rwa [List.getElem?_append_left (List.getElem?_eq_some_iff.1 houter).1], hscope⟩

/-- **The messages of files** are in the scopes that they are said to be in. -/
theorem rooted_messageSites {files : List FileDecl} : ∀ site ∈ messageSites files,
    Rooted files (messageSites files) site.file site.parent site.scope := by
  have step (rest : List (FileDecl × Nat)) (hrest : ∀ f ∈ rest, files[f.2]? = some f.1)
      (acc : List MessageSite) (hacc : ∀ site ∈ acc, Rooted files acc site.file site.parent site.scope) :
      let sites := rest.foldl (fun acc f =>
        acc ++ flatten.flattenAll f.2 f.1.package none acc.length f.1.messages) acc
      ∀ site ∈ sites, Rooted files sites site.file site.parent site.scope := by
    induction rest generalizing acc with
    | nil => exact hacc
    | cons f rest ih =>
      refine ih (fun g hg => hrest g (List.mem_cons_of_mem _ hg)) _ fun site hsite => ?_
      rcases List.mem_append.1 hsite with hsite | hsite
      · exact (hacc site hsite).append _
      · obtain ⟨hparent, hscope⟩ | ⟨i, outer, hparent, houter, hscope⟩ := scope_flattenAll _ site hsite
        · exact .inl ⟨hparent, f.1, file_flattenAll _ site hsite ▸ hrest f List.mem_cons_self, hscope⟩
        · refine .inr ⟨_, outer, hparent, ?_, hscope⟩
          rwa [List.getElem?_append_right (Nat.le_add_right _ _), Nat.add_sub_cancel_left]
  exact step files.zipIdx (fun f hf => List.mem_zipIdx_iff_getElem?.1 hf) [] nofun

end MessageSite

/-- **The enums of files** are in the scopes that they are said to be in. -/
theorem EnumSite.rooted_enumSites {files : List FileDecl} {sites : List MessageSite} :
    ∀ site ∈ enumSites files sites, MessageSite.Rooted files sites site.file site.parent site.scope := by
  intro site hsite
  rcases List.mem_append.1 hsite with hsite | hsite
  · obtain ⟨f, hf, hsite⟩ := List.mem_flatMap.1 hsite
    obtain ⟨decl, -, rfl⟩ := List.mem_map.1 hsite
    exact .inl ⟨rfl, f.1, List.mem_zipIdx_iff_getElem?.1 hf, rfl⟩
  · obtain ⟨m, hm, hsite⟩ := List.mem_flatMap.1 hsite
    obtain ⟨decl, -, rfl⟩ := List.mem_map.1 hsite
    exact .inr ⟨m.2, m.1, rfl, List.mem_zipIdx_iff_getElem?.1 hm, rfl⟩

/-! ## Pools -/

namespace Pool

/-- The name of the scope that a type is declared in: its package, or the full name of the message
around it. -/
def scopeName? (p : Pool) (package : String) : (parent : Option Nat) → Option String
  | none => some package
  | some place => p.messages[place]?.map (·.fullName)

/-- Whether full names are those of scopes with short names, and no two types have one. -/
structure Rooted (p : Pool) : Prop where
  messages : ∀ m ∈ p.messages, ∃ scope, p.scopeName? m.package m.parent = some scope ∧
    m.fullName = joinName scope m.name
  enums : ∀ e ∈ p.enums, ∃ scope, p.scopeName? e.package e.parent = some scope ∧
    e.fullName = joinName scope e.name
  distinct : (p.messages.map (·.fullName) ++ p.enums.map (·.fullName)).Nodup

end Pool

namespace Pool

variable {p : Pool}

/-- The scope of a declaration is that of what was resolved. -/
theorem scopeName?_of_rooted {s : Scope} {file : Nat} {parent : Option Nat} {scope package : String}
    (hmessages : List.Forall₂ (fun site m => s.message site = .ok m) s.messages p.messages)
    (hpackage : package = (s.files.getD file default).package)
    (h : MessageSite.Rooted s.files s.messages file parent scope) :
    p.scopeName? package parent = some scope := by
  obtain ⟨rfl, decl, hdecl, rfl⟩ | ⟨place, outer, rfl, houter, rfl⟩ := h
  · rw [hpackage, List.getD_eq_getElem?_getD, hdecl]
    rfl
  · obtain ⟨m, hm, hresolved⟩ := getElem?_of_forall₂ hmessages.flip houter
    rw [scopeName?, hm, Option.map_some, (Scope.place_of_message hresolved).2.1]

theorem map_sublist_flatMap {α : Type} {f : α → String} {g : α → List String}
    (h : ∀ a, ∃ rest, g a = f a :: rest) (items : List α) : (items.map f).Sublist (items.flatMap g) := by
  induction items with
  | nil => exact .slnil
  | cons a items ih =>
    obtain ⟨rest, hrest⟩ := h a
    rw [List.map_cons, List.flatMap_cons, hrest]
    exact (ih.trans (List.sublist_append_right rest _)).cons_cons (f a)

/-- **In a pool that was made from files**, full names are put together from scopes and short names, and no
two types have one. -/
theorem rooted_ofFiles {id : Nat} {files : List FileDecl} (h : Pool.ofFiles id files = .ok p) : p.Rooted := by
  obtain ⟨s, rfl, hsites, henumSites, hnames, hmessages, henums⟩ := resolved_ofFiles h
  refine ⟨fun m hm => ?_, fun e he => ?_, ?_⟩
  · obtain ⟨site, hmem, hsite⟩ := exists_of_forall₂ hmessages hm
    obtain ⟨hname, hfull, hparent, hpackage, -⟩ := Scope.place_of_message hsite
    refine ⟨site.scope, ?_, by rw [hfull, hname]; rfl⟩
    have hrooted := MessageSite.rooted_messageSites site (hsites ▸ hmem)
    rw [← hsites] at hrooted
    rw [hparent]
    exact scopeName?_of_rooted hmessages hpackage hrooted
  · obtain ⟨site, hmem, hsite⟩ := exists_of_forall₂ henums he
    obtain ⟨hname, hfull, hparent, hpackage, -⟩ := Scope.place_of_enumeration hsite
    refine ⟨site.scope, ?_, by rw [hfull, hname]; rfl⟩
    rw [hparent]
    exact scopeName?_of_rooted hmessages hpackage (EnumSite.rooted_enumSites site (henumSites ▸ hmem))
  · have hmessageNames : s.messages.map MessageSite.fullName = p.messages.map (·.fullName) :=
      List.forall₂_eq_eq_eq ▸ List.forall₂_map_left_iff.2 (List.forall₂_map_right_iff.2
        (hmessages.imp fun _ _ h => (Scope.place_of_message h).2.1.symm))
    have henumNames : s.enums.map EnumSite.fullName = p.enums.map (·.fullName) :=
      List.forall₂_eq_eq_eq ▸ List.forall₂_map_left_iff.2 (List.forall₂_map_right_iff.2
        (henums.imp fun _ _ h => (Scope.place_of_enumeration h).2.1.symm))
    rw [← hmessageNames, ← henumNames]
    exact hnames.sublist (.append (map_sublist_flatMap (fun _ => ⟨_, rfl⟩) _)
      (map_sublist_flatMap (fun _ => ⟨_, rfl⟩) _))

end Pool

end Protoscript
