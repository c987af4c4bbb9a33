import Protoscript.Proofs.EqualMessages
import Protoscript.Proofs.Flushing

/-!
# Equality of values is symmetric

The comparison of two values walks along the first one: along the items of a tuple or list, along the
keys of a mapping, for each of which it looks for an equal key of the other mapping, and along the
fields of a message's type. It gives one answer both ways under two conditions. Messages of one name
must be of one type: a type of the same name with more fields has them compared from one side only. And
no two keys of one mapping may equal one key of the other: integers that are rounded to one double equal
that double, but not each other.

* `Heap.Encloses` — what a comparison comes to;
* `Heap.Aligned` — the conditions;
* `Heap.equals_swap` — under them, equality is symmetric; `Heap.Reachable.aligned` — in runs with one
  pool the one on messages always holds.
-/

namespace Protoscript

namespace Heap

variable {h : Heap} {depth : Nat} {a b : Value}

/-! ## One comparison -/

theorem tupleEquals_eq (xs ys : List Value) :
    h.tupleEquals depth xs ys = listEquals (h.equalsWithin depth) xs ys := by
  induction xs generalizing ys with
  | nil => cases ys <;> simp [tupleEquals, listEquals]
  | cons x xs ih =>
    cases ys with
    | nil => simp [tupleEquals, listEquals]
    | cons y ys =>
      rw [tupleEquals, listEquals, ih]

theorem equalsWithin_tuple (xs ys : List Value) : h.equalsWithin depth (.tuple xs) (.tuple ys) =
    if xs.length = ys.length then listEquals (h.equalsWithin depth) xs ys else .ok false := by
  rw [equalsWithin, tupleEquals_eq]

theorem equalsWithin_sequence {xs ys : List Value} (hx : h.sequenceItems? a = some xs)
    (hy : h.sequenceItems? b = some ys) : h.equalsWithin depth a b =
      match depth with
      | 0 => .error .cyclic
      | depth + 1 =>
        if xs.length = ys.length then listEquals (h.equalsWithin depth) xs ys else .ok false := by
  rewrite [equalsWithin, hx, hy]
  · cases depth <;> rfl
  · rintro items - rfl -
    cases hx

theorem equalsWithin_mapping {xs ys : List (Value × Value)} (hx : h.mappingEntries? a = some xs)
    (hy : h.mappingEntries? b = some ys) : h.equalsWithin depth a b =
      match depth with
      | 0 => .error .cyclic
      | depth + 1 =>
        if xs.length = ys.length then mappingWithin (h.equalsWithin depth) xs ys else .ok false := by
  have hno : h.sequenceItems? a = none := by
    cases a <;> first | rfl | cases hx
  rewrite [equalsWithin, hno, hx, hy]
  · cases depth <;> rfl
  · rintro items - rfl -
    cases hx

/-- Values that are neither tuples nor sequences nor mappings, both of them, are compared as such. -/
theorem equalsWithin_flat (htuple : ∀ xs ys, ¬ (a = .tuple xs ∧ b = .tuple ys))
    (hsequence : ∀ xs ys, ¬ (h.sequenceItems? a = some xs ∧ h.sequenceItems? b = some ys))
    (hmapping : ∀ xs ys, ¬ (h.mappingEntries? a = some xs ∧ h.mappingEntries? b = some ys)) :
    h.equalsWithin depth a b = h.flatEquals a b := by
  rw [equalsWithin]
  · split
    · rename_i hx hy
      exact absurd ⟨hx, hy⟩ (hsequence _ _)
    · split
      · rename_i hx hy
        exact absurd ⟨hx, hy⟩ (hmapping _ _)
      · rfl
  · exact fun xs ys ha hb => htuple xs ys ⟨ha, hb⟩

theorem equalsWithin_leaf (htuple : ∀ xs, a ≠ .tuple xs) (hsequence : h.sequenceItems? a = none)
    (hmapping : h.mappingEntries? a = none) : h.equalsWithin depth a b = h.flatEquals a b :=
  equalsWithin_flat (fun xs _ hab => htuple xs hab.1)
    (fun _ _ hab => nomatch hsequence.symm.trans hab.1)
    fun _ _ hab => nomatch hmapping.symm.trans hab.1

theorem keysEqual_leaf (htuple : ∀ xs, a ≠ .tuple xs) (hsequence : h.sequenceItems? a = none)
    (hmapping : h.mappingEntries? a = none) (hflat : h.flatEquals a b = .ok false) :
    h.keysEqual a b = false := by
  rw [keysEqual, equals, equalsWithin_leaf htuple hsequence hmapping, hflat]
  rfl

theorem listEquals_ok_true {eq : Value → Value → Except Error Bool} {xs ys : List Value} :
    listEquals eq xs ys = .ok true ↔ List.Forall₂ (fun x y => eq x y = .ok true) xs ys := by
  induction xs generalizing ys with
  | nil => cases ys <;> simp [listEquals]
  | cons x xs ih =>
    cases ys with
    | nil => simp [listEquals]
    | cons y ys =>
      rw [listEquals, List.forall₂_cons, ← ih]
      rcases eq x y with e | _ | _ <;> simp

theorem mappingWithin_ok_true {eq : Value → Value → Except Error Bool} {xs ys : List (Value × Value)} :
    mappingWithin eq xs ys = .ok true ↔ ∀ e ∈ xs, ∃ d,
      (ys.find? fun d => (eq d.1 e.1).toOption == some true) = some d ∧ eq e.2 d.2 = .ok true := by
  induction xs with
  | nil => simp [mappingWithin]
  | cons e rest ih =>
    rw [mappingWithin, List.forall_mem_cons, ← ih]
    generalize ys.find? _ = found
    rcases found with _ | d
    · simp
    · rcases heq : eq e.2 d.2 with _ | _ | _ <;> simp [heq]

theorem toOption_eq_some_true {r : Except Error Bool} :
    (r.toOption == some true) = true ↔ r = .ok true := by
  rcases r with _ | _ | _ <;> simp [Except.toOption]

/-- The entry that is found for a key is one with an equal key. -/
theorem of_find_key {eq : Value → Value → Except Error Bool} {entries : List (Value × Value)}
    {key : Value} {e : Value × Value}
    (h : (entries.find? fun e => (eq e.1 key).toOption == some true) = some e) :
    e ∈ entries ∧ eq e.1 key = .ok true := by
  have hfound := List.find?_some h
  exact ⟨List.mem_of_find?_eq_some h, toOption_eq_some_true.1 hfound⟩

/-! ## What a comparison comes to -/

/-- Whether a value lies in another: it is the other, or lies in an item of it, or in a key or value of
one of its entries. What the fields of a message hold does not lie in the message. -/
inductive Encloses (h : Heap) : Value → Value → Prop
  | self (v : Value) : Encloses h v v
  | tuple {items : List Value} {v w : Value} (hv : v ∈ items) (hw : Encloses h v w) :
    Encloses h (.tuple items) w
  | item {u v w : Value} {items : List Value} (hu : h.sequenceItems? u = some items) (hv : v ∈ items)
    (hw : Encloses h v w) : Encloses h u w
  | key {u w : Value} {entries : List (Value × Value)} {e : Value × Value}
    (hu : h.mappingEntries? u = some entries) (he : e ∈ entries) (hw : Encloses h e.1 w) :
    Encloses h u w
  | value {u w : Value} {entries : List (Value × Value)} {e : Value × Value}
    (hu : h.mappingEntries? u = some entries) (he : e ∈ entries) (hw : Encloses h e.2 w) :
    Encloses h u w

/-- Whether two values are found equal if references are followed far enough. -/
def Identifies (h : Heap) (a b : Value) : Prop := ∃ depth, h.equalsWithin depth a b = .ok true

/-- Whether no two keys of a mapping equal one key of another. -/
def KeysApart (h : Heap) (xs ys : List (Value × Value)) : Prop :=
  ∀ d ∈ ys, xs.Pairwise fun e e' => ¬ (h.Identifies e.1 d.1 ∧ h.Identifies e'.1 d.1)

/-- Whether two messages hold what one type declares. -/
def OfOneType (h : Heap) (r s : Ref .message) : Prop :=
  ∃ p d, p.TracksPresence ∧ MessageDescriptor.Among {p} d ∧
    (∀ m, h.contents r = .ok m → d.Takes m) ∧ ∀ m, h.contents s = .ok m → d.Takes m

/-- Whether two values can be compared from either side: messages in them that have one name are of one
type, and no two keys of a mapping in one of them equal one key of a mapping in the other. -/
structure Aligned (h : Heap) (a b : Value) : Prop where
  messages : ∀ r s, h.Encloses a (.message r) → h.Encloses b (.message s) →
    h.fullName r = h.fullName s → h.OfOneType r s
  keys : ∀ u v xs ys, h.Encloses a u → h.Encloses b v → h.mappingEntries? u = some xs →
    h.mappingEntries? v = some ys → h.KeysApart xs ys ∧ h.KeysApart ys xs

namespace Aligned

theorem symm (hab : h.Aligned a b) : h.Aligned b a where
  messages r s hr hs hname := by
    obtain ⟨p, d, hp, hd, hr, hs⟩ := hab.messages s r hs hr hname.symm
    exact ⟨p, d, hp, hd, hs, hr⟩
  keys u v xs ys hu hv hxs hys := (hab.keys v u ys xs hv hu hys hxs).symm

/-- So can what lies in them. -/
theorem sub (hab : h.Aligned a b) {a' b' : Value} (ha : ∀ w, h.Encloses a' w → h.Encloses a w)
    (hb : ∀ w, h.Encloses b' w → h.Encloses b w) : h.Aligned a' b' where
  messages r s hr hs := hab.messages r s (ha _ hr) (hb _ hs)
  keys u v xs ys hu hv := hab.keys u v xs ys (ha _ hu) (hb _ hv)

end Aligned

/-! ## Symmetry -/

/-- Equality of messages of one type is symmetric. -/
theorem flatEquals_message_symm {r s : Ref .message} (hab : h.Aligned (.message r) (.message s))
    (heq : h.flatEquals (.message r) (.message s) = .ok true) :
    h.flatEquals (.message s) (.message r) = .ok true := by
  simp only [flatEquals] at heq ⊢
  by_cases hrs : r = s
  · rw [if_pos hrs.symm]
  rw [if_neg hrs] at heq
  rw [if_neg (Ne.symm hrs)]
  by_cases hname : h.fullName r = h.fullName s
  · rw [if_neg (by simp [hname])] at heq ⊢
    obtain ⟨p, d, hp, hd, hr, hs⟩ := hab.messages r s (.self _) (.self _) hname
    rcases hm : h.contents r with _ | m <;> rcases hn : h.contents s with _ | n <;>
      simp only [hm, hn, reduceCtorEq] at heq ⊢
    rw [Except.ok.injEq] at heq ⊢
    exact Message.equals_symm hp hd (hr m hm) (hs n hn) heq
  · rw [if_pos (by simpa using hname)] at heq
    cases heq

/-- Equality of values that refer to no others is symmetric. -/
theorem flatEquals_symm (hab : h.Aligned a b) (heq : h.flatEquals a b = .ok true) :
    h.flatEquals b a = .ok true := by
  cases a <;> cases b
  case message.message => exact flatEquals_message_symm hab heq
  all_goals simp only [flatEquals, Except.ok.injEq, beq_iff_eq] at heq ⊢
  case float.float => rwa [Double.equals_comm]
  case enum.enum =>
    simp only [EnumValue.equals, Bool.and_eq_true, beq_iff_eq] at heq ⊢
    exact ⟨heq.1.symm, heq.2.symm⟩
  all_goals first | exact heq.symm | exact heq

/-- Equality of lists is symmetric if that of their items is. -/
theorem listEquals_symm {eq : Value → Value → Except Error Bool} {xs ys : List Value}
    (hsymm : ∀ x ∈ xs, ∀ y ∈ ys, eq x y = .ok true → eq y x = .ok true)
    (heq : listEquals eq xs ys = .ok true) : listEquals eq ys xs = .ok true :=
  listEquals_ok_true.2 (forall₂_of_mem (listEquals_ok_true.1 heq) hsymm).flip

/-- Equality of mappings is symmetric if that of their keys and values is, and no two keys of the first
one equal one key of the other. -/
theorem mappingWithin_symm {xs ys : List (Value × Value)} (hlen : xs.length = ys.length)
    (hapart : h.KeysApart xs ys)
    (hkeys : ∀ e ∈ xs, ∀ d ∈ ys, h.equalsWithin depth d.1 e.1 = .ok true →
      h.equalsWithin depth e.1 d.1 = .ok true)
    (hvalues : ∀ e ∈ xs, ∀ d ∈ ys, h.equalsWithin depth e.2 d.2 = .ok true →
      h.equalsWithin depth d.2 e.2 = .ok true)
    (heq : mappingWithin (h.equalsWithin depth) xs ys = .ok true) :
    mappingWithin (h.equalsWithin depth) ys xs = .ok true := by
  rw [mappingWithin_ok_true] at heq ⊢
  intro d hd
  have hone : xs.Pairwise fun e e' => ¬ (h.equalsWithin depth e.1 d.1 = .ok true ∧
      h.equalsWithin depth e'.1 d.1 = .ok true) :=
    (hapart d hd).imp fun hne hboth => hne ⟨⟨depth, hboth.1⟩, depth, hboth.2⟩
  -- every entry of the other mapping is the partner of one of the first
  let Partners (e d : Value × Value) : Prop :=
    h.equalsWithin depth e.1 d.1 = .ok true ∧ h.equalsWithin depth e.2 d.2 = .ok true
  have hpartner : ∀ d ∈ ys, ∃ e ∈ xs, Partners e d := by
    refine exists_related hlen.ge (fun d hd => (hapart d hd).imp fun hne hboth => ?_)
      fun e he => ?_
    · exact hne ⟨⟨depth, hboth.1.1⟩, depth, hboth.2.1⟩
    · obtain ⟨d, hfind, hvalue⟩ := heq e he
      obtain ⟨hd, hkey⟩ := of_find_key hfind
      exact ⟨d, hd, hkeys e he d hd hkey, hvalue⟩
  obtain ⟨e, he, hkey, hvalue⟩ := hpartner d hd
  -- and it is the one that is found there, as no other key equals the key
  obtain ⟨e', hfind⟩ : ∃ e', (xs.find? fun e => (h.equalsWithin depth e.1 d.1).toOption == some true) =
      some e' := by
    rw [← Option.isSome_iff_exists, List.find?_isSome]
    exact ⟨e, he, toOption_eq_some_true.2 hkey⟩
  obtain ⟨he', hkey'⟩ := of_find_key hfind
  obtain rfl : e' = e := by
    have : Std.Symm fun e e' : Value × Value => ¬ (h.equalsWithin depth e.1 d.1 = .ok true ∧
        h.equalsWithin depth e'.1 d.1 = .ok true) := ⟨fun _ _ hno hboth => hno hboth.symm⟩
    by_contra hne
    exact hone.forall he' he hne ⟨hkey', hkey⟩
  exact ⟨e', hfind, hvalues e' he d hd hvalue⟩

/-- **What is found equal from one side is found equal from the other.** -/
theorem Aligned.equalsWithin_symm {depth : Nat} {a b : Value} (hab : h.Aligned a b)
    (heq : h.equalsWithin depth a b = .ok true) : h.equalsWithin depth b a = .ok true := by
  -- tuples get smaller, and items and entries lie one level deeper
  by_cases htuple : ∃ xs ys, a = .tuple xs ∧ b = .tuple ys
  · obtain ⟨xs, ys, rfl, rfl⟩ := htuple
    rw [equalsWithin_tuple] at heq ⊢
    split at heq
    · rename_i hlen
      rw [if_pos hlen.symm]
      refine listEquals_symm (fun x hx y hy hxy => ?_) heq
      have hlt := List.sizeOf_lt_of_mem hx
      exact Aligned.equalsWithin_symm (hab.sub (fun _ => .tuple hx) fun _ => .tuple hy) hxy
    · cases heq
  by_cases hsequence : ∃ xs ys, h.sequenceItems? a = some xs ∧ h.sequenceItems? b = some ys
  · obtain ⟨xs, ys, hxs, hys⟩ := hsequence
    rw [equalsWithin_sequence hxs hys] at heq
    rw [equalsWithin_sequence hys hxs]
    cases depth with
    | zero => cases heq
    | succ depth =>
      dsimp only at heq ⊢
      split at heq
      · rename_i hlen
        rw [if_pos hlen.symm]
        refine listEquals_symm (fun x hx y hy hxy => ?_) heq
        exact Aligned.equalsWithin_symm (hab.sub (fun _ => .item hxs hx) fun _ => .item hys hy) hxy
      · cases heq
  by_cases hmapping : ∃ xs ys, h.mappingEntries? a = some xs ∧ h.mappingEntries? b = some ys
  · obtain ⟨xs, ys, hxs, hys⟩ := hmapping
    rw [equalsWithin_mapping hxs hys] at heq
    rw [equalsWithin_mapping hys hxs]
    cases depth with
    | zero => cases heq
    | succ depth =>
      dsimp only at heq ⊢
      split at heq
      · rename_i hlen
        rw [if_pos hlen.symm]
        refine mappingWithin_symm hlen (hab.keys a b xs ys (.self _) (.self _) hxs hys).1
          (fun e he d hd hkey => ?_) (fun e he d hd hvalue => ?_) heq
        · exact Aligned.equalsWithin_symm (hab.symm.sub (fun _ => .key hys hd) fun _ => .key hxs he) hkey
        · exact Aligned.equalsWithin_symm (hab.sub (fun _ => .value hxs he) fun _ => .value hys hd) hvalue
      · cases heq
  -- any other two values are compared by themselves
  push Not at htuple hsequence hmapping
  rw [equalsWithin_flat (fun xs ys hx => htuple xs ys hx.1 hx.2) (fun xs ys hx => hsequence xs ys hx.1 hx.2)
    fun xs ys hx => hmapping xs ys hx.1 hx.2] at heq
  rw [equalsWithin_flat (fun xs ys hx => htuple ys xs hx.2 hx.1) (fun xs ys hx => hsequence ys xs hx.2 hx.1)
    fun xs ys hx => hmapping ys xs hx.2 hx.1]
  exact flatEquals_symm hab heq
termination_by (depth, sizeOf a)

/-- **Equality is symmetric** for values that can be compared from either side. -/
theorem equals_swap {x y : Bool} (hab : h.Aligned a b) (hx : h.equals a b = .ok x)
    (hy : h.equals b a = .ok y) : x = y := by
  unfold equals at hx hy
  -- one of the two is true, and then the other one is
  cases x with
  | true =>
    rw [hab.equalsWithin_symm hx] at hy
    exact Except.ok.inj hy
  | false =>
    cases y with
    | true =>
      rw [hab.symm.equalsWithin_symm hy] at hx
      exact (Except.ok.inj hx).symm
    | false => rfl

/-! ## Runs with one pool -/

/-- What lies in a value whose references lead to cells has such references. -/
theorem Encloses.within (hab : h.Encloses a b) (hc : h.Closed) (ha : a.Within h) : b.Within h := by
  induction hab with
  | self => exact ha
  | tuple hv _ ih => exact ih (Value.within_tuple.1 ha _ hv)
  | item hu hv _ ih =>
    unfold sequenceItems? at hu
    split at hu <;> cases hu
    · exact ih (hc.items (ha.has rfl) _ hv)
    · exact ih (hc.repeatedItems (ha.has rfl) _ hv)
  | key hu he _ ih => exact ih (hc.mappingEntries ha hu _ he).1
  | value hu he _ ih => exact ih (hc.mappingEntries ha hu _ he).2

/-- In a run with one pool, messages of one name are of one type. -/
theorem Reachable.ofOneType {p : Pool} (hh : Reachable {p} h) (hp : p.TracksPresence)
    {r s : Ref .message} (hr : h.Has ⟨.message, r⟩) (hs : h.Has ⟨.message, s⟩)
    (hname : h.fullName r = h.fullName s) : h.OfOneType r s := by
  have ht := hh.typed
  have hd := MessageDescriptor.eq_of_fullName (ht.message hr).among (ht.message hs).among hname
  refine ⟨p, _, hp, (ht.message hr).among, fun m hm => ht.contents hh.closed hr hm, fun m hm => ?_⟩
  rw [hd]
  exact ht.contents hh.closed hs hm

/-- **In a run with one pool** two values can be compared from either side if their keys can. -/
theorem Reachable.aligned {p : Pool} (hh : Reachable {p} h) (hp : p.TracksPresence) (ha : a.Within h)
    (hb : b.Within h)
    (hkeys : ∀ u v xs ys, h.Encloses a u → h.Encloses b v → h.mappingEntries? u = some xs →
      h.mappingEntries? v = some ys → h.KeysApart xs ys ∧ h.KeysApart ys xs) : h.Aligned a b where
  messages _ _ hr hs hname :=
    hh.ofOneType hp ((hr.within hh.closed ha).has rfl) ((hs.within hh.closed hb).has rfl) hname
  keys := hkeys

end Heap

namespace Sample

/-- A second node of depth 5 beside the edited one. -/
def twin : Message := .mk node [(3, .scalar (.i32 5))] []

def twinned : Heap where
  messages := edited.messages.push { content := twin, config := {} }

/-- A dict of the edited node. -/
def nodeFirst : List (Value × Value) := [(.text "node", .message right), (.text "rank", .int 2)]

/-- A dict of the other node, in another order. -/
def nodeLast : List (Value × Value) := [(.text "rank", .int 2), (.text "node", .message ⟨2⟩)]

def filed : Heap where
  dicts := #[{ entries := nodeFirst }]
  messages := twinned.messages

def compared : Heap where
  dicts := #[{ entries := nodeFirst }, { entries := nodeLast }]
  messages := twinned.messages

theorem reachable_twinned : Heap.Reachable {pool} twinned := by
  have hrun : ((Operation.wrap ⟨pool, {}⟩ twin).run edited).2 = twinned := rfl
  have htwin : twin.Conforms :=
    (Message.Conforms.empty node).set (f := ⟨node, field "depth" 3 (.scalar .int32) false none⟩)
      (.tail _ (.tail _ (.head _))) (.single rfl rfl (.scalar rfl))
  rw [← hrun]
  exact reachable_edited.tail (.operation _ ⟨nofun, nofun, ⟨Set.mem_singleton _, by decide⟩, htwin⟩)

/-- A dict of two entries can be made. -/
theorem reachable_dict {pools : Set Pool} {h : Heap} (hh : Heap.Reachable pools h)
    {e₁ e₂ : Value × Value} {hash₁ hash₂ : List UInt8}
    (hkey₁ : e₁.1.Within h ∧ e₁.1.From pools) (hvalue₁ : e₁.2.Within h ∧ e₁.2.From pools)
    (hkey₂ : e₂.1.Within h ∧ e₂.1.From pools) (hvalue₂ : e₂.2.Within h ∧ e₂.2.From pools)
    (h₁ : ∀ g : Heap, g.hashBytes e₁.1 = .ok hash₁) (h₂ : ∀ g : Heap, g.hashBytes e₂.1 = .ok hash₂)
    (hne : ∀ g : Heap, g.keysEqual e₁.1 e₂.1 = false) :
    Heap.Reachable pools (h.alloc .dict { entries := [e₁, e₂] }) := by
  have hrun : ((Operation.newDict [e₁, e₂]).run h).2 = h.alloc .dict { entries := [e₁, e₂] } :=
    congrArg Prod.snd (Script.dictOf_pair h₁ h₂ hne)
  rw [← hrun]
  refine hh.tail (.operation _ (within_of_given ?_ trivial))
  exact List.forall_mem_cons.2 ⟨hkey₁, List.forall_mem_cons.2 ⟨hvalue₁,
    List.forall_mem_cons.2 ⟨hkey₂, List.forall_mem_singleton.2 hvalue₂⟩⟩⟩

theorem reachable_compared : Heap.Reachable {pool} compared := by
  have htext (h : Heap) (s : String) := given {pool} h (.text s) nofun nofun rfl nofun
  have htwo (h : Heap) := given {pool} h (.int 2) nofun nofun rfl nofun
  have hright := given_message {pool} (by decide : right.index < twinned.messages.size)
  have htwin := given_message {pool} (r := ⟨2⟩) (by decide : 2 < filed.messages.size)
  have hnode (g : Heap) : g.keysEqual (.text "node") (.text "rank") = false :=
    Heap.keysEqual_leaf nofun rfl rfl rfl
  have hrank (g : Heap) : g.keysEqual (.text "rank") (.text "node") = false :=
    Heap.keysEqual_leaf nofun rfl rfl rfl
  have hfiled : Heap.Reachable {pool} filed :=
    reachable_dict reachable_twinned (htext _ _) hright (htext _ _) (htwo _) (fun _ => rfl)
      (fun _ => rfl) hnode
  exact reachable_dict hfiled (htext _ _) (htwo _) (htext _ _) htwin (fun _ => rfl) (fun _ => rfl) hrank

/-- A mapping of the heap is one of the two dicts, or empty. -/
theorem entries_compared {v : Value} {xs : List (Value × Value)}
    (hv : compared.mappingEntries? v = some xs) : xs = nodeFirst ∨ xs = nodeLast ∨ xs = [] := by
  cases v with
  | dict r =>
    obtain ⟨_ | _ | n⟩ := r <;> cases hv
    · exact .inl rfl
    · exact .inr (.inl rfl)
    · exact .inr (.inr rfl)
  | map r =>
    cases hv
    exact .inr (.inr rfl)
  | _ => cases hv

/-- No two of its keys equal one key. -/
theorem keysApart_compared {u v : Value} {xs ys : List (Value × Value)}
    (hxs : compared.mappingEntries? u = some xs) (hys : compared.mappingEntries? v = some ys) :
    compared.KeysApart xs ys := by
  have hsame {s t : String} (hst : compared.Identifies (.text s) (.text t)) : s = t := by
    obtain ⟨depth, hdepth⟩ := hst
    rw [Heap.equalsWithin_leaf (a := .text s) nofun rfl rfl] at hdepth
    simpa [Heap.flatEquals] using hdepth
  have htext : ∀ d ∈ ys, ∃ t, d.1 = .text t := by
    rcases entries_compared hys with rfl | rfl | rfl <;> simp [nodeFirst, nodeLast]
  intro d hd
  obtain ⟨t, ht⟩ := htext d hd
  have hne : ¬ (compared.Identifies (.text "node") d.1 ∧ compared.Identifies (.text "rank") d.1) := by
    rw [ht]
    rintro ⟨hnode, hrank⟩
    exact absurd ((hsame hnode).trans (hsame hrank).symm) (by decide)
  rcases entries_compared hxs with rfl | rfl | rfl
  · simpa [nodeFirst] using hne
  · simpa [nodeLast] using fun hrank hnode => hne ⟨hnode, hrank⟩
  · exact .nil

/-- The dicts are equal from both sides. -/
theorem compared_equal : compared.Aligned (.dict ⟨0⟩) (.dict ⟨1⟩) ∧
    ∃ x y, compared.equals (.dict ⟨0⟩) (.dict ⟨1⟩) = .ok x ∧
      compared.equals (.dict ⟨1⟩) (.dict ⟨0⟩) = .ok y ∧ x = y :=
  have hwithin (i : Nat) (hi : i < 2) : (Value.dict ⟨i⟩).Within compared :=
    (given {pool} compared (.dict ⟨i⟩) nofun (fun _ hp => by cases hp; exact hi) rfl nofun).1
  have haligned : compared.Aligned (.dict ⟨0⟩) (.dict ⟨1⟩) :=
    reachable_compared.aligned (by decide) (hwithin 0 (by decide)) (hwithin 1 (by decide))
      fun _ _ _ _ _ _ hxs hys => ⟨keysApart_compared hxs hys, keysApart_compared hys hxs⟩
  have hforth : compared.equals (.dict ⟨0⟩) (.dict ⟨1⟩) = .ok true := by cbv
  have hback : compared.equals (.dict ⟨1⟩) (.dict ⟨0⟩) = .ok true := by cbv
  ⟨haligned, true, true, hforth, hback, Heap.equals_swap haligned hforth hback⟩

/-- A type of the same name without fields. -/
def bare : Pool where
  id := 1
  messages := [{
    name := "Node"
    fullName := "Node"
    package := ""
    edition := .proto3
    parent := none
    isMapEntry := false
    fields := []
    nodup_numbers := List.nodup_nil
    nodup_names := List.nodup_nil }]
  enums := []
  nodup_names := by decide
  kinds_within := by decide

/-- A node of the type without fields and one whose right side is set. -/
def strangers : Heap where
  messages := #[{ content := .empty ⟨bare, 0⟩, config := {} }, { content := tree, config := {} }]

theorem reachable_strangers : Heap.Reachable {pool, bare} strangers := by
  let stranger : Heap := { messages := #[{ content := .empty ⟨bare, 0⟩, config := {} }] }
  have hbare : ((Operation.wrap ⟨bare, {}⟩ (.empty ⟨bare, 0⟩)).run {}).2 = stranger := rfl
  have htree : ((Operation.wrap ⟨pool, {}⟩ tree).run stranger).2 = strangers := rfl
  have hstranger : Heap.Reachable {pool, bare} stranger := by
    rw [← hbare]
    exact .single (.operation _ ⟨nofun, nofun, ⟨.inr rfl, by decide⟩, .empty _⟩)
  rw [← htree]
  exact hstranger.tail (.operation _ ⟨nofun, nofun, ⟨.inl rfl, by decide⟩, conforms_tree⟩)

/-- The double `2 ^ 53`. -/
def large : Double := .ofInt 9007199254740992

/-- Two integers that are rounded to one double. -/
def neighbours : List (Value × Value) :=
  [(.int 9007199254740992, .int 1), (.int 9007199254740993, .int 1)]

/-- The double that they are rounded to, and another key. -/
def measured : List (Value × Value) := [(.float large, .int 1), (.int 5, .int 1)]

def neighboured : Heap where
  dicts := #[{ entries := neighbours }]

def rounded : Heap where
  dicts := #[{ entries := neighbours }, { entries := measured }]

theorem reachable_rounded : Heap.Reachable {pool} rounded := by
  have hint (h : Heap) (n : Int) := given {pool} h (.int n) nofun nofun rfl nofun
  have hfloat (h : Heap) (x : Double) := given {pool} h (.float x) nofun nofun rfl nofun
  have hapart (g : Heap) : g.keysEqual (.int 9007199254740992) (.int 9007199254740993) = false :=
    Heap.keysEqual_leaf nofun rfl rfl rfl
  have hfive : (Double.ofInt 5).equals large = false := by decide +kernel
  have hrounded (g : Heap) : g.keysEqual (.float large) (.int 5) = false :=
    Heap.keysEqual_leaf nofun rfl rfl (congrArg Except.ok hfive)
  have hneighboured : Heap.Reachable {pool} neighboured :=
    reachable_dict .refl (hint _ _) (hint _ _) (hint _ _) (hint _ _) (fun _ => rfl) (fun _ => rfl) hapart
  exact reachable_dict hneighboured (hfloat _ _) (hint _ _) (hint _ _) (hint _ _) (fun _ => rfl)
    (fun _ => rfl) hrounded

theorem equalsWithin_rounded (depth : Nat) :
    rounded.equalsWithin (depth + 1) (.dict ⟨0⟩) (.dict ⟨1⟩) = .ok true ∧
    rounded.equalsWithin (depth + 1) (.dict ⟨1⟩) (.dict ⟨0⟩) = .ok false := by
  have hlarge : (Double.ofInt 9007199254740992).equals large = true := by decide +kernel
  have hnext : (Double.ofInt 9007199254740993).equals large = true := by decide +kernel
  have hleft : rounded.mappingEntries? (.dict ⟨0⟩) = some neighbours := rfl
  have hright : rounded.mappingEntries? (.dict ⟨1⟩) = some measured := rfl
  have hints (m n : Int) : rounded.equalsWithin depth (.int m) (.int n) = .ok (m == n) :=
    Heap.equalsWithin_leaf nofun rfl rfl
  have hint (m : Int) (x : Double) :
      rounded.equalsWithin depth (.int m) (.float x) = .ok ((Double.ofInt m).equals x) :=
    Heap.equalsWithin_leaf nofun rfl rfl
  have hfloat (m : Int) (x : Double) :
      rounded.equalsWithin depth (.float x) (.int m) = .ok ((Double.ofInt m).equals x) :=
    Heap.equalsWithin_leaf nofun rfl rfl
  rw [Heap.equalsWithin_mapping hleft hright, Heap.equalsWithin_mapping hright hleft]
  simp [Heap.mappingWithin, neighbours, measured, hints, hint, hfloat, hlarge, hnext, Except.toOption]

/-- Neither condition can be left out: a type of the same name may have more fields, and integers may be
rounded to one double. -/
theorem equal_one_way :
    (Heap.Reachable {pool, bare} strangers ∧
      strangers.equals (.message ⟨0⟩) (.message ⟨1⟩) = .ok true ∧
      strangers.equals (.message ⟨1⟩) (.message ⟨0⟩) = .ok false) ∧
    (Heap.Reachable {pool} rounded ∧
      rounded.equals (.dict ⟨0⟩) (.dict ⟨1⟩) = .ok true ∧
      rounded.equals (.dict ⟨1⟩) (.dict ⟨0⟩) = .ok false) :=
  ⟨⟨reachable_strangers, by cbv, by cbv⟩, reachable_rounded, equalsWithin_rounded _⟩

end Sample

end Protoscript
