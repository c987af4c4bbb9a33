import Mathlib
import Protoscript.Proofs.Transfer

/-!
# Writes of messages of another pool

Wherever a message can be stored, an equal one of another pool can be stored as well, and all messages then
hold what they would hold.

* `Script.construct_forks`, `Script.callRepeated_forks`, `Script.callMap_forks` — the calls that store;
* `Operation.Exchanges` — what may stand for what in an operation;
* `Operation.Exchanges.stored_alike` — what is stored is equal, and of the first pool throughout.
-/

namespace Protoscript

variable {p q : Pool}

/-! ## Arguments that are related -/

section

variable {L : Value → Value → Prop}

theorem isSome_of_rel {o o' : Option Value} (ho : Option.Rel L o o') : o'.isSome = o.isSome := by
  cases ho <;> rfl

theorem bindPositional_related (count : Nat) {args args' : List Value} (hargs : List.Forall₂ L args args') :
    List.Forall₂ (Option.Rel L) (bindPositional count args) (bindPositional count args') := by
  induction count generalizing args args' with
  | zero => exact .nil
  | succ count ih =>
    cases hargs with
    | nil => exact .cons .none (ih .nil)
    | cons hvw hrest => exact .cons (.some hvw) (ih hrest)

theorem join_getElem?_related {values values' : List (Option Value)}
    (hvalues : List.Forall₂ (Option.Rel L) values values') (i : Nat) :
    Option.Rel L (values[i]?).join (values'[i]?).join := by
  induction hvalues generalizing i with
  | nil => exact .none
  | cons ho _ ih =>
    cases i with
    | zero => exact ho
    | succ i => exact ih i

theorem set_related {values values' : List (Option Value)}
    (hvalues : List.Forall₂ (Option.Rel L) values values') {v w : Value} (hvw : L v w) (i : Nat) :
    List.Forall₂ (Option.Rel L) (values.set i (some v)) (values'.set i (some w)) := by
  induction hvalues generalizing i with
  | nil => exact .nil
  | cons ho hrest ih =>
    cases i with
    | zero => exact .cons (.some hvw) hrest
    | succ i => exact .cons ho (ih i)

theorem firstMissing?_related (required : Nat) (params : List String) {values values' : List (Option Value)}
    (hvalues : List.Forall₂ (Option.Rel L) values values') :
    firstMissing? required params values' = firstMissing? required params values := by
  induction hvalues generalizing required params with
  | nil => rfl
  | cons ho _ ih =>
    cases required with
    | zero => rfl
    | succ required =>
      cases params with
      | nil => rfl
      | cons name params =>
        cases ho with
        | none => rfl
        | some => exact ih required params

theorem bindKeywords_related {callee : String} {params : List String} {keywords keywords' : Keywords}
    (hkeywords : List.Forall₂ (fun k l => l.1 = k.1 ∧ L k.2 l.2) keywords keywords')
    {values values' out : List (Option Value)} (hvalues : List.Forall₂ (Option.Rel L) values values')
    (hout : bindKeywords callee params values keywords = .ok out) :
    ∃ out', bindKeywords callee params values' keywords' = .ok out' ∧
      List.Forall₂ (Option.Rel L) out out' := by
  induction hkeywords generalizing values values' with
  | nil =>
    cases hout
    exact ⟨values', rfl, hvalues⟩
  | @cons k l rest rest' hkl _ ih =>
    obtain ⟨name, v⟩ := k
    obtain ⟨_, w⟩ := l
    obtain ⟨rfl, hvw⟩ := hkl
    rw [bindKeywords] at hout ⊢
    split at hout
    · cases hout
    rename_i i hi
    -- related arguments are given for the same parameters
    have hsome := isSome_of_rel (join_getElem?_related hvalues i)
    rw [hi]
    dsimp only
    rw [hsome]
    split at hout
    · cases hout
    · rw [if_neg (by assumption)]
      exact ih (set_related hvalues hvw i) hout

/-- **Related arguments are bound alike**: to the same parameters, with what is bound related. -/
theorem bindArguments_related (habsent : L .absent .absent) {callee : String} {args args' : List Value}
    (hargs : List.Forall₂ L args args') {keywords keywords' : Keywords}
    (hkeywords : List.Forall₂ (fun k l => l.1 = k.1 ∧ L k.2 l.2) keywords keywords')
    {params : List String} {required : Nat} {b : BoundArguments}
    (hb : bindArguments callee args keywords params required = .ok b) :
    ∃ b', bindArguments callee args' keywords' params required = .ok b' ∧
      ∀ i, L (b.value i) (b'.value i) := by
  unfold bindArguments at hb ⊢
  rw [← hargs.length_eq]
  split at hb
  · cases hb
  rw [if_neg (by assumption)]
  split at hb
  · cases hb
  rename_i values hvalues
  obtain ⟨values', hvalues', hrel⟩ := bindKeywords_related hkeywords (bindPositional_related _ hargs) hvalues
  rw [hvalues']
  dsimp only
  rw [firstMissing?_related required params hrel]
  split at hb
  · cases hb
  cases hb
  refine ⟨_, rfl, fun i => ?_⟩
  have hi := join_getElem?_related hrel i
  unfold BoundArguments.value BoundArguments.take BoundArguments.takeOption
  generalize (values[i]?).join = o at hi ⊢
  generalize (values'[i]?).join = o' at hi ⊢
  cases hi with
  | none => exact habsent
  | some hvw => exact hvw

end

namespace Script

/-! ## Constructors -/

/-- A loop over two related lists. -/
theorem Forks.forIn {ι : Type} {S : Set Place} {h₁ h₂ : Heap} {L : ι → ι → Prop} {xs ys : List ι}
    (hxy : List.Forall₂ L xs ys) {I : Set Place → Heap → Heap → Prop}
    {f g : ι → PUnit → Script (ForInStep PUnit)} (hk : h₁.Forked p S h₂) (hI : I S h₁ h₂)
    (hbody : ∀ {x y}, L x y → ∀ {T k₁ k₂}, k₁.Forked p T k₂ → I T k₁ k₂ →
      Forks p T k₁ k₂ (f x ⟨⟩) (g y ⟨⟩) fun U l₁ l₂ a₁ a₂ =>
        a₁ = .yield ⟨⟩ ∧ a₂ = .yield ⟨⟩ ∧ I U l₁ l₂) :
    Forks p S h₁ h₂ (forIn xs ⟨⟩ f) (forIn ys ⟨⟩ g) fun U l₁ l₂ _ _ => I U l₁ l₂ := by
  induction hxy generalizing S h₁ h₂ with
  | nil =>
    rw [List.forIn_nil, List.forIn_nil]
    exact .pure hk hI
  | cons hxy _ ih =>
    rw [List.forIn_cons, List.forIn_cons]
    refine .bind (hbody hxy hk hI) ?_
    rintro T k₁ k₂ _ _ - hk ⟨rfl, rfl, hI⟩
    exact ih hk hI

/-- What two heaps are like while a constructor fills in a new message. -/
structure FillingBoth (h : Heap) (r : Ref .message) (T : Set Place) (k₁ k₂ : Heap) : Prop where
  left : h.Grows k₁
  right : h.Grows k₂
  mem : ⟨.message, r⟩ ∈ T

section

variable {h : Heap} {S : Set Place} (hpq : p.Receives q) (hc : h.Closed) (hS : h.TypedOn p S)

include hpq hc

theorem setField_fills {r : Ref .message} (hr : ¬ h.Has ⟨.message, r⟩) {T : Set Place} {k₁ k₂ : Heap}
    (hk : k₁.Forked p T k₂) (hI : FillingBoth h r T k₁ k₂) {name : String} {v w : Value}
    (he : h.ExchangeIn p q v w) :
    Forks p T k₁ k₂ (setField r name v) (setField r name w) fun U l₁ l₂ _ _ => FillingBoth h r U l₁ l₂ := by
  intro u l₁ hrun
  obtain ⟨u', l₂, U, hsecond, hTU, hnew, hl, halters₁, halters₂, hviews⟩ :=
    setField_forks hpq hc hI.left hI.right hk hI.mem he hrun
  obtain ⟨hviews₁, hviews₂⟩ := hviews (hI.left.views hr)
  refine ⟨u', l₂, U, hsecond, hTU, hnew, hl, .of_alters hI.left halters₁ (fun a ha => ?_) fun s hs => ?_,
    .of_alters hI.right halters₂ (fun a ha => ?_) fun s hs => ?_, hTU hI.mem⟩
  · exact Set.mem_singleton_iff.1 ha ▸ hr
  · cases hs
    exact hviews₁
  · exact Set.mem_singleton_iff.1 ha ▸ hr
  · cases hs
    exact hviews₂

include hS

/-- **A constructor** fills in what it is given, and what stands for it. -/
theorem construct_forks {t : MessageType} (ht : t.descriptor.Among {p}) {keywords keywords' : Keywords}
    (hkeywords : List.Forall₂ (fun k l => l.1 = k.1 ∧ h.ExchangeIn p q k.2 l.2) keywords keywords') :
    Forks p S h h (construct t [] keywords) (construct t [] keywords') fun _ _ _ a₁ a₂ => a₂ = a₁ := by
  have hnew := h.not_has_fresh .message
  obtain ⟨-, hfork⟩ := hS.forked.newMessage ht (.empty t.descriptor) (.empty t.descriptor) (.refl _) t.config
  have hmake : Forks p S h h (newMessage (.empty t.descriptor) t.config)
      (newMessage (.empty t.descriptor) t.config) fun T k₁ k₂ a₁ a₂ =>
        a₂ = a₁ ∧ FillingBoth h (h.fresh .message) T k₁ k₂ := by
    intro v k₁ hrun
    cases hrun
    refine ⟨_, _, _, rfl, Set.subset_insert _ _, fun a ha => ?_, hfork, rfl, h.grows_alloc_message rfl,
      h.grows_alloc_message rfl, Set.mem_insert _ _⟩
    exact (Heap.has_alloc (s := .message) ha).symm.imp_right fun ha => .inl ha
  unfold construct
  refine .given rfl rfl (.bind hmake ?_)
  rintro T k₁ k₂ v _ - hk ⟨rfl, hI⟩
  refine .bind (Forks.forIn (I := FillingBoth h (h.fresh .message)) hkeywords hk hI
    fun {k l} hkl U l₁ l₂ hl hI => ?_) fun _ _ _ _ _ _ hl _ => .pure hl rfl
  obtain ⟨name, v⟩ := k
  obtain ⟨_, w⟩ := l
  obtain ⟨rfl, he⟩ := hkl
  dsimp only
  split
  · exact .throw
  · exact .bind (setField_fills hpq hc hnew hl hI he) fun _ _ _ _ _ _ hl hI => .pure hl ⟨rfl, rfl, hI⟩

end

/-! ## Methods of views -/

section

variable {h : Heap} {S : Set Place} {args args' : List Value} {keywords keywords' : Keywords}
  (hargs : List.Forall₂ (h.ExchangeIn p q) args args')
  (hkeywords : List.Forall₂ (fun k l => l.1 = k.1 ∧ h.ExchangeIn p q k.2 l.2) keywords keywords')

include hargs hkeywords

/-- A call whose arguments are bound first. -/
theorem Forks.bound {α : Type} {callee : String} {params : List String} {required : Nat}
    {f₁ f₂ : BoundArguments → Script α} {Q : Set Place → Heap → Heap → α → α → Prop}
    (hf : ∀ b b', bindArguments callee args keywords params required = .ok b →
      bindArguments callee args' keywords' params required = .ok b' →
      (∀ i, h.ExchangeIn p q (b.value i) (b'.value i)) → Forks p S h h (f₁ b) (f₂ b') Q) :
    Forks p S h h (ofExcept (bindArguments callee args keywords params required) >>= f₁)
      (ofExcept (bindArguments callee args' keywords' params required) >>= f₂) Q := by
  rcases hb : bindArguments callee args keywords params required with e | b
  · intro _ _ hrun
    cases hrun
  · have hwithin : Value.absent.Within h := Value.within_of_place?_none (fun _ he => by cases he) rfl
    have habsent : h.ExchangeIn p q .absent .absent :=
      .single (.same hwithin rfl rfl fun _ _ he => by cases he)
    obtain ⟨b', hb', hvalues⟩ := bindArguments_related habsent hargs hkeywords hb
    exact .given rfl (congrArg (·, h) hb') (hf b b' hb hb' hvalues)

variable (hpq : p.Receives q) (hc : h.Closed) (hS : h.TypedOn p S)

include hpq hc hS

omit hargs hkeywords hpq hc hS in
theorem intArgument_ok {k : Heap} {callee param : String} {v : Value} {n : Int} :
    (intArgument callee param v).run h = (.ok n, k) ↔ v = .int n ∧ k = h := by
  constructor
  · intro hrun
    unfold intArgument at hrun
    split at hrun
    · cases hrun
      exact ⟨rfl, rfl⟩
    · cases hrun
  · rintro ⟨rfl, rfl⟩
    rfl

/-- **The methods of a list view** that store something. -/
theorem callRepeated_forks {r : Ref .repeated} (hr : ⟨.repeated, r⟩ ∈ S) {receiver : String}
    {method : RepeatedMethod} (hmethod : method = .append ∨ method = .extend ∨ method = .insert) :
    Forks p S h h (callRepeated r receiver method args keywords)
      (callRepeated r receiver method args' keywords') fun _ _ _ a₁ a₂ => a₂ = a₁ := by
  unfold callRepeated
  rcases hmethod with rfl | rfl | rfl
  · refine .bound hargs hkeywords fun b b' _ _ he => .bind (append_forks hpq hc hS hr (he 0)) ?_
    exact fun _ _ _ _ _ _ hk _ => .pure hk rfl
  · refine .bound hargs hkeywords fun b b' _ _ he => .bind (extend_forks hpq hc hS hr (he 0)) ?_
    exact fun _ _ _ _ _ _ hk _ => .pure hk rfl
  · refine .bound hargs hkeywords fun b b' _ _ he => .step (fun hrun => ?_) fun index _ => .bind
      (insert_forks hpq hc hS hr (he 1)) fun _ _ _ _ _ _ hk _ => .pure hk rfl
    obtain ⟨hindex, rfl⟩ := intArgument_ok.1 hrun
    have hsame : b'.value 0 = b.value 0 := by
      rw [hindex]
      exact ((hindex ▸ he 0).exchange rfl rfl).eq_of_ne_message (by simp)
    exact ⟨rfl, intArgument_ok.2 ⟨hsame.trans hindex, rfl⟩⟩

/-- **`setdefault`** stores the default, or what stands for it. -/
theorem callMap_setdefault_forks {r : Ref .map} (hr : ⟨.map, r⟩ ∈ S) {receiver : String}
    (hkey : ∀ b b', bindArguments (receiver ++ "." ++ MapMethod.setdefault.name) args keywords
        ["key", "default"] 1 = .ok b →
      bindArguments (receiver ++ "." ++ MapMethod.setdefault.name) args' keywords'
        ["key", "default"] 1 = .ok b' →
      b'.value 0 = b.value 0 ∧ h.Exchange p q (b.value 0) (b.value 0)) :
    Forks p S h h (callMap r receiver .setdefault args keywords)
      (callMap r receiver .setdefault args' keywords') fun _ _ _ a₁ a₂ => a₂ = a₁ := by
  unfold callMap
  refine .bound hargs hkeywords fun b b' hb hb' he => ?_
  obtain ⟨hsame, hkept⟩ := hkey b b' hb hb'
  rw [hsame]
  exact mapSetDefault_forks hpq hc hS hr hkept (he 1)

omit hargs hkeywords in
/-- **`update`** stores all entries, or what stands for them. -/
theorem callMap_update_forks {r : Ref .map} (hr : ⟨.map, r⟩ ∈ S) {receiver : String}
    (hlength : args'.length = args.length) (hpairs : h.ExchangePairs p q args.head? args'.head?)
    (hnamed : List.Forall₂ (fun k l => l.1 = k.1 ∧ h.Exchange p q k.2 l.2) keywords keywords') :
    Forks p S h h (callMap r receiver .update args keywords)
      (callMap r receiver .update args' keywords') fun _ _ _ a₁ a₂ => a₂ = a₁ := by
  have hupdate := mapUpdate_forks hpq hc hS hr hpairs hnamed
  unfold callMap
  dsimp only
  rw [hlength]
  split
  · exact .throw
  · exact .bind hupdate fun _ _ _ _ _ _ hk _ => .pure hk rfl

end

end Script

/-! ## Operations -/

namespace Operation

/-- Whether an operation stores what stands for the values that another one stores, in messages, list views
and map views at some places; and otherwise does the same. -/
inductive Exchanges (p q : Pool) (S : Set Place) (h : Heap) : {α : Type} → Operation α → Operation α → Prop
  /-- a field is set -/
  | assign {r : Ref .message} {name : String} {v w : Value} (hr : ⟨.message, r⟩ ∈ S)
    (he : h.ExchangeIn p q v w) :
    Exchanges p q S h (.assign (.message r) name v) (.assign (.message r) name w)
  /-- an item of a list is replaced -/
  | setItem {r : Ref .repeated} {index v w : Value} (hr : ⟨.repeated, r⟩ ∈ S) (he : h.ExchangeIn p q v w) :
    Exchanges p q S h (.setIndex (.repeated r) index v) (.setIndex (.repeated r) index w)
  /-- an entry of a map is set -/
  | setEntry {r : Ref .map} {key v w : Value} (hr : ⟨.map, r⟩ ∈ S) (hkey : h.Exchange p q key key)
    (he : h.ExchangeIn p q v w) :
    Exchanges p q S h (.setIndex (.map r) key v) (.setIndex (.map r) key w)
  /-- items are appended or inserted -/
  | list {id : Nat} {receiver : String} {r : Ref .repeated} {method : RepeatedMethod}
    {args args' : List Value} {keywords keywords' : Keywords} (hr : ⟨.repeated, r⟩ ∈ S)
    (hmethod : method = .append ∨ method = .extend ∨ method = .insert)
    (hargs : List.Forall₂ (h.ExchangeIn p q) args args')
    (hkeywords : List.Forall₂ (fun k l => l.1 = k.1 ∧ h.ExchangeIn p q k.2 l.2) keywords keywords') :
    Exchanges p q S h (.call (.callable (.repeated id receiver r method)) args keywords)
      (.call (.callable (.repeated id receiver r method)) args' keywords')
  /-- an entry that is missing is set, under the same key -/
  | setdefault {id : Nat} {receiver : String} {r : Ref .map} {args args' : List Value}
    {keywords keywords' : Keywords} (hr : ⟨.map, r⟩ ∈ S)
    (hargs : List.Forall₂ (h.ExchangeIn p q) args args')
    (hkeywords : List.Forall₂ (fun k l => l.1 = k.1 ∧ h.ExchangeIn p q k.2 l.2) keywords keywords')
    (hkey : ∀ b b', bindArguments (receiver ++ "." ++ MapMethod.setdefault.name) args keywords
        ["key", "default"] 1 = .ok b →
      bindArguments (receiver ++ "." ++ MapMethod.setdefault.name) args' keywords'
        ["key", "default"] 1 = .ok b' →
      b'.value 0 = b.value 0 ∧ h.Exchange p q (b.value 0) (b.value 0)) :
    Exchanges p q S h (.call (.callable (.map id receiver r .setdefault)) args keywords)
      (.call (.callable (.map id receiver r .setdefault)) args' keywords')
  /-- all entries of a mapping, or of pairs, are set -/
  | update {id : Nat} {receiver : String} {r : Ref .map} {args args' : List Value}
    {keywords keywords' : Keywords} (hr : ⟨.map, r⟩ ∈ S) (hlength : args'.length = args.length)
    (hpairs : h.ExchangePairs p q args.head? args'.head?)
    (hkeywords : List.Forall₂ (fun k l => l.1 = k.1 ∧ h.Exchange p q k.2 l.2) keywords keywords') :
    Exchanges p q S h (.call (.callable (.map id receiver r .update)) args keywords)
      (.call (.callable (.map id receiver r .update)) args' keywords')
  /-- a message is made -/
  | construct {t : MessageType} {keywords keywords' : Keywords} (ht : t.descriptor.Among {p})
    (hkeywords : List.Forall₂ (fun k l => l.1 = k.1 ∧ h.ExchangeIn p q k.2 l.2) keywords keywords') :
    Exchanges p q S h (.call (.messageType t) [] keywords) (.call (.messageType t) [] keywords')

variable {α : Type} {op op' : Operation α} {h : Heap} {S : Set Place}

/-- **Such an operation succeeds** if the other one does, and leaves the heaps forked. -/
theorem Exchanges.forks (hpq : p.Receives q) (hc : h.Closed) (hS : h.TypedOn p S)
    (hop : op.Exchanges p q S h op') :
    Script.Forks p S h h op.script op'.script fun _ _ _ a₁ a₂ => a₂ = a₁ := by
  cases hop with
  | assign hr he =>
    exact (Script.setField_forks hpq hc (.refl ∅ h) (.refl ∅ h) hS.forked hr he).mono fun _ _ _ _ _ _ => rfl
  | @setItem r index v w hr he =>
    refine .step (fun {n k} hrun => ?_) fun n _ =>
      (Script.setAt_forks hpq hc hS hr he).mono fun _ _ _ _ _ _ => rfl
    cases index with
    | int n' =>
      cases hrun
      exact ⟨rfl, rfl⟩
    | _ => cases hrun
  | setEntry hr hkey he => exact (Script.mapSet_forks hpq hc hS hr hkey he).mono fun _ _ _ _ _ _ => rfl
  | list hr hmethod hargs hkeywords =>
    exact Script.callRepeated_forks hargs hkeywords hpq hc hS hr hmethod
  | setdefault hr hargs hkeywords hkey =>
    exact Script.callMap_setdefault_forks hargs hkeywords hpq hc hS hr hkey
  | update hr hlength hpairs hkeywords =>
    exact Script.callMap_update_forks hpq hc hS hr hlength hpairs hkeywords
  | construct ht hkeywords => exact Script.construct_forks hpq hc hS ht hkeywords

end Operation

/-- All messages in a message that conforms are of the pool of its type. -/
theorem Message.Conforms.among {m c : Message} (hm : m.descriptor.Among {p} ∧ m.Conforms)
    (hmc : Relation.ReflTransGen Message.Encloses m c) : c.descriptor.Among {p} ∧ c.Conforms := by
  induction hmc with
  | refl => exact hm
  | tail _ henclosed ih =>
    obtain ⟨f, hf, s, hs, hcontains⟩ := henclosed
    obtain ⟨-, -, held, -, -⟩ := ih.2
    exact (held f hf s hs).contains (FieldDescriptor.of_mem ih.1 hf) hcontains

namespace Sample

/-- A file with one message type. -/
def crateFile : FileDecl where
  name := "crate.proto"
  messages := [{
    name := "Crate"
    fields := [
      { name := "weight", number := 1, type := some (.scalar .double) },
      { name := "left", number := 2, type := some .message, typeName := some ".Crate" },
      { name := "right", number := 3, type := some .message, typeName := some ".Crate" }] }]
  edition := .proto3

/-- The field of a message that holds another one. -/
def partField (name : String) (number place : Nat) : FieldInfo where
  name := name
  jsonName := name
  number := number
  isRepeated := false
  kind := .message place
  hasPresence := true
  declaredDefault := none
  oneof := none
  takes_default := nofun
  repeated_presence := nofun

/-- The pools made from the file. -/
def crates (id : Nat) : Pool where
  id := id
  messages := [{
    name := "Crate"
    fullName := "Crate"
    package := ""
    edition := .proto3
    parent := none
    isMapEntry := false
    fields := [field "weight" 1 (.scalar .double) false none, partField "left" 2 0, partField "right" 3 0]
    nodup_numbers := by decide
    nodup_names := by decide }]
  enums := []
  nodup_names := by decide
  kinds_within := by decide

theorem ofFiles_crateFile (id : Nat) : Pool.ofFiles id [crateFile] = .ok (crates id) := by cbv

def crate (id : Nat) : MessageDescriptor := ⟨crates id, 0⟩

/-- A crate with another one in it. -/
def nestedCrate (id : Nat) : Message := .mk (crate id) [(2, .message (.empty (crate id)))] []

theorem conforms_nestedCrate (id : Nat) : (nestedCrate id).Conforms :=
  (Message.Conforms.empty (crate id)).set (f := ⟨crate id, partField "left" 2 0⟩) (.tail _ (.head _))
    (.single rfl rfl (.message rfl (.empty (crate id))))

theorem ofWire?_crate : Message.ofWire? (crate 1) [0x12, 0x00] = some (nestedCrate 1) := by cbv

theorem portable_nestedCrate : (nestedCrate 1).Portable (crates 1) where
  among := ⟨rfl, by decide⟩
  conforms := conforms_nestedCrate 1
  fits := Message.fitsWithin_ofWire? ofWire?_crate
  nests := by
    rintro c ⟨f, -, s, hs, hc⟩
    obtain rfl := eq_of_stored?_single hs
    cases hc
    exact nestsWithin_empty (crate 1) _
  length := by cbv

theorem nanFree_crate {id : Nat} {m : Message} (hm : m.descriptor = crate id)
    (hstored : ∀ f ∈ (crate id).fields, ∀ s, m.stored? f = some s → s.NanFree) : m.NanFree := by
  refine .of_stored (fun f hf hno => ?_) (hm.symm ▸ hstored)
  rw [hm] at hf
  rcases List.mem_cons.1 hf with rfl | hf
  · exact .scalar rfl
  rcases List.mem_cons.1 hf with rfl | hf
  · cases hno
  · rw [List.mem_singleton.1 hf] at hno
    cases hno

theorem nanFree_nestedCrate (id : Nat) : (nestedCrate id).NanFree := by
  refine nanFree_crate rfl fun f _ s hs => ?_
  obtain rfl := eq_of_stored?_single hs
  exact .message (nanFree_crate rfl fun _ _ _ hs => by cases hs)

theorem equals_nestedCrate : (nestedCrate 0).equals (nestedCrate 1) = true := by decide +kernel

/-- A message, and two that may be put into it. -/
def depot (m y x : Message) : Heap where
  messages := #[{ content := m, config := {} }, { content := y, config := {} }, { content := x, config := {} }]

theorem contents_depot {m y x : Message} {r : Ref .message} :
    (depot m y x).contents r = .ok ((depot m y x).cell r).content := by
  obtain ⟨i⟩ := r
  refine Heap.contents_of_views_eq_nil ?_
  rcases i with _ | _ | _ | i <;> rfl

/-- A message is put into the first one. -/
def stack (v : Value) : Operation Unit := .assign (.message root) "right" v

theorem closed_depot (m y x : Message) : (depot m y x).Closed := by
  rintro ⟨s, ⟨i⟩⟩ hr v hv
  cases s with
  | message =>
    have hviews : ((depot m y x).cell (s := .message) ⟨i⟩).values = [] := by
      rcases i with _ | _ | _ | i <;> rfl
    rw [hviews] at hv
    cases hv
  | _ => exact absurd hr (Nat.not_lt_zero i)

theorem typedOn_depot {m : Message} (hm : (crate 0).Takes m) (y x : Message) :
    (depot m y x).TypedOn (crates 0) {⟨.message, root⟩} where
  has hq := Set.mem_singleton_iff.1 hq ▸ (by decide : 0 < 3)
  typed hq := Set.mem_singleton_iff.1 hq ▸ hm.typed ⟨Set.mem_singleton _, by decide⟩ _ {}
  closed hq v hv _ _ := by
    cases Set.mem_singleton_iff.1 hq
    cases hv

/-- What a message is taken over as is put into the first one. -/
theorem run_stack {m y x : Message} {f : FieldDescriptor} {d : MessageDescriptor} {r : Ref .message}
    {u z : Message} (hf : m.descriptor.field? "right" = some f) (hkind : f.kind = .message d)
    (hmap : f.isMap = false) (hlist : f.isList = false)
    (hu : (depot m y x).contents r = .ok u) (hname : u.descriptor.fullName = d.fullName)
    (hz : u.adopt d = .ok z) :
    (stack (.message r)).run (depot m y x) = (.ok (), depot (m.set f (.message z)) y x) := by
  have hfull : (depot m y x).fullName r = d.fullName := by
    rw [← hname, Heap.descriptor_contents hu]
    rfl
  have hstored : (depot m y x).toStored f.kind (.message r) {} = .ok (.message z) := by
    rw [hkind]
    refine congrArg (Except.map Stored.message) (?_ : d.toStored _ _ _ _ = .ok z)
    rw [MessageDescriptor.toStored_of_message, if_pos hfull, hu]
    exact hz
  refine (Script.setField_ok (h := depot m y x) (r := root) hf rfl).2
    ⟨some (.message z), depot m y x, ?_, rfl⟩
  rw [Script.storedFor_single hmap hlist, Script.scalarFor_of_ne (by simp)]
  exact Script.bind_ok.2 ⟨_, _, Script.reading_ok.2 ⟨hstored, rfl⟩, rfl⟩

/-- A crate that is nestedCrate by another one of its pool, or of another pool. -/
def stacking : Heap := depot (.empty (crate 0)) (nestedCrate 0) (nestedCrate 1)

theorem exchanges_stacking :
    (stack (.message ⟨1⟩)).Exchanges (crates 0) (crates 1) {⟨.message, root⟩} stacking
      (stack (.message ⟨2⟩)) :=
  .assign (Set.mem_singleton _) (.single (.foreign (y := nestedCrate 0) (x := nestedCrate 1) (by decide : 1 < 3)
    (by decide : 2 < 3) contents_depot contents_depot
    ⟨⟨Set.mem_singleton _, by decide⟩, conforms_nestedCrate 0⟩ portable_nestedCrate equals_nestedCrate))

def rightPart (id : Nat) : FieldDescriptor := ⟨crate id, partField "right" 3 0⟩

/-- The crate with the other one in it. -/
def filled : Message := (Message.empty (crate 0)).set (rightPart 0) (.message (nestedCrate 0))

theorem nanFree_filled : filled.NanFree := by
  refine nanFree_crate rfl fun f _ s hs => ?_
  obtain rfl := eq_of_stored?_single (d := crate 0) (s := .message (nestedCrate 0)) hs
  exact .message (nanFree_nestedCrate 0)

theorem run_stacking :
    (stack (.message ⟨1⟩)).run stacking = (.ok (), depot filled (nestedCrate 0) (nestedCrate 1)) :=
  run_stack (f := rightPart 0) (d := crate 0) rfl rfl rfl rfl contents_depot rfl rfl

/-- A crate whose weight is NaN. -/
def heavy : Message := .mk (crate 0) [(1, .scalar (.f64 (.quietNaN false)))] []

/-- A file with a message type in which a list belongs to a oneof. -/
def pickFile : FileDecl where
  name := "pick.proto"
  messages := [{
    name := "Pick"
    fields := [
      { name := "items", number := 1, label := .repeated, type := some (.scalar .int32),
        oneofIndex := some 0 },
      { name := "right", number := 2, type := some .message, typeName := some ".Pick" }]
    oneofs := ["choice"] }]
  edition := .proto3

/-- The pools made from the file. -/
def picks (id : Nat) : Pool where
  id := id
  messages := [{
    name := "Pick"
    fullName := "Pick"
    package := ""
    edition := .proto3
    parent := none
    isMapEntry := false
    fields := [field "items" 1 (.scalar .int32) true (some 0), partField "right" 2 0]
    nodup_numbers := by decide
    nodup_names := by decide }]
  enums := []
  nodup_names := by decide
  kinds_within := by decide

theorem ofFiles_pickFile (id : Nat) : Pool.ofFiles id [pickFile] = .ok (picks id) := by cbv

def pick (id : Nat) : MessageDescriptor := ⟨picks id, 0⟩

def rightPick : FieldDescriptor := ⟨pick 0, partField "right" 2 0⟩

/-- A message that has picked the list, without items. -/
def picked (id : Nat) : Message := .mk (pick id) [(1, .list [])] []

theorem equals_picked : (picked 0).equals (picked 1) = true := by decide +kernel

theorem adopt_nestedCrate : (nestedCrate 1).adopt (crate 0) = .ok (nestedCrate 0) := by cbv

theorem adopt_picked : (picked 1).adopt (pick 0) = .ok (.empty (pick 0)) := by cbv

/-- A crate that the other pool's crate was merged into. -/
def mixed : Message := .mk (crate 0) [(2, .message (.empty (crate 1)))] []

theorem merge_nestedCrate : (Message.empty (crate 0)).merge (nestedCrate 1) = mixed := by cbv

theorem run_mixing : (Operation.call (.callable (.function ⟨0, ⟨crates 0, {}⟩⟩ .merge))
    [.message root, .message ⟨2⟩] []).run stacking =
      (.ok (.message root), depot mixed (nestedCrate 0) (nestedCrate 1)) := by
  have hroot : stacking.contents root = .ok (.empty (crate 0)) := contents_depot
  have hother : stacking.contents ⟨2⟩ = .ok (nestedCrate 1) := contents_depot
  have hmerge := Script.run_mergeMessage hroot hother rfl rfl
  rw [Operation.run_merge, Script.run_bind, hmerge, ← merge_nestedCrate]
  rfl

end Sample

end Protoscript
