import Protoscript.Schema.Builder
import Mathlib.Data.List.Forall2

/-!
# Numbering of enum values

A value of an enum under construction has a number of its own, or else the one after that of the value
before it. The builder counts in integers of 32 bits, and has the next number ready before it is asked
for one. So it counts as one counts without bounds as long as no value has the greatest number.

* `EnumCall`, `EnumBuilder.ofCalls` — the calls of a builder, and what they make;
* `EnumCall.numbered` — the values that calls stand for, counted without bounds;
* `EnumBuilder.Overflows` — whether a call counts beyond the greatest number;
* `EnumBuilder.values_foldl` — the values that calls add, in their order;
* `EnumBuilder.numbered_iff` — exactly when values are numbered as they should be.
-/

namespace Protoscript

/-- A call of an enum builder. -/
inductive EnumCall where
  /-- adds a value with the next number -/
  | variant (name : String)
  /-- adds a value with a number of its own -/
  | value (name : String) (number : Int32)

namespace EnumCall

/-- The name of the value that a call adds. -/
def name : EnumCall → String
  | variant name | value name _ => name

/-- The number of the value that a call adds, if `next` is the next number. -/
def number (next : Int32) : EnumCall → Int32
  | variant _ => next
  | value _ number => number

/-- The values that calls add, as a builder counts that has `next` ready. -/
def added (next : Int32) : List EnumCall → List (String × Int32)
  | [] => []
  | call :: rest => (call.name, call.number next) :: added (call.number next + 1) rest

/-- The values that calls stand for: each has a number of its own, or `next`, which is the successor of the
number before it. -/
def numbered (next : Int) : List EnumCall → List (String × Int)
  | [] => []
  | variant name :: rest => (name, next) :: numbered (next + 1) rest
  | value name number :: rest => (name, number.toInt) :: numbered (number.toInt + 1) rest

theorem numbered_cons (next : Int32) (call : EnumCall) (rest : List EnumCall) :
    numbered next.toInt (call :: rest) =
      (call.name, (call.number next).toInt) :: numbered ((call.number next).toInt + 1) rest := by
  cases call <;> rfl

end EnumCall

namespace EnumBuilder

/-- What a call makes of a builder. -/
def after (b : EnumBuilder) : EnumCall → EnumBuilder
  | .variant name => b.variant name
  | .value name number => b.variantValue name number

/-- What calls make of an empty builder, one after the other. -/
def ofCalls (name : String) (calls : List EnumCall) : EnumBuilder := calls.foldl after { name := name }

/-- Whether a call counts beyond the greatest number: what is next is not the successor of the number that
it gives. -/
def Overflows (b : EnumBuilder) (call : EnumCall) : Prop :=
  (b.after call).next.toInt ≠ (call.number b.next).toInt + 1

instance (b : EnumBuilder) (call : EnumCall) : Decidable (b.Overflows call) :=
  inferInstanceAs (Decidable (_ ≠ _))

variable {b : EnumBuilder}

theorem after_eq (b : EnumBuilder) (call : EnumCall) :
    b.after call = { b with
      values := b.values ++ [(call.name, call.number b.next)], next := call.number b.next + 1 } := by
  cases call <;> rfl

/-- **The values are those of the calls**, in their order. -/
theorem values_foldl (b : EnumBuilder) (calls : List EnumCall) :
    (calls.foldl after b).values = b.values ++ EnumCall.added b.next calls := by
  induction calls generalizing b with
  | nil => exact (List.append_nil _).symm
  | cons call rest ih => rw [List.foldl_cons, ih, after_eq, List.append_assoc]; rfl

/-- An integer of 32 bits has a successor of 32 bits, unless it is the greatest. -/
theorem toInt_succ_iff (n : Int32) : (n + 1).toInt = n.toInt + 1 ↔ n.toInt ≠ 2147483647 := by
  have hlow := n.le_toInt
  have hhigh := n.toInt_lt
  rw [Int32.toInt_add]
  constructor
  · intro h hmax
    rw [hmax] at h
    exact absurd h (by decide)
  · intro hmax
    exact Int.bmod_eq_of_le (by simp; omega) (by simp; omega)

/-- **Counting in 32 bits** is counting without bounds as long as no number is beyond the greatest one. -/
theorem added_eq_numbered_iff (next : Int32) (calls : List EnumCall) :
    (EnumCall.added next calls).map (fun v => (v.1, v.2.toInt)) = EnumCall.numbered next.toInt calls ↔
      ∀ v ∈ EnumCall.numbered next.toInt calls, v.2 ≤ 2147483647 := by
  induction calls generalizing next with
  | nil => exact ⟨fun _ => nofun, fun _ => rfl⟩
  | cons call rest ih =>
    have hhigh : (call.number next).toInt ≤ 2147483647 := by
      have := (call.number next).toInt_lt
      omega
    rw [EnumCall.numbered_cons, EnumCall.added, List.map_cons, List.forall_mem_cons,
      and_iff_right hhigh, List.cons.injEq, and_iff_right rfl]
    by_cases hmax : (call.number next).toInt = 2147483647
    · cases rest with
      | nil => exact ⟨fun _ => nofun, fun _ => rfl⟩
      | cons later rest =>
        -- the next number has wrapped around, and a value may have one of its own instead
        cases later with
        | variant name =>
          have hwraps := (toInt_succ_iff _).not.2 (not_not.2 hmax)
          refine iff_of_false (fun h => hwraps ?_) fun h => ?_
          · exact congrArg Prod.snd (List.cons.inj h).1
          · have := h _ List.mem_cons_self
            dsimp only at this
            omega
        | value name number => exact ih _
    · rw [← (toInt_succ_iff _).2 hmax]
      exact ih _

theorem overflows_iff (b : EnumBuilder) (call : EnumCall) :
    b.Overflows call ↔ (call.number b.next).toInt = 2147483647 := by
  rw [Overflows, after_eq, ne_eq, toInt_succ_iff, not_not]

/-- **No call overflows** as long as no number is the greatest one or beyond it. -/
theorem not_overflows_iff (b : EnumBuilder) (calls : List EnumCall) :
    (∀ earlier call later, calls = earlier ++ call :: later → ¬ (earlier.foldl after b).Overflows call) ↔
      ∀ v ∈ EnumCall.numbered b.next.toInt calls, v.2 < 2147483647 := by
  -- on the calls, for every number that the builder is at
  induction calls generalizing b with
  | nil => exact ⟨fun _ => nofun, fun _ earlier call later h => by simp at h⟩
  | cons call rest ih =>
    have hhigh := (call.number b.next).toInt_lt
    have hfirst : ¬ b.Overflows call ↔ (call.number b.next).toInt < 2147483647 := by
      rw [overflows_iff]
      omega
    have hsplit : (∀ earlier other later, call :: rest = earlier ++ other :: later →
          ¬ (earlier.foldl after b).Overflows other) ↔
        ¬ b.Overflows call ∧ ∀ earlier other later, rest = earlier ++ other :: later →
          ¬ (earlier.foldl after (b.after call)).Overflows other := by
      constructor
      · intro h
        refine ⟨h [] call rest rfl, fun earlier other later hrest => ?_⟩
        exact h (call :: earlier) other later (by rw [hrest]; rfl)
      · rintro ⟨hcall, hrest⟩ earlier other later heq
        cases earlier with
        | nil =>
          cases heq
          exact hcall
        | cons first earlier =>
          cases heq
          exact hrest earlier other later rfl
    rw [hsplit, ih, hfirst, EnumCall.numbered_cons, List.forall_mem_cons]
    refine and_congr_right fun hlt => ?_
    rw [after_eq, (toInt_succ_iff _).2 (by omega)]

theorem names_added (next : Int32) (calls : List EnumCall) :
    (EnumCall.added next calls).map (·.1) = calls.map EnumCall.name := by
  induction calls generalizing next with
  | nil => rfl
  | cons call rest ih => rw [EnumCall.added, List.map_cons, List.map_cons, ih]

theorem getElem?_added {next : Int32} {calls : List EnumCall} {i : Nat} {name : String} {number : Int32}
    (h : calls[i]? = some (.value name number)) :
    (EnumCall.added next calls)[i]? = some (name, number) := by
  induction calls generalizing next i with
  | nil => cases h
  | cons call rest ih =>
    cases i with
    | zero =>
      cases h
      rfl
    | succ i => exact ih h

end EnumBuilder

namespace Sample

/-- The greatest number, and a value after it that has none of its own. -/
def beyond : List EnumCall := [.variant "A", .value "B" 2147483647, .variant "C"]

end Sample

end Protoscript
