import Script.Eval
import Script.Proofs.Sequence

/-!
# Arithmetic is exact or an error

Expressions of integers with signs and the four operators have an exact value, a whole number
without bounds. Evaluation agrees with it as long as the exact values of all parts are integers of
the language and no part divides by zero. Otherwise it fails in the first part, operands before the
operator and left before right, that is at fault; at no time does a result wrap round.

* `Arithmetic`: these expressions, of any shape, with `Arithmetic.value` and `Arithmetic.parts`;
* `Arithmetic.evaluates`: evaluation comes to the exact value or to the first fault;
* `Arithmetic.exact_or_first_fault`: the same, told of the parts.
-/

namespace Script

/-! ### Expressions -/

/-- The operators of arithmetic. -/
inductive ArithmeticOp where
  | add
  | subtract
  | multiply
  | divide
deriving DecidableEq, Repr

namespace ArithmeticOp

/-- The operator between operands that it is. -/
def toBinary : ArithmeticOp → BinaryOp
  | add => .add
  | subtract => .subtract
  | multiply => .multiply
  | divide => .divide

/-- The exact result. Division drops the fraction, and what it gives by zero does not matter. -/
def apply : ArithmeticOp → Int → Int → Int
  | add, a, b => a + b
  | subtract, a, b => a - b
  | multiply, a, b => a * b
  | divide, a, b => a.tdiv b

end ArithmeticOp

/-- **An expression of arithmetic**: integers with signs in front of them and operators between
them, and where each part was read. -/
inductive Arithmetic where
  | literal (value : Integer) (span : Span)
  | plus (operand : Arithmetic) (span : Span)
  | minus (operand : Arithmetic) (span : Span)
  | binary (op : ArithmeticOp) (left right : Arithmetic) (span : Span)
deriving DecidableEq, Repr

/-- The whole numbers that are integers of the language. -/
def Integer.InRange (n : Int) : Prop :=
  -greatest - 1 ≤ n ∧ n ≤ greatest

instance (n : Int) : Decidable (Integer.InRange n) :=
  inferInstanceAs (Decidable (_ ∧ _))

namespace Arithmetic

/-- The expression of the language that an expression of arithmetic is. -/
def toExpr : Arithmetic → Expr
  | literal value span => .integer value span
  | plus operand span => .unary .plus operand.toExpr span
  | minus operand span => .unary .minus operand.toExpr span
  | binary op left right span => .binary op.toBinary left.toExpr right.toExpr span

/-- The exact value. -/
def value : Arithmetic → Int
  | literal value _ => Int64.toInt value
  | plus operand _ => operand.value
  | minus operand _ => -operand.value
  | binary op left right _ => op.apply left.value right.value

/-- All parts, in the order in which they come to their values: operands in front of the
expression that they are in, and the left one in front of the right one. -/
def parts : Arithmetic → List Arithmetic
  | literal value span => [literal value span]
  | plus operand span => operand.parts ++ [plus operand span]
  | minus operand span => operand.parts ++ [minus operand span]
  | binary op left right span => left.parts ++ right.parts ++ [binary op left right span]

/-- A division by zero. -/
def DividesByZero : Arithmetic → Prop
  | binary .divide _ right _ => right.value = 0
  | _ => False

instance : DecidablePred DividesByZero
  | binary .divide _ right _ => inferInstanceAs (Decidable (right.value = 0))
  | literal _ _ | plus _ _ | minus _ _ => inferInstanceAs (Decidable False)
  | binary .add _ _ _ | binary .subtract _ _ _ | binary .multiply _ _ _ =>
    inferInstanceAs (Decidable False)

/-- What is wrong with an expression itself, its operands aside: it divides by zero, or else its
exact value is no integer of the language. -/
def fault? (e : Arithmetic) : Option RuntimeError :=
  if e.DividesByZero then some ⟨.divisionByZero, e.toExpr.span⟩
  else if Integer.InRange e.value then none
  else some ⟨.integerOverflow, e.toExpr.span⟩

/-- The first fault among the parts. -/
def firstFault? (e : Arithmetic) : Option RuntimeError :=
  e.parts.findSome? fault?

end Arithmetic

/-! ### Operators on integers -/

theorem exactly_of_inRange {n : Int} (h : Integer.InRange n) :
    ∃ v, exactly n = .ok (.integer v) ∧ Int64.toInt v = n := by
  have hsome : Integer.ofInt? n = some (Int64.ofInt n) := if_pos h
  refine ⟨Int64.ofInt n, ?_, Integer.ofInt?_eq_some_iff.1 hsome⟩
  rw [exactly, hsome]

theorem exactly_of_not_inRange {n : Int} (h : ¬ Integer.InRange n) :
    exactly n = .error .integerOverflow := by
  have hnone : Integer.ofInt? n = none := if_neg h
  rw [exactly, hnone]

theorem Integer.inRange_toInt (v : Integer) : InRange (Int64.toInt v) := by
  have hlow : -9223372036854775808 ≤ Int64.toInt v := Int64.le_toInt v
  have hhigh : Int64.toInt v ≤ 9223372036854775807 := Int64.toInt_le v
  unfold InRange greatest
  omega

/-- An operator between integers is exact, but that nothing is divided by zero. -/
theorem ArithmeticOp.apply_integers (op : ArithmeticOp) (a b : Integer) :
    op.toBinary.apply (.integer a) (.integer b) =
      if op = .divide ∧ Int64.toInt b = 0 then .error .divisionByZero
      else exactly (op.apply (Int64.toInt a) (Int64.toInt b)) := by
  cases op with
  | divide =>
    by_cases hzero : Int64.toInt b = 0
    · simp [toBinary, BinaryOp.apply, BinaryOp.onIntegers, hzero]
    · simp [toBinary, BinaryOp.apply, BinaryOp.onIntegers, hzero, apply]
  | _ => rfl

namespace Arithmetic

/-! ### Faults -/

theorem dividesByZero_binary_iff {op : ArithmeticOp} {left right : Arithmetic} {span : Span} :
    (binary op left right span).DividesByZero ↔ op = .divide ∧ right.value = 0 := by
  cases op <;> simp [DividesByZero]

@[simp] theorem fault?_literal (value : Integer) (span : Span) :
    (literal value span).fault? = none := by
  have hzero : ¬ (literal value span).DividesByZero := id
  rw [fault?, if_neg hzero, if_pos]
  exact Integer.inRange_toInt value

@[simp] theorem firstFault?_literal (value : Integer) (span : Span) :
    (literal value span).firstFault? = none := by
  simp [firstFault?, parts]

@[simp] theorem firstFault?_plus (operand : Arithmetic) (span : Span) :
    (plus operand span).firstFault? = operand.firstFault?.or (plus operand span).fault? := by
  simp [firstFault?, parts, List.findSome?_append]

@[simp] theorem firstFault?_minus (operand : Arithmetic) (span : Span) :
    (minus operand span).firstFault? = operand.firstFault?.or (minus operand span).fault? := by
  simp [firstFault?, parts, List.findSome?_append]

@[simp] theorem firstFault?_binary (op : ArithmeticOp) (left right : Arithmetic) (span : Span) :
    (binary op left right span).firstFault? =
      left.firstFault?.or (right.firstFault?.or (binary op left right span).fault?) := by
  simp [firstFault?, parts, List.findSome?_append]

/-! ### Evaluation -/

/-- What an expression comes to: its first fault, or else its exact value. The store is as it
was. -/
def ComesTo (e : Arithmetic) (s : Store) (result : EStateM.Result RuntimeError Store Value) :
    Prop :=
  match e.firstFault? with
  | some error => result = .error error s
  | none => ∃ v, result = .ok (.integer v) s ∧ Int64.toInt v = e.value

section Evaluation

open Eval (lift expression)

variable {e : Arithmetic} {s : Store}

/-- An operand comes first. If it is at fault, nothing else is evaluated; if not, its exact
value is handed on, and the first fault is one of what comes after it. -/
theorem ComesTo.bind {operand : Arithmetic} {later : Option RuntimeError} {x : Eval Value}
    {f : Value → Eval Value} (h : operand.ComesTo s (x s))
    (hfirst : e.firstFault? = operand.firstFault?.or later)
    (hf : ∀ v, Int64.toInt v = operand.value → e.firstFault? = later →
      e.ComesTo s (f (.integer v) s)) :
    e.ComesTo s ((x >>= f) s) := by
  cases hfault : operand.firstFault? with
  | some error =>
    rw [ComesTo, hfault] at h
    rw [hfault, Option.some_or] at hfirst
    rw [ComesTo, hfirst]
    exact bind_error h
  | none =>
    rw [ComesTo, hfault] at h
    rw [hfault, Option.none_or] at hfirst
    obtain ⟨v, hv, hvalue⟩ := h
    rw [bind_ok hv]
    exact hf v hvalue hfirst

/-- An exact result is what an expression without a division by zero comes to when its operands
are without fault. -/
theorem comesTo_exactly (hfirst : e.firstFault? = e.fault?) (hzero : ¬ e.DividesByZero) :
    e.ComesTo s (lift e.toExpr.span (exactly e.value) s) := by
  rw [ComesTo, hfirst, fault?, if_neg hzero]
  by_cases hrange : Integer.InRange e.value
  · obtain ⟨v, hv, hvalue⟩ := exactly_of_inRange hrange
    rw [if_pos hrange, hv]
    exact ⟨v, rfl, hvalue⟩
  · rw [if_neg hrange, exactly_of_not_inRange hrange]
    rfl

theorem comesTo_divisionByZero (hfirst : e.firstFault? = e.fault?) (hzero : e.DividesByZero) :
    e.ComesTo s (lift e.toExpr.span (.error .divisionByZero) s) := by
  rw [ComesTo, hfirst, fault?, if_pos hzero]
  rfl

/-- **Evaluation comes to the exact value or to the first fault**, by induction on the expression:
an operand that fails ends it, and operands that do not have their exact values. -/
theorem evaluates (call : Caller) (scope : Ref .scope) : ∀ (e : Arithmetic) (s : Store),
    e.ComesTo s (expression call scope e.toExpr s)
  | literal value span, s => by
    rw [toExpr, expression, ComesTo, firstFault?_literal]
    exact ⟨value, rfl, rfl⟩
  | plus operand span, s => by
    rw [toExpr, expression]
    refine (evaluates call scope operand s).bind (firstFault?_plus operand span)
      fun v hvalue hfirst => ?_
    -- the value of the operand is an integer already, so the sign cannot be at fault
    have hrange : Integer.InRange (plus operand span).value := by
      rw [value, ← hvalue]
      exact Integer.inRange_toInt v
    have hnone : (plus operand span).fault? = none := by
      simp [fault?, DividesByZero, hrange]
    rw [ComesTo, hfirst, hnone]
    exact ⟨v, rfl, hvalue⟩
  | minus operand span, s => by
    rw [toExpr, expression]
    refine (evaluates call scope operand s).bind (firstFault?_minus operand span)
      fun v hvalue hfirst => ?_
    have hexact := comesTo_exactly (s := s) hfirst id
    rw [value, ← hvalue] at hexact
    exact hexact
  | binary op left right span, s => by
    rw [toExpr, expression]
    refine (evaluates call scope left s).bind (firstFault?_binary op left right span)
      fun a hvalueLeft hright => ?_
    refine (evaluates call scope right s).bind hright fun b hvalueRight hfirst => ?_
    rw [ArithmeticOp.apply_integers, hvalueLeft, hvalueRight]
    by_cases hzero : op = .divide ∧ right.value = 0
    · rw [if_pos hzero]
      exact comesTo_divisionByZero hfirst (dividesByZero_binary_iff.2 hzero)
    · rw [if_neg hzero]
      exact comesTo_exactly hfirst fun h => hzero (dividesByZero_binary_iff.1 h)

/-! ### Parts at fault -/

/-- A part is at fault if it divides by zero or its exact value is out of range. -/
def AtFault (e : Arithmetic) : Prop :=
  e.DividesByZero ∨ ¬ Integer.InRange e.value

instance : DecidablePred AtFault :=
  fun _ => inferInstanceAs (Decidable (_ ∨ _))

theorem fault?_eq_none_iff {e : Arithmetic} : e.fault? = none ↔ ¬ e.AtFault := by
  rw [fault?, AtFault]
  split
  · next hzero => simp [hzero]
  · next hzero => split <;> simp_all

theorem fault?_of_atFault {e : Arithmetic} (h : e.AtFault) :
    e.fault? = some ⟨if e.DividesByZero then .divisionByZero else .integerOverflow,
      e.toExpr.span⟩ := by
  rw [fault?]
  split
  · rfl
  · next hzero => rw [if_neg (h.resolve_left hzero)]

/-- **Arithmetic is exact or an error.** An expression without a part at fault evaluates to the
integer of its exact value. Any other fails in the first of its parts at fault: with a division by
zero if that is what the part does, with an overflow otherwise, and where that part was read. -/
theorem exact_or_first_fault (call : Caller) (scope : Ref .scope) (e : Arithmetic) (s : Store) :
    ((∀ part ∈ e.parts, ¬ part.AtFault) →
      ∃ v, expression call scope e.toExpr s = .ok (.integer v) s ∧ Int64.toInt v = e.value) ∧
    ((∃ part ∈ e.parts, part.AtFault) → ∃ before part after, e.parts = before ++ part :: after ∧
      (∀ p ∈ before, ¬ p.AtFault) ∧ part.AtFault ∧
      expression call scope e.toExpr s =
        .error ⟨if part.DividesByZero then .divisionByZero else .integerOverflow,
          part.toExpr.span⟩ s) := by
  have hcomes := evaluates call scope e s
  cases hfirst : e.firstFault? with
  | none =>
    -- no part is at fault
    have hsound : ∀ part ∈ e.parts, ¬ part.AtFault := fun part hpart =>
      fault?_eq_none_iff.1 (List.findSome?_eq_none_iff.1 hfirst part hpart)
    rw [ComesTo, hfirst] at hcomes
    refine ⟨fun _ => hcomes, ?_⟩
    rintro ⟨part, hpart, hfault⟩
    exact absurd hfault (hsound part hpart)
  | some error =>
    -- the first fault that is found is that of the first part at fault
    obtain ⟨before, part, after, hparts, hpart, hbefore⟩ := List.findSome?_eq_some_iff.1 hfirst
    have hfault : part.AtFault := by
      refine Decidable.not_not.1 fun hsound => ?_
      rw [fault?_eq_none_iff.2 hsound] at hpart
      cases hpart
    rw [ComesTo, hfirst] at hcomes
    rw [fault?_of_atFault hfault] at hpart
    obtain rfl := Option.some.inj hpart
    constructor
    · intro hsound
      exact absurd hfault (hsound part (by simp [hparts]))
    · intro _
      exact ⟨before, part, after, hparts, fun p hp => fault?_eq_none_iff.1 (hbefore p hp), hfault,
        hcomes⟩

/-- The least integer is exact, as a difference. Divided by minus one it is not, and this is found
before the division by zero on the right: `((-9223372036854775807 - 1) / -1) * (1 / 0)`. -/
theorem exact_or_first_fault_least :
    let call := Eval.callWithin maxCalls
    let scope := Store.empty.addRoot.1
    let s := Store.empty.addRoot.2
    let least := binary .subtract (minus (literal 9223372036854775807 ⟨3, 22⟩) ⟨2, 22⟩)
      (literal 1 ⟨25, 26⟩) ⟨2, 26⟩
    let quotient := binary .divide least (minus (literal 1 ⟨31, 32⟩) ⟨30, 32⟩) ⟨2, 32⟩
    let e := binary .multiply quotient
      (binary .divide (literal 1 ⟨37, 38⟩) (literal 0 ⟨41, 42⟩) ⟨37, 42⟩) ⟨2, 42⟩
    (∀ part ∈ least.parts, ¬ part.AtFault) ∧
      (∃ v, expression call scope least.toExpr s = .ok (.integer v) s ∧
        Int64.toInt v = -9223372036854775808) ∧
      (∃ part ∈ e.parts, part.AtFault) ∧
      expression call scope e.toExpr s = .error ⟨.integerOverflow, ⟨2, 32⟩⟩ s := by
  intro call scope s least quotient e
  have hsound : ∀ part ∈ least.parts, ¬ part.AtFault := by decide +kernel
  have hfault : ∃ part ∈ e.parts, part.AtFault := by decide +kernel
  have hfirst : e.firstFault? = some ⟨.integerOverflow, ⟨2, 32⟩⟩ := by decide +kernel
  obtain ⟨v, hv, hvalue⟩ := (exact_or_first_fault call scope least s).1 hsound
  obtain ⟨before, part, after, hparts, hbefore, hpart, herror⟩ :=
    (exact_or_first_fault call scope e s).2 hfault
  have hnone : before.findSome? fault? = none :=
    List.findSome?_eq_none_iff.2 fun p hp => fault?_eq_none_iff.2 (hbefore p hp)
  rw [firstFault?, hparts, List.findSome?_append, hnone, List.findSome?_cons,
    fault?_of_atFault hpart] at hfirst
  have hvalueLeast : least.value = -9223372036854775808 := by decide +kernel
  refine ⟨hsound, ⟨v, hv, hvalue.trans hvalueLeast⟩, hfault, ?_⟩
  rw [herror]
  exact congrArg (EStateM.Result.error · s) (Option.some.inj hfirst)

end Evaluation

end Arithmetic

end Script
