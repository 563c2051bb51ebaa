import Stencil.Scope

/-!
# Laws of comparison

Two values are compared as numbers or as texts. Which of the two it is does not depend on the
operator or on the side on which a value stands, and neither does how they compare: so the six
operators ask for parts of one outcome, which is turned around when the sides are exchanged.

## Main definitions

* `Number.order?` - how two doubles compare
* `Outcome`, `Value.outcome` - how two values compare
* `Operator.accepts` - the outcomes for which an operator holds
* `Operator.mirror` - the operator that asks for the same with the sides exchanged

Main statements: `Number.order?_swap`, `Operator.holds_eq_accepts`, `Scope.holds_laws`.
-/

namespace Stencil

/-! ### The order of doubles -/

namespace Number

open Float.Model (UnpackedFloat)

/-- How two doubles compare. What is no number compares with nothing. -/
def order? (a b : Float) : Option Ordering :=
  a.toModel.unpack.compare b.toModel.unpack

/-- Numbers of one sign are compared by their exponents, and then by their significands. -/
theorem compare_then_swap (e e' : Int) (m m' : Nat) :
    (compare e' e).then (compare m' m) = ((compare e e').then (compare m m')).swap := by
  rw [Ordering.swap_then, ← Std.OrientedCmp.eq_swap, ← Std.OrientedCmp.eq_swap]

theorem compare_swap (x y : UnpackedFloat) : y.compare x = (x.compare y).map Ordering.swap := by
  cases x with
  | notANumber => cases y <;> rfl
  | infinity sign =>
    cases y with
    | notANumber => cases sign <;> rfl
    | infinity sign' => cases sign <;> cases sign' <;> rfl
    | zero sign' => cases sign <;> rfl
    | finite sign' m' e' h' => cases sign <;> rfl
  | zero sign =>
    cases y with
    | notANumber => rfl
    | infinity sign' => cases sign' <;> rfl
    | zero sign' => rfl
    | finite sign' m' e' h' => cases sign' <;> rfl
  | finite sign m e h =>
    cases y with
    | notANumber => cases sign <;> rfl
    | infinity sign' => cases sign' <;> rfl
    | zero sign' => cases sign <;> rfl
    | finite sign' m' e' h' =>
      cases sign <;> cases sign'
      · exact congrArg (fun o => some (Ordering.swap o)) (compare_then_swap e e' m m')
      · rfl
      · rfl
      · exact congrArg some (compare_then_swap e e' m m')

theorem order?_swap (a b : Float) : order? b a = (order? a b).map Ordering.swap :=
  compare_swap _ _

theorem beq_eq_order? (a b : Float) : (a == b) = (order? a b == some .eq) := rfl

theorem decide_lt_eq_order? (a b : Float) : decide (a < b) = (order? a b == some .lt) := by
  rw [Bool.eq_iff_iff, decide_eq_true_iff]
  exact decide_eq_true_iff

theorem decide_le_eq_order? (a b : Float) : decide (a ≤ b) = (order? a b).any Ordering.isLE := by
  rw [Bool.eq_iff_iff, decide_eq_true_iff]
  exact decide_eq_true_iff

end Number

/-! ### Outcomes -/

/-- How two values compare: as numbers, or else by their texts, which are the same or not. -/
inductive Outcome where
  | numbers (order : Option Ordering)
  | texts (same : Bool)

/-- The outcome with the sides exchanged. -/
def Outcome.swap : Outcome → Outcome
  | .numbers order => .numbers (order.map Ordering.swap)
  | .texts same => .texts same

/-- How a value compares with another one. -/
def Value.outcome (left right : Value) : Outcome :=
  match left.number?, right.number? with
  | some a, some b => .numbers (Number.order? a b)
  | _, _ => .texts (left.text == right.text)

namespace Operator

/-- Whether an operator holds for an outcome. Texts have no order. -/
def accepts : Operator → Outcome → Bool
  | .eq, .numbers order => order == some .eq
  | .ne, .numbers order => order != some .eq
  | .lt, .numbers order => order == some .lt
  | .gt, .numbers order => order == some .gt
  | .le, .numbers order => order.any Ordering.isLE
  | .ge, .numbers order => order.any Ordering.isGE
  | .eq, .texts same => same
  | .ne, .texts same => !same
  | _, .texts _ => false

/-- The operator that says the same of the exchanged sides. -/
def mirror : Operator → Operator
  | .eq => .eq
  | .ne => .ne
  | .lt => .gt
  | .gt => .lt
  | .le => .ge
  | .ge => .le

theorem accepts_swap (op : Operator) (outcome : Outcome) :
    op.mirror.accepts outcome.swap = op.accepts outcome := by
  cases outcome with
  | texts same => cases op <;> rfl
  | numbers order =>
    cases order with
    | none => cases op <;> rfl
    | some o => cases op <;> cases o <;> rfl

theorem accepts_ne (outcome : Outcome) : accepts .ne outcome = !accepts .eq outcome := by
  cases outcome <;> rfl

/-- No outcome is accepted by two of less, equal and greater. -/
theorem countP_accepts_le_one (outcome : Outcome) :
    ([Operator.lt, .eq, .gt].countP fun op => op.accepts outcome) ≤ 1 := by
  cases outcome with
  | texts same => cases same <;> decide
  | numbers order =>
    cases order with
    | none => decide
    | some o => cases o <;> decide

theorem accepts_lt_or_eq_of_accepts_le {outcome : Outcome} (h : accepts .le outcome) :
    accepts .lt outcome ∨ accepts .eq outcome := by
  cases outcome with
  | texts same => cases h
  | numbers order =>
    cases order with
    | none => cases h
    | some o =>
      cases o with
      | lt => exact .inl rfl
      | eq => exact .inr rfl
      | gt => cases h

/-- Texts have no order. -/
theorem accepts_texts (same : Bool) :
    ∀ op ∈ [Operator.lt, .gt, .le, .ge], op.accepts (.texts same) = false := by
  simp [accepts]

theorem accepts_order (op : Operator) (a b : Float) :
    op.accepts (.numbers (Number.order? a b)) =
      match op with
      | .eq => a == b
      | .ne => a != b
      | .lt => decide (a < b)
      | .gt => decide (b < a)
      | .le => decide (a ≤ b)
      | .ge => decide (b ≤ a) := by
  have hswap (op : Operator) : op.mirror.accepts (.numbers (Number.order? b a)) =
      op.accepts (.numbers (Number.order? a b)) := by
    rw [Number.order?_swap]
    exact accepts_swap op (.numbers (Number.order? a b))
  cases op with
  | eq => exact (Number.beq_eq_order? a b).symm
  | ne => exact congrArg (!·) (Number.beq_eq_order? a b).symm
  | lt => exact (Number.decide_lt_eq_order? a b).symm
  | gt => exact (hswap .gt).symm.trans (Number.decide_lt_eq_order? b a).symm
  | le => exact (Number.decide_le_eq_order? a b).symm
  | ge => exact (hswap .ge).symm.trans (Number.decide_le_eq_order? b a).symm

/-- Whether an operator holds between two values depends on their outcome alone. -/
theorem holds_eq_accepts (op : Operator) (left right : Value) :
    op.holds left right = op.accepts (left.outcome right) := by
  unfold holds Value.outcome
  cases left.number? with
  | none => cases op <;> rfl
  | some a =>
    cases right.number? with
    | none => cases op <;> rfl
    | some b =>
      refine Eq.trans ?_ (accepts_order op a b).symm
      cases op <;> rfl

end Operator

theorem Value.outcome_swap (left right : Value) :
    right.outcome left = (left.outcome right).swap := by
  unfold outcome
  cases left.number? with
  | none =>
    cases right.number? with
    | none => exact congrArg Outcome.texts (BEq.comm)
    | some b => exact congrArg Outcome.texts (BEq.comm)
  | some a =>
    cases right.number? with
    | none => exact congrArg Outcome.texts (BEq.comm)
    | some b => exact congrArg Outcome.numbers (Number.order?_swap a b)

/-- Without a numeric view on one side the texts are compared. -/
theorem Value.outcome_of_number?_eq_none {left right : Value}
    (h : left.number? = none ∨ right.number? = none) :
    left.outcome right = .texts (left.text == right.text) := by
  unfold outcome
  rcases h with h | h
  · rw [h]
  · rw [h]
    cases left.number? <;> rfl

namespace Scope

theorem holds_eq_accepts (s : Scope) (op : Operator) (l r : Operand) :
    s.holds ⟨l, op, r⟩ = op.accepts ((s.operandValue l).outcome (s.operandValue r)) :=
  op.holds_eq_accepts _ _

/-- **Laws of comparison.** Between any two operands, in any scope: unequal is the negation of
equal; an operator says the same as its mirror with the sides exchanged; at most one of less, equal
and greater holds; what is less or equal is less or equal to it; and if one side has no numeric
view, none of the four operators of order holds. -/
theorem holds_laws (s : Scope) (l r : Operand) :
    s.holds ⟨l, .ne, r⟩ = !s.holds ⟨l, .eq, r⟩ ∧
    (∀ op : Operator, s.holds ⟨r, op.mirror, l⟩ = s.holds ⟨l, op, r⟩) ∧
    ([Operator.lt, .eq, .gt].countP fun op => s.holds ⟨l, op, r⟩) ≤ 1 ∧
    (s.holds ⟨l, .le, r⟩ → s.holds ⟨l, .lt, r⟩ ∨ s.holds ⟨l, .eq, r⟩) ∧
    ((s.operandValue l).number? = none ∨ (s.operandValue r).number? = none →
      ∀ op ∈ [Operator.lt, .gt, .le, .ge], s.holds ⟨l, op, r⟩ = false) := by
  simp only [holds_eq_accepts]
  refine ⟨Operator.accepts_ne _, fun op => ?_, Operator.countP_accepts_le_one _,
    Operator.accepts_lt_or_eq_of_accepts_le, fun hnone => ?_⟩
  · rw [Value.outcome_swap, Operator.accepts_swap]
  · rw [Value.outcome_of_number?_eq_none hnone]
    exact Operator.accepts_texts _

/-- A whole number against a numeral that writes it, and against a list, which is not a number. -/
theorem holds_laws_numeral :
    let s := ofRoot (.map [("n", .int 10), ("items", .list [.int 10])]) true
    let n : Operand := .path ⟨"n", false, 0, ["n"], none⟩
    let items : Operand := .path ⟨"items[0:1]", false, 0, ["items"], some ⟨0, 1⟩⟩
    let numeral : Operand := .number "1e1"
    (s.holds ⟨n, .le, numeral⟩ = true ∧
      (s.holds ⟨n, .lt, numeral⟩ ∨ s.holds ⟨n, .eq, numeral⟩) ∧
        s.holds ⟨numeral, .ge, n⟩ = true) ∧
    (s.operandValue items).number? = none ∧ s.holds ⟨n, .eq, items⟩ = true ∧
      s.holds ⟨n, .le, items⟩ = false := by
  intro s n items numeral
  have hle : s.holds ⟨n, .le, numeral⟩ = true := by decide +kernel
  have hitems : (s.operandValue items).number? = none := rfl
  obtain ⟨-, hmirror, -, hsplit, -⟩ := holds_laws s n numeral
  obtain ⟨-, -, -, -, hunordered⟩ := holds_laws s n items
  refine ⟨⟨hle, hsplit hle, ?_⟩, hitems, by decide +kernel, ?_⟩
  · exact (hmirror .le).trans hle
  · exact hunordered (.inr hitems) .le (by decide)

end Scope

end Stencil
