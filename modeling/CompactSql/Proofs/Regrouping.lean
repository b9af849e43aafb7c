import CompactSql.Proofs.Recovery

/-!
# Regrouping

A text has no parentheses but those of calls, so it keeps the operands and the operators
of an expression in their order and not how they were grouped.  Reading it groups them
anew: arithmetic by the precedence of the operators, a condition from the left.
-/

namespace CompactSql

open Grammar (arithmetic_judges condition_judges)

/-- An operand, and behind it operators, each with the operand that follows it. -/
structure Sequence where
  first : Expr
  steps : List (BinaryOp × Expr)
  deriving DecidableEq, Repr

namespace Sequence

def join (front : Sequence) (op : BinaryOp) (back : Sequence) : Sequence :=
  ⟨front.first, front.steps ++ (op, back.first) :: back.steps⟩

def Each (operand : Expr → Prop) (row : Sequence) : Prop :=
  operand row.first ∧ ∀ step ∈ row.steps, operand step.2

theorem each_join {operand : Expr → Prop} {front back : Sequence} {op : BinaryOp} :
    (front.join op back).Each operand ↔ front.Each operand ∧ back.Each operand := by
  simp only [Each, join, List.forall_mem_append, List.forall_mem_cons, and_assoc]

def toSql (row : Sequence) : String :=
  row.first.toSql ++ String.join (row.steps.map fun step =>
    " " ++ step.1.text ++ " " ++ step.2.toSql)

private theorem toSql_join (front back : Sequence) (op : BinaryOp) :
    (front.join op back).toSql = front.toSql ++ " " ++ op.text ++ " " ++ back.toSql := by
  simp [toSql, join, String.append_assoc, String.join_append]

end Sequence

/-! ## Groupings -/

def BinaryOp.isArithmetic (op : BinaryOp) : Bool := op.isSum || op.isProduct

namespace Expr

variable {joins : BinaryOp → Bool} {operand : Expr → Prop} {expr left right : Expr}
  {op : BinaryOp}

/-- Operands that operators join in any way. -/
inductive Grouping (joins : BinaryOp → Bool) (operand : Expr → Prop) : Expr → Prop
  | operand {expr : Expr} : operand expr → Grouping joins operand expr
  | binary {op : BinaryOp} {left right : Expr} : joins op = true →
      Grouping joins operand left → Grouping joins operand right →
      Grouping joins operand (.binary op left right)

/-- The sequence that a tree groups; what the operators do not join is an operand. -/
def inOrder (joins : BinaryOp → Bool) : Expr → Sequence
  | binary op left right =>
      if joins op then (left.inOrder joins).join op (right.inOrder joins)
      else ⟨binary op left right, []⟩
  | expr => ⟨expr, []⟩

def Apart (joins : BinaryOp → Bool) (expr : Expr) : Prop :=
  ∀ op left right, expr = binary op left right → joins op = false

theorem apart_induction (joins : BinaryOp → Bool) {motive : Expr → Prop}
    (apart : ∀ expr, expr.Apart joins → motive expr)
    (binary : ∀ op left right, joins op = true → motive left → motive right →
      motive (.binary op left right)) (expr : Expr) : motive expr := by
  induction expr using inOrder.induct joins with
  | case1 op left right among ihLeft ihRight => exact binary op left right among ihLeft ihRight
  | case2 op left right outside =>
      refine apart _ ?_
      rintro _ _ _ ⟨⟩
      simpa using outside
  | case3 expr solid => exact apart expr fun op left right eq => (solid op left right eq).elim

theorem inOrder_of_apart (h : expr.Apart joins) : expr.inOrder joins = ⟨expr, []⟩ := by
  cases expr with
  | binary op left right => simp [inOrder, h op left right rfl]
  | literal | identifier | field | call | between => rfl

theorem inOrder_binary (h : joins op = true) :
    (binary op left right).inOrder joins =
      (left.inOrder joins).join op (right.inOrder joins) := by
  simp [inOrder, h]

theorem toSql_inOrder (joins : BinaryOp → Bool) (expr : Expr) :
    (expr.inOrder joins).toSql = expr.toSql := by
  induction expr using apart_induction joins with
  | apart expr apart => simp [inOrder_of_apart apart, Sequence.toSql]
  | binary op left right among ihLeft ihRight =>
      rw [inOrder_binary among, Sequence.toSql_join, ihLeft, ihRight, toSql]

private theorem joins_of_mem_steps (expr : Expr) :
    ∀ step ∈ (expr.inOrder joins).steps, joins step.1 = true := by
  induction expr using apart_induction joins with
  | apart expr apart => simp [inOrder_of_apart apart]
  | binary op left right among ihLeft ihRight =>
      rw [inOrder_binary among]
      exact List.forall_mem_append.mpr ⟨ihLeft, List.forall_mem_cons.mpr ⟨among, ihRight⟩⟩

theorem grouping_iff (apart : ∀ expr, operand expr → expr.Apart joins) (expr : Expr) :
    Grouping joins operand expr ↔ (expr.inOrder joins).Each operand := by
  constructor
  · intro h
    induction h with
    | operand member => simpa [inOrder_of_apart (apart _ member), Sequence.Each] using member
    | binary among _ _ ihLeft ihRight =>
        rw [inOrder_binary among]
        exact Sequence.each_join.mpr ⟨ihLeft, ihRight⟩
  · intro h
    induction expr using apart_induction joins with
    | apart expr apart => exact .operand (by simpa [inOrder_of_apart apart] using h.1)
    | binary op left right among ihLeft ihRight =>
        rw [inOrder_binary among, Sequence.each_join] at h
        exact .binary among (ihLeft h.1) (ihRight h.2)

end Expr

namespace Expr

variable {expr tree left right value : Expr} {op : BinaryOp}

def precedence? : Expr → Option Nat
  | binary op _ _ => some op.precedence
  | _ => none

/-- At every operator, what stands on its left binds at least as tightly and what stands
on its right more tightly. -/
def Canonical : Expr → Prop
  | binary op left right =>
      (∀ tightness ∈ left.precedence?, op.precedence ≤ tightness) ∧
        (∀ tightness ∈ right.precedence?, op.precedence < tightness) ∧
        left.Canonical ∧ right.Canonical
  | _ => True

abbrev Mixture (expr : Expr) : Prop :=
  Grouping BinaryOp.isArithmetic (fun value => value.isValue = true) expr

private theorem precedence?_of_isValue (h : expr.isValue = true) : expr.precedence? = none := by
  cases expr with
  | binary => cases h
  | literal | identifier | field | call | between => rfl

theorem canonical_of_isValue (h : expr.isValue = true) : expr.Canonical := by
  cases expr with
  | binary => cases h
  | literal | identifier | field | call | between => trivial

theorem apart_of_isValue {joins : BinaryOp → Bool} (h : expr.isValue = true) :
    expr.Apart joins := by
  rintro op left right rfl
  cases h

theorem mixture_iff : expr.Mixture ↔ (expr.inOrder BinaryOp.isArithmetic).Each fun value =>
    value.isValue = true :=
  grouping_iff (fun _ => apart_of_isValue) expr

theorem tiers_of_canonical (h : expr.Mixture) : expr.Canonical →
    expr.isArithmetic = true ∧
      ((∀ tightness ∈ expr.precedence?, 10 < tightness) → expr.isTerm = true) ∧
      ((∀ tightness ∈ expr.precedence?, 20 < tightness) → expr.isValue = true) := by
  induction h with
  | @operand expr value =>
      have term : expr.isTerm = true := isChain_of_operand value
      exact fun _ => ⟨isChain_of_operand term, fun _ => term, fun _ => value⟩
  | @binary op left right among _ _ ihLeft ihRight =>
      rintro ⟨looser, tighter, canonical, canonical'⟩
      obtain ⟨arithmetic, term, -⟩ := ihLeft canonical
      obtain ⟨-, term', value'⟩ := ihRight canonical'
      have level : (op.isSum = true ∧ op.precedence = 10) ∨
          (op.isProduct = true ∧ op.precedence = 20) := by
        cases op <;> first | exact .inl ⟨rfl, rfl⟩ | exact .inr ⟨rfl, rfl⟩ | cases among
      rcases level with ⟨sum, level⟩ | ⟨product, level⟩
      · rw [level] at looser tighter
        have chained : (binary op left right).isArithmetic = true := by
          simp [isArithmetic, isChain, sum, term' tighter,
            show isChain _ _ left = true from arithmetic]
        refine ⟨chained, fun h => ?_, fun h => ?_⟩
        · exact absurd (h _ rfl) (by simp [level])
        · exact absurd (h _ rfl) (by simp [level])
      · rw [level] at looser tighter
        have front := term fun tightness member => Nat.lt_of_lt_of_le (by decide) (looser _ member)
        have chained : (binary op left right).isTerm = true := by
          simp [isTerm, isChain, product, value' tighter, show isChain _ _ left = true from front]
        refine ⟨isChain_of_operand chained, fun _ => chained, fun h => ?_⟩
        exact absurd (h _ rfl) (by simp [level])

/-! ## The canonical grouping -/

/-- Puts an operator and an operand behind a tree, on its right below the operators that
bind less tightly. -/
def attach : Expr → BinaryOp → Expr → Expr
  | binary outer left right, op, value =>
      if outer.precedence < op.precedence then binary outer left (right.attach op value)
      else binary op (binary outer left right) value
  | tree, op, value => binary op tree value

private theorem attach_of_isValue (h : tree.isValue = true) (op : BinaryOp) (value : Expr) :
    tree.attach op value = binary op tree value := by
  cases tree with
  | binary => cases h
  | literal | identifier | field | call | between => rfl

private theorem precedence?_attach (tree : Expr) (op : BinaryOp) (value : Expr) :
    ∀ tightness ∈ (tree.attach op value).precedence?,
      tightness = op.precedence ∨ tightness ∈ tree.precedence? := by
  cases tree with
  | binary outer left right =>
      rw [attach]
      split
      · exact fun tightness member => .inr member
      · exact fun tightness member => .inl (Option.mem_some.mp member).symm
  | literal | identifier | field | call | between =>
      exact fun tightness member => .inl (Option.mem_some.mp member).symm

private theorem attach_canonical (single : value.isValue = true) (h : tree.Canonical) :
    (tree.attach op value).Canonical := by
  have last := precedence?_of_isValue single
  have inner := canonical_of_isValue single
  fun_induction attach tree op value with
  | case1 outer left right op value loose ih =>
      obtain ⟨looser, tighter, canonical, canonical'⟩ := h
      refine ⟨looser, ?_, canonical, ih single canonical' last inner⟩
      intro tightness member
      rcases precedence?_attach right op value tightness member with rfl | old
      · exact loose
      · exact tighter tightness old
  | case2 outer left right op value tight =>
      exact ⟨by simpa [precedence?] using tight, by simp [last], h, inner⟩
  | case3 tree op value solid =>
      have root : tree.precedence? = none := by
        cases tree with
        | binary => exact (solid _ _ _ rfl).elim
        | literal | identifier | field | call | between => rfl
      exact ⟨by simp [root], by simp [last], h, inner⟩

private theorem attach_inOrder (among : op.isArithmetic = true) (single : value.isValue = true)
    (h : tree.Mixture) :
    (tree.attach op value).inOrder BinaryOp.isArithmetic =
      (tree.inOrder BinaryOp.isArithmetic).join op ⟨value, []⟩ := by
  have last : value.inOrder BinaryOp.isArithmetic = ⟨value, []⟩ :=
    inOrder_of_apart (apart_of_isValue single)
  induction h with
  | operand member => rw [attach_of_isValue member, inOrder_binary among, last]
  | @binary outer left right among' _ _ _ ih =>
      rw [attach]
      split
      · rw [inOrder_binary among', ih, inOrder_binary among']
        simp [Sequence.join]
      · rw [inOrder_binary among, last]

end Expr

namespace Sequence

def build (put : Expr → BinaryOp → Expr → Expr) (row : Sequence) : Expr :=
  row.steps.foldl (fun tree step => put tree step.1 step.2) row.first

def canonical : Sequence → Expr := build Expr.attach

def leftNested : Sequence → Expr := build fun tree op operand => .binary op tree operand

variable {joins : BinaryOp → Bool} {operand kept : Expr → Prop}
  {put : Expr → BinaryOp → Expr → Expr}

/-- Adding one operand keeps a property of trees and adds to the sequence at its end. -/
def Adds (joins : BinaryOp → Bool) (operand kept : Expr → Prop)
    (put : Expr → BinaryOp → Expr → Expr) : Prop :=
  ∀ tree op expr, kept tree → joins op = true → operand expr →
    kept (put tree op expr) ∧
      (put tree op expr).inOrder joins = (tree.inOrder joins).join op ⟨expr, []⟩

private theorem Adds.foldl (adds : Adds joins operand kept put) {steps : List (BinaryOp × Expr)}
    (among : ∀ step ∈ steps, joins step.1 = true) (each : ∀ step ∈ steps, operand step.2)
    {tree : Expr} (h : kept tree) :
    kept (steps.foldl (fun tree step => put tree step.1 step.2) tree) ∧
      (steps.foldl (fun tree step => put tree step.1 step.2) tree).inOrder joins =
        ⟨(tree.inOrder joins).first, (tree.inOrder joins).steps ++ steps⟩ := by
  induction steps generalizing tree with
  | nil => exact ⟨h, by simp⟩
  | cons step steps ih =>
      rw [List.forall_mem_cons] at among each
      obtain ⟨more, row⟩ := adds tree step.1 step.2 h among.1 each.1
      obtain ⟨whole, inOrder⟩ := ih among.2 each.2 more
      refine ⟨whole, inOrder.trans ?_⟩
      simp [row, join]

theorem Adds.build (adds : Adds joins operand kept put)
    (apart : ∀ expr, operand expr → expr.Apart joins)
    (start : ∀ expr, operand expr → kept expr) {row : Sequence}
    (among : ∀ step ∈ row.steps, joins step.1 = true) (each : row.Each operand) :
    kept (row.build put) ∧ (row.build put).inOrder joins = row := by
  have whole := adds.foldl among each.2 (start row.first each.1)
  rwa [Expr.inOrder_of_apart (apart row.first each.1)] at whole

private theorem attach_adds : Adds BinaryOp.isArithmetic (fun value => value.isValue = true)
    (fun tree => tree.Mixture ∧ tree.Canonical) Expr.attach := by
  rintro tree op value ⟨mixture, canonical⟩ arithmetic single
  have row := Expr.attach_inOrder arithmetic single mixture
  refine ⟨⟨?_, Expr.attach_canonical single canonical⟩, row⟩
  rw [Expr.mixture_iff] at mixture ⊢
  rw [row, each_join]
  exact ⟨mixture, single, by simp⟩

theorem canonical_inOrder {row : Sequence}
    (among : ∀ step ∈ row.steps, step.1.isArithmetic = true)
    (values : row.Each fun value => value.isValue = true) :
    row.canonical.Canonical ∧ row.canonical.inOrder BinaryOp.isArithmetic = row := by
  have built := attach_adds.build (fun _ => Expr.apart_of_isValue)
    (fun _ value => ⟨.operand value, Expr.canonical_of_isValue value⟩) among values
  exact ⟨built.1.2, built.2⟩

end Sequence

/-! ## Conditions -/

namespace Expr

def Settled (expr : Expr) : Prop := expr.Mixture ∧ expr.Canonical

/-- A comparison or a range test of settled arithmetic. -/
inductive SettledPredicate : Expr → Prop
  | comparison {op : BinaryOp} {left right : Expr} : op.isComparison = true →
      left.Settled → right.Settled → SettledPredicate (.binary op left right)
  | between {subject lower upper : Expr} : subject.Settled → lower.Settled → upper.Settled →
      SettledPredicate (.between subject lower upper)

theorem Settled.isArithmetic {expr : Expr} (h : expr.Settled) : expr.isArithmetic = true :=
  (tiers_of_canonical h.1 h.2).1

theorem SettledPredicate.isPredicate {expr : Expr} (h : SettledPredicate expr) :
    expr.isPredicate = true := by
  cases h with
  | comparison among left right =>
      simp [Expr.isPredicate, among, left.isArithmetic, right.isArithmetic]
  | between subject lower upper =>
      simp [Expr.isPredicate, subject.isArithmetic, lower.isArithmetic, upper.isArithmetic]

theorem SettledPredicate.apart {expr : Expr} (h : SettledPredicate expr) :
    expr.Apart BinaryOp.isLogical := by
  rintro op left right rfl
  obtain ⟨among, -, -⟩ := h
  cases op <;> first | rfl | cases among

end Expr

private theorem Sequence.binary_adds : Adds BinaryOp.isLogical Expr.SettledPredicate
    (fun tree => tree.isCondition = true) fun tree op expr => .binary op tree expr := by
  intro tree op expr chained logical single
  constructor
  · have front : Expr.isChain BinaryOp.isLogical Expr.isPredicate tree = true := chained
    simp [Expr.isCondition, Expr.isChain, logical, front, single.isPredicate]
  · rw [Expr.inOrder_binary logical, Expr.inOrder_of_apart single.apart]

private theorem Sequence.leftNested_inOrder {row : Sequence}
    (among : ∀ step ∈ row.steps, step.1.isLogical = true) (each : row.Each Expr.SettledPredicate) :
    row.leftNested.isCondition = true ∧ row.leftNested.inOrder BinaryOp.isLogical = row :=
  binary_adds.build (fun _ => Expr.SettledPredicate.apart)
    (fun _ single => Expr.isChain_of_operand single.isPredicate) among each

private theorem toSql_of_inOrder {joins : BinaryOp → Bool} {expr other : Expr}
    (same : other.inOrder joins = expr.inOrder joins) : other.toSql = expr.toSql := by
  rw [← expr.toSql_inOrder joins, ← same, other.toSql_inOrder]

theorem parseExpression_toSql_settled {expr : Expr} (h : expr.Settled) :
    parseExpression expr.toSql = .ok expr :=
  readText_of_legible arithmetic_judges expr.spells (expr.legible_arithmetic h.isArithmetic)

/-- The text of arithmetic in any grouping is read as the canonical grouping of the same
operands and operators, which is the only canonical one; and the text of predicates that
`AND` and `OR` join in any grouping is read as the tree that is nested to the left. -/
theorem reading_regroups :
    (∀ expr : Expr, expr.Mixture → ∃ regrouped,
      parseExpression expr.toSql = .ok regrouped ∧
        regrouped.inOrder BinaryOp.isArithmetic = expr.inOrder BinaryOp.isArithmetic ∧
        regrouped.toSql = expr.toSql ∧ regrouped.Canonical ∧
        ∀ other : Expr,
          other.inOrder BinaryOp.isArithmetic = expr.inOrder BinaryOp.isArithmetic →
          other.Canonical → other = regrouped) ∧
    ∀ expr : Expr, expr.Grouping BinaryOp.isLogical Expr.SettledPredicate →
      parseCondition expr.toSql = .ok (expr.inOrder BinaryOp.isLogical).leftNested ∧
        (expr.inOrder BinaryOp.isLogical).leftNested.inOrder BinaryOp.isLogical =
          expr.inOrder BinaryOp.isLogical := by
  constructor
  · intro expr mixture
    have values := Expr.mixture_iff.mp mixture
    -- Whatever canonical tree groups the sequence, the one text is read as that tree.
    have read (other : Expr)
        (same : other.inOrder BinaryOp.isArithmetic = expr.inOrder BinaryOp.isArithmetic)
        (canonical : other.Canonical) : parseExpression expr.toSql = .ok other := by
      rw [← toSql_of_inOrder same]
      exact parseExpression_toSql_settled ⟨Expr.mixture_iff.mpr (same ▸ values), canonical⟩
    obtain ⟨canonical, same⟩ :=
      Sequence.canonical_inOrder (Expr.joins_of_mem_steps expr) values
    refine ⟨_, read _ same canonical, same, toSql_of_inOrder same, canonical, ?_⟩
    intro other same' canonical'
    have twice := (read other same' canonical').symm.trans (read _ same canonical)
    exact Except.ok.inj twice
  · intro expr grouping
    rw [Expr.grouping_iff fun _ => Expr.SettledPredicate.apart] at grouping
    obtain ⟨condition, same⟩ :=
      Sequence.leftNested_inOrder (Expr.joins_of_mem_steps expr) grouping
    refine ⟨?_, same⟩
    rw [← toSql_of_inOrder same]
    exact readText_of_legible condition_judges (Expr.spells _)
      (Expr.legible_condition _ condition)

def mixedProduct : Expr :=
  .binary .mul (.binary .add (.identifier "a") (.field "t" "b"))
    (.binary .sub (.literal (.string "it's")) (.call "f" [.literal (.integer 1)]))

def rightNested : Expr :=
  .binary .and
    (.between (.identifier "a") (.literal (.integer 1)) (.literal (.integer 2)))
    (.binary .or (.binary .lt (.identifier "a") (.identifier "b"))
      (.binary .eq (.identifier "c") (.literal (.string ""))))

private theorem mixedProduct_mixture : mixedProduct.Mixture :=
  .binary rfl (.binary rfl (.operand (by decide)) (.operand (by decide)))
    (.binary rfl (.operand (by decide)) (.operand (by decide)))

private theorem rightNested_grouping :
    rightNested.Grouping BinaryOp.isLogical Expr.SettledPredicate := by
  have settled (value : Expr) (single : value.isValue = true) : value.Settled :=
    ⟨.operand single, Expr.canonical_of_isValue single⟩
  exact .binary rfl
    (.operand (.between (settled _ (by decide)) (settled _ (by decide)) (settled _ (by decide))))
    (.binary rfl
      (.operand (.comparison rfl (settled _ (by decide)) (settled _ (by decide))))
      (.operand (.comparison rfl (settled _ (by decide)) (settled _ (by decide)))))

theorem reading_regroups_nested :
    (mixedProduct.Mixture ∧ ∃ regrouped,
      parseExpression mixedProduct.toSql = .ok regrouped ∧
        regrouped.inOrder BinaryOp.isArithmetic = mixedProduct.inOrder BinaryOp.isArithmetic ∧
        regrouped.toSql = mixedProduct.toSql ∧ regrouped.Canonical ∧
        ∀ other : Expr,
          other.inOrder BinaryOp.isArithmetic = mixedProduct.inOrder BinaryOp.isArithmetic →
          other.Canonical → other = regrouped) ∧
    rightNested.Grouping BinaryOp.isLogical Expr.SettledPredicate ∧
      parseCondition rightNested.toSql =
          .ok (rightNested.inOrder BinaryOp.isLogical).leftNested ∧
        (rightNested.inOrder BinaryOp.isLogical).leftNested.inOrder BinaryOp.isLogical =
          rightNested.inOrder BinaryOp.isLogical :=
  ⟨⟨mixedProduct_mixture, reading_regroups.1 mixedProduct mixedProduct_mixture⟩,
    rightNested_grouping, reading_regroups.2 rightNested rightNested_grouping⟩

end CompactSql
