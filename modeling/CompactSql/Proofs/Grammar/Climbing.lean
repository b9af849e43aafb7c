import CompactSql.Proofs.Grammar.Progress
import CompactSql.Proofs.Grammar.Repetition

/-!
# Climbing and tiers

Climbing the binding powers reads the same as one loop for each tier: an operator
that holds its right operand more tightly than its left one groups to the left,
and a loop that takes every operator is the loop of the tighter tier with the
loop of the looser one behind it.
-/

namespace CompactSql.Grammar

open Rule Grammar.Derivation

def grouped (first : Expr) (steps : List (BinaryOp × Expr)) : Expr :=
  steps.foldl (fun left (op, right) => .binary op left right) first

def tierStep (operand : Rule Expr) (op : BinaryOp) : Rule (BinaryOp × Expr) :=
  (op, ·) <$> operand

def tierFrom (operator : Token.Kind → Option BinaryOp) (operand : Rule Expr)
    (left : Expr) : Rule Expr :=
  grouped left <$> repeated operator (tierStep operand)

def tier (operator : Token.Kind → Option BinaryOp) (operand : Rule Expr) : Rule Expr :=
  operand >>= tierFrom operator operand

section Loop

variable {σ : Type} {next : Token.Kind → Option σ} {operand : σ → Rule Expr}
  {join : σ → Expr → Expr → Expr}

def turn (next : Token.Kind → Option σ) (operand : σ → Rule Expr)
    (join : σ → Expr → Expr → Expr) (loop : Expr → Rule Expr) (left : Expr) :
    Rule Expr := do
  match ← readIf next with
  | none => return left
  | some step =>
      let right ← operand step
      loop (join step left right)

theorem turn_of_none {loop : Expr → Rule Expr} {left : Expr} {tokens : List Token}
    (index : Nat) (h : next (nextKind tokens) = none) :
    turn next operand join loop left ⟨index, tokens⟩ =
      ⟨[], .ok (left, ⟨index, tokens⟩)⟩ :=
  readIf_bind_none index h

theorem turn_of_some {loop : Expr → Rule Expr} {left : Expr} {token : Token} {step : σ}
    (index : Nat) (rest : List Token) (inner : token.kind ≠ .eof)
    (h : next token.kind = some step) :
    turn next operand join loop left ⟨index, token :: rest⟩ =
      (operand step >>= fun right => loop (join step left right)) ⟨index + 1, rest⟩ :=
  readIf_bind_some index rest inner h

/-- Turns determine a loop, since each takes a token. -/
private theorem loop_unique (noEnd : next .eof = none)
    (hoperand : ∀ step, NoLonger (operand step)) {first second : Expr → Rule Expr}
    (hfirst : ∀ left, first left = turn next operand join first left)
    (hsecond : ∀ left, second left = turn next operand join second left) :
    first = second := by
  funext left cursor
  induction size : cursor.rest.length using Nat.strongRecOn
    generalizing left cursor with
  | ind bound ih =>
      obtain ⟨index, tokens⟩ := cursor
      rw [hfirst, hsecond]
      cases accepted : next (nextKind tokens) with
      | none =>
          rw [turn_of_none index accepted, turn_of_none index accepted]
      | some step =>
          obtain ⟨token, rest, rfl, inner, accepted⟩ :=
            next_of_accepted noEnd accepted
          rw [turn_of_some index rest inner accepted,
            turn_of_some index rest inner accepted]
          refine bind_congr_next fun trail right after run => ?_
          have shorter : after.rest.length < bound := by
            rw [← size]
            exact Nat.lt_succ_of_le (hoperand step run)
          exact ih after.rest.length shorter _ _ rfl

end Loop

/-! ## Turns of the climbing loop -/

/-- The operator that goes on, and how tightly it holds its right operand. -/
def held (power : Token.Kind → Option BindingPower) (minimum : Nat)
    (kind : Token.Kind) : Option (BinaryOp × Nat) :=
  match power kind, binaryOp kind with
  | some power, some op => if power.left < minimum then none else some (op, power.right)
  | _, _ => none

theorem held_eof (power : Token.Kind → Option BindingPower) (minimum : Nat) :
    held power minimum .eof = none := by
  cases hpower : power .eof <;> simp [held, hpower, binaryOp]

private theorem held_eq_some {power : Token.Kind → Option BindingPower} {minimum : Nat}
    {kind : Token.Kind} {op : BinaryOp} {holds : Nat}
    (h : held power minimum kind = some (op, holds)) :
    ∃ left, power kind = some ⟨left, holds⟩ ∧ binaryOp kind = some op ∧
      ¬ left < minimum := by
  unfold held at h
  split at h
  · next found op' hpower hop =>
      split at h
      · cases h
      · next enough =>
          cases h
          exact ⟨found.left, hpower, hop, enough⟩
  · cases h

section Climbing

variable {power : Token.Kind → Option BindingPower} {operand : Rule Expr}

theorem climbFrom_noLonger (hoperand : NoLonger operand) (minimum : Nat) (left : Expr) :
    NoLonger (climbFrom power operand minimum left) := by
  intro cursor trail value after run
  change climbAt power operand minimum left cursor = _ at run
  fun_induction climbAt power operand minimum left cursor
      generalizing trail value after with
  | case1 | case7 =>
      cases run
      exact Nat.le_refl _
  | case2 | case3 => cases run
  | case4 _ _ cursor held op _ _ _ _ first inside _ shorter _ right behind more _ ihRight ih =>
      obtain ⟨_, last, -⟩ := Outcome.behind_eq run
      have inner := ihRight more
      have outer := ih last
      omega
  | case5 _ _ cursor held op _ _ _ _ first inside _ shorter _ right behind more _ ih =>
      cases run
      exact Nat.le_of_lt (Nat.lt_of_le_of_lt (ih more) shorter)
  | case6 _ _ cursor held op _ _ _ _ first inside stopped _ =>
      cases run
      exact Nat.le_trans (hoperand stopped) (length_advance_le _)

private theorem climbAt_of_none {minimum : Nat} {left : Expr} {tokens : List Token} (index : Nat)
    (h : held power minimum (nextKind tokens) = none) :
    climbAt power operand minimum left ⟨index, tokens⟩ =
      ⟨[], .ok (left, ⟨index, tokens⟩)⟩ := by
  rw [climbAt, current_kind]
  cases hpower : power (nextKind tokens) with
  | none => rfl
  | some found =>
      cases hop : binaryOp (nextKind tokens) with
      | none => rfl
      | some op =>
          by_cases less : found.left < minimum
          · exact if_pos less
          · simp [held, hpower, hop, less] at h

/-- A turn of the loop reads an operator that goes on, its right operand by
climbing from the operator's hold, and then goes on itself. -/
theorem climbFrom_turn (hoperand : NoLonger operand) (minimum : Nat) (left : Expr) :
    climbFrom power operand minimum left =
      turn (held power minimum) (fun (_, holds) => climb power operand holds)
        (fun (op, _) => .binary op) (climbFrom power operand minimum) left := by
  funext ⟨index, tokens⟩
  cases accepted : held power minimum (nextKind tokens) with
  | none =>
      rw [turn_of_none index accepted]
      exact climbAt_of_none index accepted
  | some step =>
      obtain ⟨op, holds⟩ := step
      obtain ⟨token, rest, rfl, inner, accepted⟩ :=
        next_of_accepted (held_eof power minimum) accepted
      obtain ⟨found, hpower, hop, enough⟩ := held_eq_some accepted
      rw [turn_of_some index rest inner accepted]
      change climbAt power operand minimum left ⟨index, token :: rest⟩ =
        (climb power operand holds >>= fun right =>
          climbFrom power operand minimum (.binary op left right)) ⟨index + 1, rest⟩
      -- one step of the recursion: its guards hold since no operand gives tokens back
      rw [climbAt, current_kind, advance_cons index rest inner, climb]
      simp only [nextKind_cons, hpower, hop, if_neg enough, List.length_cons]
      rcases run_cases operand ⟨index + 1, rest⟩ with
        ⟨trail, failure, run⟩ | ⟨trail, first, inside, run⟩
      · simp only [run]
        rw [bind_of_error (bind_of_error run)]
      · have shorter := hoperand run
        simp only [run, dif_pos (Nat.lt_succ_of_le shorter)]
        have climbed : (operand >>= climbFrom power operand holds) ⟨index + 1, rest⟩ =
            (climbFrom power operand holds first inside).behind trail := bind_of_ok run
        rcases more : climbFrom power operand holds first inside with
          ⟨trail', failure | ⟨right, behind⟩⟩
        · rw [more, Outcome.behind_mk] at climbed
          rw [bind_of_error climbed]
          simp only [show climbAt power operand holds first inside = _ from more]
        · rw [more, Outcome.behind_mk] at climbed
          have outer := climbFrom_noLonger hoperand holds first more
          rw [bind_of_ok climbed]
          simp only [show climbAt power operand holds first inside = _ from more]
          exact dif_pos (Nat.lt_succ_of_le (Nat.le_trans outer shorter))

theorem climbFrom_of_none (hoperand : NoLonger operand) {minimum : Nat} {left : Expr}
    {tokens : List Token} (index : Nat) (h : held power minimum (nextKind tokens) = none) :
    climbFrom power operand minimum left ⟨index, tokens⟩ =
      ⟨[], .ok (left, ⟨index, tokens⟩)⟩ := by
  rw [climbFrom_turn hoperand, turn_of_none index h]

theorem climbFrom_of_some (hoperand : NoLonger operand) {minimum : Nat} {left : Expr}
    {token : Token} {op : BinaryOp} {holds : Nat} (index : Nat) (rest : List Token)
    (inner : token.kind ≠ .eof) (h : held power minimum token.kind = some (op, holds)) :
    climbFrom power operand minimum left ⟨index, token :: rest⟩ =
      (climb power operand holds >>= fun right =>
        climbFrom power operand minimum (.binary op left right)) ⟨index + 1, rest⟩ := by
  rw [climbFrom_turn hoperand, turn_of_some index rest inner h]

theorem climb_noLonger (hoperand : NoLonger operand) (minimum : Nat) :
    NoLonger (climb power operand minimum) :=
  hoperand.bind fun left => climbFrom_noLonger hoperand minimum left

private theorem climbFrom_stops (hoperand : NoLonger operand) {minimum : Nat} {left value : Expr}
    {cursor after : Cursor} {trail : List Event}
    (run : climbFrom power operand minimum left cursor = ⟨trail, .ok (value, after)⟩) :
    held power minimum (nextKind after.rest) = none := by
  induction size : cursor.rest.length using Nat.strongRecOn
    generalizing left cursor trail with
  | ind size ih =>
      obtain ⟨index, tokens⟩ := cursor
      cases accepted : held power minimum (nextKind tokens) with
      | none =>
          rw [climbFrom_of_none hoperand index accepted] at run
          cases run
          exact accepted
      | some step =>
          obtain ⟨token, rest, rfl, inner, accepted⟩ :=
            next_of_accepted (held_eof power minimum) accepted
          rw [climbFrom_of_some hoperand index rest inner accepted] at run
          obtain ⟨_, right, behind, _, climbed, more, -⟩ := bind_eq_ok run
          have shorter := climb_noLonger hoperand _ climbed
          refine ih behind.rest.length ?_ more rfl
          rw [← size]
          exact Nat.lt_succ_of_le shorter

end Climbing

private theorem tierFrom_turn {operator : Token.Kind → Option BinaryOp} {operand : Rule Expr}
    (noEnd : operator .eof = none) (hoperand : NoLonger operand) (left : Expr) :
    tierFrom operator operand left =
      turn operator (fun _ => operand) Expr.binary (tierFrom operator operand) left := by
  funext ⟨index, tokens⟩
  cases accepted : operator (nextKind tokens) with
  | none =>
      rw [turn_of_none index accepted]
      exact map_of_ok (grouped left) (repeated_of_none index accepted)
  | some op =>
      obtain ⟨token, rest, rfl, inner, accepted⟩ :=
        next_of_accepted noEnd accepted
      rw [turn_of_some index rest inner accepted]
      rcases run_cases operand ⟨index + 1, rest⟩ with
        ⟨trail, failure, run⟩ | ⟨trail, right, after, run⟩
      · have pair : tierStep operand op ⟨index + 1, rest⟩ = _ := map_of_error _ run
        rw [bind_of_error run]
        exact map_of_error (grouped left) (repeated_of_error inner accepted pair)
      · have pair : tierStep operand op ⟨index + 1, rest⟩ = _ := map_of_ok _ run
        have steps := repeated_of_ok inner accepted pair (hoperand run)
        rw [bind_of_ok run]
        rcases run_cases (repeated operator (tierStep operand)) after with
          ⟨trail', failure, more⟩ | ⟨trail', values, last, more⟩
        · rw [map_of_error _ more, Outcome.behind_mk] at steps
          rw [tierFrom, map_of_error _ steps, tierFrom, map_of_error _ more,
            Outcome.behind_mk]
        · rw [map_of_ok _ more, Outcome.behind_mk] at steps
          rw [tierFrom, map_of_ok _ steps, tierFrom, map_of_ok _ more,
            Outcome.behind_mk]
          rfl

/-! ## Climbing one tier -/

section Tiers

variable {power : Token.Kind → Option BindingPower} {operand : Rule Expr}

theorem climb_of_none (hoperand : NoLonger operand) {minimum : Nat}
    (stopped : ∀ kind, held power minimum kind = none) :
    climb power operand minimum = operand := by
  funext cursor
  rcases run_cases operand cursor with ⟨trail, failure, run⟩ | ⟨trail, first, ⟨index, rest⟩, run⟩
  · rw [climb, bind_of_error run, run]
  · rw [climb, bind_of_ok run, run, climbFrom_of_none hoperand index (stopped _),
      Outcome.behind_mk, List.append_nil]

/-- The operators that go on from `minimum` are those that go on from `higher` and
the looser ones, which hold their right operand at `higher`. -/
structure OneTier (power : Token.Kind → Option BindingPower) (minimum higher : Nat)
    (operator : Token.Kind → Option BinaryOp) : Prop where
  tight : ∀ {kind step}, held power higher kind = some step →
    held power minimum kind = some step
  loose : ∀ {kind}, held power higher kind = none →
    held power minimum kind = (operator kind).map (·, higher)
  noEnd : operator .eof = none

variable {minimum higher : Nat} {operator : Token.Kind → Option BinaryOp}

theorem OneTier.climbFrom_eq (h : OneTier power minimum higher operator)
    (hoperand : NoLonger operand) :
    climbFrom power operand minimum = fun left =>
      climbFrom power operand higher left >>= tierFrom operator (climb power operand higher) := by
  have inner : NoLonger (climb power operand higher) := climb_noLonger hoperand higher
  -- both sides take the same turns, and these determine a loop
  refine loop_unique (held_eof power minimum)
    (fun (_, holds) => climb_noLonger hoperand holds) (climbFrom_turn hoperand minimum) ?_
  intro left
  funext ⟨index, tokens⟩
  cases tight : held power higher (nextKind tokens) with
  | some step =>
      obtain ⟨token, rest, rfl, inside, accepted⟩ :=
        next_of_accepted (held_eof power higher) tight
      rw [turn_of_some index rest inside (h.tight accepted)]
      rw [bind_congr (climbFrom_of_some hoperand index rest inside accepted), bind_assoc]
  | none =>
      have same := h.loose tight
      rw [bind_of_ok (climbFrom_of_none hoperand index tight), Outcome.behind_nil,
        tierFrom_turn h.noEnd inner]
      cases accepted : operator (nextKind tokens) with
      | none =>
          rw [accepted] at same
          rw [turn_of_none index accepted, turn_of_none index same]
      | some op =>
          rw [accepted] at same
          obtain ⟨token, rest, rfl, inside, accepted⟩ :=
            next_of_accepted h.noEnd accepted
          rw [turn_of_some index rest inside accepted, turn_of_some index rest inside same]
          refine bind_congr_next fun trail right after run => ?_
          obtain ⟨index', rest'⟩ := after
          -- behind the right operand the tighter loop has nothing to read
          obtain ⟨_, first, _, _, _, climbed, -⟩ := bind_eq_ok run
          have stopped := climbFrom_stops hoperand climbed
          rw [bind_of_ok (climbFrom_of_none hoperand index' stopped), Outcome.behind_nil]

theorem OneTier.climb_eq (h : OneTier power minimum higher operator)
    (hoperand : NoLonger operand) :
    climb power operand minimum = tier operator (climb power operand higher) := by
  rw [climb, h.climbFrom_eq hoperand, tier, climb, bind_assoc]

end Tiers

private theorem sums_loosest : OneTier arithmeticPower 0 11 sumOp := by
  constructor
  · intro kind step
    cases kind <;> simp [held, arithmeticPower, binaryOp]
  · intro kind
    cases kind <;> simp [held, arithmeticPower, binaryOp, sumOp]
  · rfl

private theorem products_next : OneTier arithmeticPower 11 21 productOp := by
  constructor
  · intro kind step
    cases kind <;> simp [held, arithmeticPower, binaryOp]
  · intro kind
    cases kind <;> simp [held, arithmeticPower, binaryOp, productOp]
  · rfl

theorem arithmetic_eq_tiers (hvalue : NoLonger value) :
    arithmetic = tier sumOp (tier productOp value) := by
  have nothing : ∀ kind, held arithmeticPower 21 kind = none := by
    intro kind
    cases kind <;> simp [held, arithmeticPower, binaryOp]
  rw [arithmetic, sums_loosest.climb_eq hvalue, products_next.climb_eq hvalue,
    climb_of_none hvalue nothing]

private theorem logical_loosest : OneTier logicalPower 0 2 logicalOp := by
  constructor
  · intro kind step
    rcases kind with _ | _ | _ | word | _ <;> try cases word
    all_goals simp [held, logicalPower, binaryOp]
  · intro kind
    rcases kind with _ | _ | _ | word | _ <;> try cases word
    all_goals simp [held, logicalPower, binaryOp, logicalOp]
  · rfl

theorem logical_eq_tier {operand : Rule Expr} (h : NoLonger operand) :
    climb logicalPower operand 0 = tier logicalOp operand := by
  have nothing : ∀ kind, held logicalPower 2 kind = none := by
    intro kind
    rcases kind with _ | _ | _ | word | _ <;> try cases word
    all_goals simp [held, logicalPower, binaryOp]
  rw [logical_loosest.climb_eq h, climb_of_none h nothing]

theorem condition_eq_tier (hpredicate : NoLonger predicate) :
    condition = tier logicalOp predicate := logical_eq_tier hpredicate

end CompactSql.Grammar
