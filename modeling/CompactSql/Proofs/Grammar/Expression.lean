import CompactSql.Proofs.Grammar.Climbing
import CompactSql.Proofs.Grammar.Sequence

/-!
# Expressions are recognized

Values are recognized by induction on how much is left, since the arguments of a
call are values again; the tiers above them are chains of operands.
-/

namespace CompactSql.Grammar

open Rule Grammar.Derivation
open Recognizes (of_iff ifNext keywordThen nameThen symbolThen)

variable {bound : Nat}

theorem Derivation.Listed.mono {α : Type} {item item' : Language α}
    {row : List Token.Kind} {values : List α} (h : Listed item row values)
    (step : ∀ row' value, row'.length ≤ row.length → item row' value →
      item' row' value) : Listed item' row values := by
  induction h with
  | one member => exact .one (step _ _ (Nat.le_refl _) member)
  | more member _ ih =>
      refine .more (step _ _ (by simp) member) (ih ?_)
      intro row' value short
      exact step _ _ (Nat.le_trans short (by simp; omega))

private theorem Derivation.Listed.noEnd {α : Type} {item : Language α} {row : List Token.Kind}
    {values : List α} (h : Listed item row values)
    (each : ∀ row' value, item row' value → .eof ∉ row') : .eof ∉ row := by
  induction h with
  | one member => exact each _ _ member
  | more member _ ih => simp [each _ _ member, ih]

theorem value_induction
    {motive : (row : List Token.Kind) → (tree : Expr) → Value row tree → Prop}
    (field : ∀ table name, motive _ _ (.field table name))
    (emptyCall : ∀ name, motive _ _ (.emptyCall name))
    (call : ∀ name row args (listed : Listed Value row args),
      Listed (fun row tree => ∃ member, motive row tree member) row args →
      motive _ _ (.call name listed))
    (identifier : ∀ name, motive _ _ (.identifier name))
    (integer : ∀ value, motive _ _ (.integer value))
    (string : ∀ raw, motive _ _ (.string raw))
    {row : List Token.Kind} {tree : Expr} (h : Value row tree) : motive row tree h := by
  induction size : row.length using Nat.strongRecOn generalizing row tree with
  | ind size ih =>
      subst size
      cases h with
      | field table name => exact field table name
      | emptyCall name => exact emptyCall name
      | @call name inner args listed =>
          refine call name inner args listed (listed.mono ?_)
          intro row' value short member
          exact ⟨member, ih row'.length (by simp; omega) member rfl⟩
      | identifier name => exact identifier name
      | integer value => exact integer value
      | string raw => exact string raw

private theorem value_noEnd {row : List Token.Kind} {tree : Expr} (h : Value row tree) :
    .eof ∉ row := by
  induction h using value_induction with
  | call name row args listed inside =>
      have absent := inside.noEnd fun _ _ found => found.elim fun _ absent => absent
      simp [absent]
  | _ => simp

/-! ## Values -/

theorem qualifiedField_recognizes : Recognizes bound qualifiedField
    (fun row tree => ∃ table name, row = [.identifier table, .dot, .identifier name] ∧
      tree = .field table name) [] := by
  refine of_iff ?_ (nameThen (fun table => symbolThen (by decide)
    (nameThen (fun name => Recognizes.pure (Expr.field table name)) (Nat.le_succ bound))
    (Nat.le_succ bound)) (Nat.le_succ bound))
  intro row tree
  constructor
  · rintro ⟨table, _, rfl, _, rfl, name, _, rfl, rfl, rfl⟩
    exact ⟨table, name, rfl, rfl⟩
  · rintro ⟨table, name, rfl, rfl⟩
    exact ⟨table, _, rfl, _, rfl, name, _, rfl, rfl, rfl⟩

theorem plainField_recognizes : Recognizes bound plainField
    (fun row tree => ∃ name, row = [.identifier name] ∧ tree = .identifier name) [] := by
  refine of_iff ?_ (nameThen (fun name => Recognizes.pure (Expr.identifier name))
    (Nat.le_succ bound))
  intro row tree
  constructor
  · rintro ⟨name, _, rfl, rfl, rfl⟩
    exact ⟨name, rfl, rfl⟩
  · rintro ⟨name, rfl, rfl⟩
    exact ⟨name, _, rfl, rfl, rfl⟩

def valueExtending : List Token.Kind := [.dot, .leftParen]

theorem value_head {row : List Token.Kind} {tree : Expr} (h : Value row tree) :
    ∃ kind rest, row = kind :: rest ∧ Expectation.value.Admits kind := by
  cases h with
  | field table | emptyCall table | call table | identifier table =>
      exact ⟨_, _, rfl, .inl ⟨table, rfl⟩⟩
  | integer value => exact ⟨_, _, rfl, .inr (.inl ⟨value, rfl⟩)⟩
  | string raw => exact ⟨_, _, rfl, .inr (.inr ⟨raw, rfl⟩)⟩

theorem Derivation.Listed.head {α : Type} {item : Language α} {row : List Token.Kind}
    {values : List α} (h : Listed item row values) :
    ∃ first rest value, row = first ++ rest ∧ item first value := by
  cases h with
  | one member => exact ⟨_, [], _, by simp, member⟩
  | more member _ => exact ⟨_, _, _, rfl, member⟩

inductive CallRow : Language Expr
  | empty (name : String) :
      CallRow [.identifier name, .leftParen, .rightParen] (.call name [])
  | filled (name : String) {row : List Token.Kind} {args : List Expr} :
      Listed Value row args →
      CallRow (.identifier name :: .leftParen :: (row ++ [.rightParen]))
        (.call name args)

theorem call_recognizes (h : Recognizes bound value Value valueExtending) :
    Recognizes (bound + 1) (call value) CallRow [] := by
  have closing (name : String) (args : List Expr) : Recognizes bound
      (do symbol .rightParen; return Expr.call name args)
      ((Language.nothing (.call name args)).behind .rightParen) [] :=
    symbolThen (by decide) (Recognizes.pure _) (Nat.le_succ bound)
  have filled (name : String) := (h.commaList (by decide)).followedBy (closing name)
    fun args => Follows.behind (by decide) _
  have inside (name : String) : Recognizes bound (callRest value name)
      (Language.ifNext (ofKind .rightParen)
        (fun _ => Language.nothing (.call name []))
        ((Listed Value).andThen fun args =>
          (Language.nothing (.call name args)).behind .rightParen)) [] := by
    -- no argument begins with the closing parenthesis, so one token decides
    refine ifNext rfl (fun _ => Recognizes.pure _) (filled name) (Nat.le_succ bound) ?_
    rintro row tree last ⟨args, front, back, rfl, listed, -⟩ -
    obtain ⟨first, rest, value, rfl, member⟩ := listed.head
    obtain ⟨kind, others, rfl, starts⟩ := value_head member
    refine ofKind_eq_none.mpr ?_
    rintro rfl
    simp [Expectation.Admits] at starts
  have opened (name : String) := symbolThen (by decide : Token.Kind.leftParen ≠ .eof)
    (inside name) (Nat.le_succ bound)
  refine of_iff ?_ (nameThen opened (Nat.le_refl _))
  intro row tree
  constructor
  · rintro ⟨name, _, rfl, back, rfl, ⟨_, _, _, rfl, accepted, rfl, rfl⟩ |
      ⟨args, inner, _, rfl, listed, _, rfl, rfl, rfl⟩⟩
    · obtain rfl := ofKind_eq_some.mp accepted
      exact .empty name
    · exact .filled name listed
  · rintro (name | ⟨name, listed⟩)
    · exact ⟨name, _, rfl, _, rfl, .inl ⟨_, (), _, rfl, rfl, rfl, rfl⟩⟩
    · exact ⟨name, _, rfl, _, rfl, .inr ⟨_, _, _, rfl, listed, _, rfl, rfl, rfl⟩⟩

theorem nextKind_eq (tokens : List Token) :
    nextKind tokens = (kinds tokens).headD .eof := by
  cases tokens <;> rfl

private theorem integerOf_eq_some {kind : Token.Kind} {read : CompactSql.Literal} :
    integerOf kind = some read ↔ ∃ value, kind = .integer value ∧ read = .integer value := by
  cases kind <;> simp [integerOf, eq_comm]

private theorem stringOf_eq_some {kind : Token.Kind} {read : CompactSql.Literal} :
    stringOf kind = some read ↔ ∃ raw, kind = .string raw ∧ read = .ofRaw raw := by
  cases kind <;> simp [stringOf, eq_comm]

/-- A literal is a leaf: one token of a family, which the accepting function reads. -/
theorem leaf_recognizes {expected : Expectation}
    {accept : Token.Kind → Option CompactSql.Literal} {family : σ → Token.Kind}
    {literal : σ → CompactSql.Literal} (noEnd : accept .eof = none) (sample : σ)
    (announces : ∀ kind, expected.Admits kind ↔ ∃ payload, kind = family payload)
    (reads : ∀ kind leaf, accept kind = some leaf ↔
      ∃ payload, kind = family payload ∧ leaf = literal payload) :
    Recognizes bound (do return Expr.literal (← read expected accept))
      (fun row tree => ∃ payload, row = [family payload] ∧
        tree = .literal (literal payload)) [] := by
  have accepts (payload : σ) : accept (family payload) = some (literal payload) :=
    (reads _ _).mpr ⟨payload, rfl, rfl⟩
  have token : Recognizes bound (read expected accept) (Language.single accept) [] := by
    refine Recognizes.read noEnd ⟨_, (announces _).mpr ⟨sample, rfl⟩⟩ ?_
    intro kind admitted
    obtain ⟨payload, rfl⟩ := (announces kind).mp admitted
    exact Option.isSome_of_eq_some (accepts payload)
  refine of_iff ?_ (token.map Expr.literal)
  intro row tree
  constructor
  · rintro ⟨leaf, ⟨kind, rfl, accepted⟩, rfl⟩
    obtain ⟨payload, rfl, rfl⟩ := (reads kind leaf).mp accepted
    exact ⟨payload, rfl, rfl⟩
  · rintro ⟨payload, rfl, rfl⟩
    exact ⟨_, ⟨_, rfl, accepts payload⟩, rfl⟩

theorem integer_recognizes : Recognizes bound
    (do return Expr.literal (← read .integer integerOf))
    (fun row tree => ∃ value, row = [.integer value] ∧
      tree = .literal (.integer value)) [] :=
  leaf_recognizes rfl 0 (fun _ => .rfl) fun _ _ => integerOf_eq_some

theorem string_recognizes : Recognizes bound
    (do return Expr.literal (← read .string stringOf))
    (fun row tree => ∃ raw, row = [.string raw] ∧ tree = .literal (.ofRaw raw)) [] :=
  leaf_recognizes rfl "" (fun _ => .rfl) fun _ _ => stringOf_eq_some

theorem qualifiedField_fails {index : Nat} {tokens : List Token}
    (none : ∀ name rest, kinds tokens ≠ .identifier name :: .dot :: rest) :
    Fails qualifiedField ⟨index, tokens⟩ := by
  refine qualifiedField_recognizes.fails (Nat.lt_succ_self _) ?_
  rintro _ rest _ split ⟨table, name, rfl, -⟩
  exact none _ _ split

private theorem call_fails (h : Recognizes bound value Value valueExtending) {index : Nat}
    {tokens : List Token} (short : tokens.length < bound + 1)
    (none : ∀ name rest, kinds tokens ≠ .identifier name :: .leftParen :: rest) :
    Fails (call value) ⟨index, tokens⟩ := by
  refine (call_recognizes h).fails short ?_
  rintro _ rest _ split (name | ⟨name, listed⟩)
  · exact none _ _ split
  · exact none _ _ split

private theorem plainField_fails {index : Nat} {tokens : List Token}
    (none : ∀ name rest, kinds tokens ≠ .identifier name :: rest) :
    Fails plainField ⟨index, tokens⟩ := by
  refine plainField_recognizes.fails (Nat.lt_succ_self _) ?_
  rintro _ rest _ split ⟨name, rfl, -⟩
  exact none _ _ split

private theorem value_chosen (h : Recognizes bound value Value valueExtending) (index : Nat)
    (front back : List Token) {tree : Expr} (short : (front ++ back).length < bound + 1)
    (member : Value (kinds front) tree) (closed : nextKind back ∉ valueExtending) :
    Chosen .value (valueAlternatives value) ⟨index, front ++ back⟩
      (tree, ⟨index + front.length, back⟩) := by
  generalize hrow : kinds front = row at member
  -- the alternatives before the one that is taken fail at the first or second token
  cases member with
  | field table name =>
      refine .take (qualifiedField_recognizes.complete index front back short ?_
        List.not_mem_nil)
      exact ⟨table, name, hrow, rfl⟩
  | emptyCall name =>
      refine .skip (qualifiedField_fails (by simp [hrow])) (.take ?_)
      exact (call_recognizes h).complete index front back short
        (hrow ▸ .empty name) List.not_mem_nil
  | call name listed =>
      refine .skip (qualifiedField_fails (by simp [hrow])) (.take ?_)
      exact (call_recognizes h).complete index front back short
        (hrow ▸ .filled name listed) List.not_mem_nil
  | identifier name =>
      rw [nextKind_eq, valueExtending] at closed
      refine .skip (qualifiedField_fails ?_) (.skip (call_fails h short ?_) (.take ?_))
      · intro other rest split
        simp_all
      · intro other rest split
        simp_all
      · exact plainField_recognizes.complete index front back short ⟨name, hrow, rfl⟩
          List.not_mem_nil
  | integer value =>
      refine .skip (qualifiedField_fails (by simp [hrow])) (.skip
        (call_fails h short (by simp [hrow])) (.skip (plainField_fails (by simp [hrow]))
          (.take ?_)))
      exact integer_recognizes.complete index front back short ⟨value, hrow, rfl⟩
        List.not_mem_nil
  | string raw =>
      refine .skip (qualifiedField_fails (by simp [hrow])) (.skip
        (call_fails h short (by simp [hrow])) (.skip (plainField_fails (by simp [hrow]))
          (.skip ?_ (.take ?_))))
      · refine integer_recognizes.fails short ?_
        rintro _ rest _ split ⟨value, rfl, -⟩
        simp [hrow] at split
      · exact string_recognizes.complete index front back short ⟨raw, hrow, rfl⟩
          List.not_mem_nil

private theorem valueAlternatives_recognize (h : Recognizes bound value Value valueExtending) :
    ∀ alternative ∈ valueAlternatives value, ∃ part extending,
      Recognizes (bound + 1) alternative.2 part extending ∧
        ∀ row tree, part row tree → Value row tree := by
  simp only [valueAlternatives, List.mem_cons, List.not_mem_nil, or_false,
    forall_eq_or_imp, forall_eq]
  refine ⟨⟨_, _, qualifiedField_recognizes, ?_⟩, ⟨_, _, call_recognizes h, ?_⟩,
    ⟨_, _, plainField_recognizes, ?_⟩, ⟨_, _, integer_recognizes, ?_⟩,
    ⟨_, _, string_recognizes, ?_⟩⟩
  · rintro _ _ ⟨table, name, rfl, rfl⟩
    exact .field table name
  · rintro _ _ (name | ⟨name, listed⟩)
    · exact .emptyCall name
    · exact .call name listed
  · rintro _ _ ⟨name, rfl, rfl⟩
    exact .identifier name
  · rintro _ _ ⟨value, rfl, rfl⟩
    exact .integer value
  · rintro _ _ ⟨raw, rfl, rfl⟩
    exact .string raw

theorem value_recognizes (bound : Nat) :
    Recognizes bound value Value valueExtending := by
  induction bound with
  | zero => exact .zero ⟨_, _, .identifier ""⟩ fun _ _ => value_noEnd
  | succ bound ih =>
      have choice : Recognizes (bound + 1)
          (firstOf .value (valueAlternatives value)) Value valueExtending := by
        refine .firstOf (List.cons_ne_nil _ _) (valueAlternatives_recognize ih)
          (fun _ _ => value_noEnd) ⟨.identifier "", .inl ⟨"", rfl⟩⟩ ?_
          (fun index front back _ => value_chosen ih index front back)
        rintro _ (⟨name, rfl⟩ | ⟨value, rfl⟩ | ⟨raw, rfl⟩)
        · exact ⟨[], _, .identifier name⟩
        · exact ⟨[], _, .integer value⟩
        · exact ⟨[], _, .string raw⟩
      rwa [← value_eq] at choice

/-! ## Tiers -/

section Tiers

variable {operator : Token.Kind → Option BinaryOp} {operand : Rule Expr}
  {language : Language Expr} {extending extending' : List Token.Kind}

def rightOperand (language : Language Expr) (op : BinaryOp) : Language (BinaryOp × Expr) :=
  fun row step => ∃ right, language row right ∧ step = (op, right)

private theorem chain_grouped {row rows : List Token.Kind} {left : Expr}
    {steps : List (BinaryOp × Expr)} (h : Chain operator language row left)
    (more : Language.Repeated operator (rightOperand language) rows steps) :
    Chain operator language (row ++ rows) (grouped left steps) := by
  induction more generalizing row left with
  | nil => simpa [grouped] using h
  | cons accepted operand _ ih =>
      obtain ⟨right, member, rfl⟩ := operand
      simpa [grouped] using ih (.step h accepted member)

private theorem repeated_snoc {α β : Type} {lead : Token.Kind → Option β} {items : β → Language α}
    {rows row : List Token.Kind} {values : List α} {kind : Token.Kind} {led : β} {value : α}
    (h : Language.Repeated lead items rows values) (accepted : lead kind = some led)
    (member : items led row value) :
    Language.Repeated lead items (rows ++ kind :: row) (values ++ [value]) := by
  induction h with
  | nil => simpa using Language.Repeated.cons accepted member .nil
  | cons accepted' member' _ ih =>
      simpa using Language.Repeated.cons accepted' member' ih

theorem chain_iff (row : List Token.Kind) (tree : Expr) :
    language.andThen (fun left row tree =>
        ∃ steps, Language.Repeated operator (rightOperand language) row steps ∧
          tree = grouped left steps) row tree ↔
      Chain operator language row tree := by
  constructor
  · rintro ⟨left, front, back, rfl, member, steps, more, rfl⟩
    exact chain_grouped (.operand member) more
  · intro chain
    induction chain with
    | operand member => exact ⟨_, _, [], by simp, member, [], .nil, rfl⟩
    | step _ accepted member ih =>
        obtain ⟨left, front, back, rfl, first, steps, more, rfl⟩ := ih
        refine ⟨left, front, _, by simp, first, _,
          repeated_snoc more accepted ⟨_, member, rfl⟩, ?_⟩
        simp [grouped]

theorem tier_recognizes (h : Recognizes bound operand language extending)
    (noEnd : operator .eof = none) (sub : extending ⊆ extending')
    (apart : ∀ kind ∈ extending, operator kind = none)
    (leads : ∀ kind, kind ∉ extending' → operator kind = none) :
    Recognizes bound (tier operator operand) (Chain operator language) extending' := by
  have step (op : BinaryOp) : Recognizes bound (tierStep operand op)
      (rightOperand language op) extending := h.map (op, ·)
  have steps : Recognizes bound (repeated operator (tierStep operand))
      (Language.Repeated operator (rightOperand language)) extending' :=
    .repeated noEnd step sub apart leads
  refine of_iff chain_iff (h.followedBy (fun left => steps.map (grouped left)) ?_)
  rintro left row _ last ⟨others, member, rfl⟩ closed
  cases member with
  | nil => exact fun extended => closed (sub extended)
  | cons accepted _ _ =>
      intro extended
      have refused := apart _ extended
      simp [accepted] at refused

end Tiers

def termExtending : List Token.Kind := .star :: .slash :: valueExtending

def arithmeticExtending : List Token.Kind := .plus :: .minus :: termExtending

theorem arithmetic_recognizes (bound : Nat) :
    Recognizes bound arithmetic Arithmetic arithmeticExtending := by
  rw [arithmetic_eq_tiers value_noLonger]
  have term : Recognizes bound (tier productOp value) Term termExtending := by
    refine tier_recognizes (value_recognizes bound) rfl (by decide) (by decide) ?_
    intro kind closed
    cases kind <;> first | rfl | exact absurd (by decide) closed
  refine tier_recognizes term rfl (by decide) (by decide) ?_
  intro kind closed
  cases kind <;> first | rfl | exact absurd (by decide) closed

/-! ## Predicates -/

private theorem comparisonOp_eq (kind : Token.Kind) : comparisonOp kind = comparisonSign kind := by
  cases kind with
  | keyword word => cases word <;> rfl
  | _ => rfl

def comparisonStart (kind : Token.Kind) : Option (Option BinaryOp) :=
  match comparisonOp kind with
  | some op => some (some op)
  | none => (ofKeyword .BETWEEN kind).map fun _ => none

def predicateRest (subject : Expr) : Option BinaryOp → Rule Expr
  | some op => do return .binary op subject (← arithmetic)
  | none => do
      let lower ← arithmetic
      keyword .AND
      let upper ← arithmetic
      return .between subject lower upper

theorem predicate_eq : predicate = (do
    let subject ← arithmetic
    predicateRest subject (← read .comparison comparisonStart)) := by
  funext cursor
  refine bind_congr_next fun trail subject after _ => ?_
  obtain ⟨index, tokens⟩ := after
  -- the token behind the subject is a sign, `BETWEEN`, or refused by both
  cases sign : comparisonOp (nextKind tokens) with
  | some op =>
      obtain ⟨token, rest, rfl, inner, sign⟩ := next_of_accepted rfl sign
      have start : comparisonStart token.kind = some (some op) := by
        simp [comparisonStart, sign]
      rw [readIf_bind_some index rest inner sign,
        bind_of_ok (read_of_some index rest inner start)]
      rfl
  | none =>
      rw [readIf_bind_none index sign]
      cases range : ofKeyword .BETWEEN (nextKind tokens) with
      | some _ =>
          obtain ⟨token, rest, rfl, inner, range⟩ := next_of_accepted rfl range
          have start : comparisonStart token.kind = some none := by
            rw [nextKind_cons] at sign
            simp [comparisonStart, sign, range]
          refine (readIf_bind_some index rest inner range).trans ?_
          rw [bind_of_ok (read_of_some index rest inner start)]
          rfl
      | none =>
          have start : comparisonStart (nextKind tokens) = none := by
            simp [comparisonStart, sign, range]
          refine (readIf_bind_none index range).trans ?_
          rw [bind_of_error (read_of_none index start)]
          rfl

private theorem comparisonStart_eq_some {kind : Token.Kind} {start : Option BinaryOp} :
    comparisonStart kind = some start ↔
      (∃ op, comparisonSign kind = some op ∧ start = some op) ∨
        kind = .keyword .BETWEEN ∧ start = none := by
  rw [comparisonStart, comparisonOp_eq]
  cases sign : comparisonSign kind with
  | some op =>
      have other : kind ≠ .keyword .BETWEEN := by
        rintro rfl
        cases sign
      simp [other, eq_comm]
  | none => simp [ofKeyword, ofKind, eq_comm]

def PredicateRest (subject : Expr) : Option BinaryOp → Language Expr
  | some op => fun row tree => ∃ right, Arithmetic row right ∧ tree = .binary op subject right
  | none => Arithmetic.andThen fun lower => Language.behind (.keyword .AND)
      fun row tree => ∃ upper, Arithmetic row upper ∧ tree = .between subject lower upper

theorem predicateRest_recognizes (bound : Nat) (subject : Expr) (start : Option BinaryOp) :
    Recognizes bound (predicateRest subject start) (PredicateRest subject start)
      arithmeticExtending := by
  have operand := arithmetic_recognizes bound
  cases start with
  | some op => exact operand.map (Expr.binary op subject)
  | none =>
      refine operand.followedBy (fun lower => ?_) fun lower => Follows.behind (by decide) _
      exact keywordThen .AND (operand.map (Expr.between subject lower)) (Nat.le_succ bound)

theorem predicate_iff (row : List Token.Kind) (tree : Expr) :
    Arithmetic.andThen (fun subject =>
        (Language.single comparisonStart).andThen (PredicateRest subject)) row tree ↔
      Predicate row tree := by
  constructor
  · rintro ⟨subject, front, _, rfl, first, start, _, back, rfl, ⟨kind, rfl, accepted⟩,
      rest⟩
    rcases comparisonStart_eq_some.mp accepted with ⟨op, sign, rfl⟩ | ⟨rfl, rfl⟩
    · obtain ⟨right, last, rfl⟩ := rest
      exact .comparison first sign last
    · obtain ⟨lower, middle, _, rfl, second, back, rfl, upper, last, rfl⟩ := rest
      exact .between first second last
  · intro member
    cases member with
    | @comparison _ _ kind _ subject _ first sign last =>
        exact ⟨subject, _, _, rfl, first, _, [kind], _, rfl,
          ⟨kind, rfl, comparisonStart_eq_some.mpr (.inl ⟨_, sign, rfl⟩)⟩, _, last, rfl⟩
    | between first second last =>
        exact ⟨_, _, _, rfl, first, none, [.keyword .BETWEEN], _, rfl,
          ⟨_, rfl, comparisonStart_eq_some.mpr (.inr ⟨rfl, rfl⟩)⟩, _, _, _, rfl, second, _,
          rfl, _, last, rfl⟩

theorem predicate_recognizes (bound : Nat) :
    Recognizes bound predicate Predicate arithmeticExtending := by
  rw [predicate_eq]
  have start : Recognizes bound (read .comparison comparisonStart)
      (Language.single comparisonStart) [] := by
    refine .read rfl ⟨.eq, .inl ⟨_, rfl⟩⟩ ?_
    rintro kind (⟨op, sign⟩ | rfl)
    · simp [comparisonStart, sign]
    · rfl
  have apart : ∀ kind ∈ arithmeticExtending, comparisonStart kind = none := by decide
  refine of_iff predicate_iff ((arithmetic_recognizes bound).followedBy
    (fun subject => start.tokenThen (predicateRest_recognizes bound subject)
      (Nat.le_succ bound)) ?_)
  rintro subject _ _ last ⟨read, _, _, rfl, ⟨kind, rfl, accepted⟩, -⟩ - extended
  have refused := apart kind extended
  simp [accepted] at refused

theorem predicate_noLonger : NoLonger predicate := by
  intro cursor trail tree after run
  obtain ⟨index, tokens⟩ := cursor
  obtain ⟨front, back, rfl, rfl, -⟩ :=
    (predicate_recognizes _).sound (Nat.lt_succ_self _) run
  simp

def conditionExtending : List Token.Kind :=
  .keyword .AND :: .keyword .OR :: arithmeticExtending

theorem condition_recognizes (bound : Nat) :
    Recognizes bound condition Condition conditionExtending := by
  rw [condition_eq_tier predicate_noLonger]
  refine tier_recognizes (predicate_recognizes bound) rfl (by decide) (by decide) ?_
  intro kind closed
  rcases kind with _ | _ | _ | word | _ <;> try cases word
  all_goals first | rfl | exact absurd (by decide) closed

end CompactSql.Grammar
