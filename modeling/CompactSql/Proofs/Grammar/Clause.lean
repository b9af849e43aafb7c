import CompactSql.Proofs.Grammar.Expression

/-!
# Clauses are recognized

Each clause up to the kinds that extend it.  No clause starts with a kind that
extends the one before it, which is why their order needs no separators.
-/

namespace CompactSql.Grammar

open Rule Grammar.Derivation
open Recognizes (of_iff ifNext keywordThen nameThen symbolThen)

variable {α β : Type} {bound : Nat} {extending : List Token.Kind}

theorem Recognizes.choice {accept : Token.Kind → Option β} {next : Option β → Rule α}
    {found : β → Language α} {absent : Language α} {first : List Token.Kind}
    (noEnd : accept .eof = none)
    (hfound : ∀ read, Recognizes bound (next (some read)) (found read) extending)
    (habsent : Recognizes bound (next none) absent extending)
    (starts : Starts absent first) (apart : ∀ kind ∈ first, accept kind = none)
    (ends : ∀ value, absent [] value → ∀ last, last ∉ extending → accept last = none) :
    Recognizes bound (Rule.readIf accept >>= next)
      (Language.ifNext accept found absent) extending := by
  refine ifNext noEnd hfound habsent (Nat.le_succ bound) ?_
  intro row value last member closed
  cases row with
  | nil => exact ends value member last closed
  | cons kind row => exact apart kind (starts _ _ _ member)

theorem Recognizes.optionalNameThen {next : Option String → Rule α}
    {second : Option String → Language α} {first : List Token.Kind}
    (h : ∀ name, Recognizes bound (next name) (second name) extending)
    (starts : Starts (second none) first) (apart : ∀ kind ∈ first, nameOf kind = none)
    (nonempty : ∀ value, ¬ second none [] value) :
    Recognizes bound (readIf nameOf >>= next) ((Optional [] Name).andThen second)
      extending := by
  refine of_iff ?_ (.choice rfl (fun name => h (some name)) (h none) starts apart
    fun value member => absurd member (nonempty value))
  intro row value
  constructor
  · rintro (⟨kind, name, back, rfl, accepted, member⟩ | member)
    · obtain rfl := nameOf_eq_some.mp accepted
      exact ⟨some name, [.identifier name], back, rfl, .present (.name name), member⟩
    · exact ⟨none, [], row, rfl, .absent, member⟩
  · rintro ⟨_, _, back, rfl, optional, member⟩
    cases optional with
    | absent => exact .inr member
    | @present _ word named =>
        cases named
        exact .inl ⟨_, word, back, rfl, rfl, member⟩

private theorem arithmetic_head {row : List Token.Kind} {tree : Expr} (h : Arithmetic row tree) :
    ∃ kind rest, row = kind :: rest ∧ Expectation.value.Admits kind := by
  induction h with
  | operand member =>
      induction member with
      | operand member => exact value_head member
      | step _ _ _ ih =>
          obtain ⟨kind, rest, rfl, starts⟩ := ih
          exact ⟨kind, _, rfl, starts⟩
  | step _ _ _ ih =>
      obtain ⟨kind, rest, rfl, starts⟩ := ih
      exact ⟨kind, _, rfl, starts⟩

def selectItemsExtending : List Token.Kind := .comma :: arithmeticExtending

theorem selectItems_recognizes (bound : Nat) :
    Recognizes bound selectItems SelectItems selectItemsExtending := by
  have exprs : Recognizes bound (do return (← commaList arithmetic).map SelectItem.expr) _
      selectItemsExtending :=
    ((arithmetic_recognizes bound).commaList (by decide)).map (List.map SelectItem.expr)
  have all : Recognizes bound (return [SelectItem.wildcard]) _ selectItemsExtending :=
    (Recognizes.pure [SelectItem.wildcard]).weaken (List.nil_subset _)
  refine of_iff ?_ (ifNext rfl (fun _ => all) exprs (Nat.le_succ bound) ?_)
  · intro row items
    constructor
    · rintro (⟨kind, _, _, rfl, accepted, rfl, rfl⟩ | ⟨values, listed, rfl⟩)
      · obtain rfl := ofKind_eq_some.mp accepted
        exact .all
      · exact .exprs listed
    · rintro (_ | listed)
      · exact .inl ⟨_, (), [], rfl, rfl, rfl, rfl⟩
      · exact .inr ⟨_, listed, rfl⟩
  · rintro row items last ⟨values, listed, rfl⟩ -
    obtain ⟨first, rest, value, rfl, member⟩ := listed.head
    obtain ⟨kind, others, rfl, starts⟩ := arithmetic_head member
    refine ofKind_eq_none.mpr ?_
    rintro rfl
    simp [Expectation.Admits] at starts

def joinsExtending : List Token.Kind := .keyword .LEFT :: conditionExtending

theorem join_recognizes (bound : Nat) : Recognizes bound join
    (Language.behind (.keyword .JOIN) (Language.named fun table =>
      Language.behind (.keyword .ON) fun row join =>
        ∃ condition, Condition row condition ∧ join = ⟨table, condition⟩))
    conditionExtending :=
  keywordThen .JOIN (nameThen (fun table => keywordThen .ON
    ((condition_recognizes bound).map (Join.mk table)) (Nat.le_succ bound))
    (Nat.le_succ bound)) (Nat.le_succ bound)

theorem joins_recognizes (bound : Nat) :
    Recognizes bound (repeated (ofKeyword .LEFT) fun _ => join) (Joins Condition)
      joinsExtending := by
  refine of_iff ?_ (.repeated rfl (fun _ => join_recognizes bound) (by decide)
    (by decide) ?_)
  · intro row joins
    constructor
    · intro member
      induction member with
      | nil => exact .none
      | cons accepted member _ ih =>
          obtain rfl := ofKind_eq_some.mp accepted
          obtain ⟨_, rfl, table, _, rfl, _, rfl, condition, derived, rfl⟩ := member
          exact .join table derived ih
    · intro member
      induction member with
      | none => exact .nil
      | join table derived _ ih =>
          exact .cons (ofKind_self _)
            ⟨_, rfl, table, _, rfl, _, rfl, _, derived, rfl⟩ ih
  · exact ofKind_of_not_mem (by decide)

/-! ## Grouping -/

theorem groupField_recognizes (bound : Nat) :
    Recognizes bound groupField GroupField [.dot] := by
  refine .firstOf (List.cons_ne_nil _ _) ?_ ?_ ⟨.identifier "", "", rfl⟩ ?_ ?_
  · simp only [List.mem_cons, List.not_mem_nil, or_false, forall_eq_or_imp, forall_eq]
    refine ⟨⟨_, _, qualifiedField_recognizes, ?_⟩, ⟨_, _, plainField_recognizes, ?_⟩⟩
    · rintro _ _ ⟨table, name, rfl, rfl⟩
      exact .field table name
    · rintro _ _ ⟨name, rfl, rfl⟩
      exact .identifier name
  · rintro _ _ (_ | _) <;> simp
  · rintro _ ⟨name, rfl⟩
    exact ⟨[], _, .identifier name⟩
  · intro index front back tree short member closed
    generalize hrow : kinds front = row at member
    cases member with
    | field table name =>
        exact .take (qualifiedField_recognizes.complete index front back short
          ⟨table, name, hrow, rfl⟩ List.not_mem_nil)
    | identifier name =>
        rw [nextKind_eq] at closed
        refine .skip (qualifiedField_fails ?_) (.take ?_)
        · intro other rest split
          simp_all
        · exact plainField_recognizes.complete index front back short ⟨name, hrow, rfl⟩
            List.not_mem_nil

def groupingExtending : List Token.Kind :=
  .keyword .GROUP :: .keyword .HAVING :: .comma :: conditionExtending

theorem grouping_recognizes (bound : Nat) :
    Recognizes bound grouping (Grouping Condition) groupingExtending := by
  have fields := (groupField_recognizes bound).commaList (by decide)
  have having : Recognizes bound (ledBy .HAVING condition)
      (Optional [.keyword .HAVING] Condition) groupingExtending :=
    ((condition_recognizes bound).ledBy .HAVING).weaken (by decide)
  have grouped : Recognizes bound
      (do
        keyword .BY
        let fields ← commaList groupField
        return (fields, ← ledBy .HAVING condition)) _ groupingExtending :=
    keywordThen .BY (fields.followedBy (fun fields => having.map (Prod.mk fields))
      fun fields => .of_starts ((Starts.optional _ _ _).map _) (by decide) (by decide))
      (Nat.le_succ bound)
  refine of_iff ?_ (.choice rfl (fun _ => grouped)
    ((Recognizes.pure (([], none) : List Expr × Option Expr)).weaken (List.nil_subset _))
    (Starts.nothing _) (by decide) ?_)
  · intro row grouping
    constructor
    · rintro (⟨kind, _, _, rfl, accepted, _, rfl, fields, front, back, rfl, listed,
        having, optional, rfl⟩ | ⟨rfl, rfl⟩)
      · obtain rfl := ofKind_eq_some.mp accepted
        exact .fields listed optional
      · exact .none
    · rintro (_ | ⟨listed, optional⟩)
      · exact .inr ⟨rfl, rfl⟩
      · exact .inl ⟨_, (), _, rfl, ofKind_self _, _, rfl, _, _, _, rfl, listed,
          _, optional, rfl⟩
  · exact fun _ _ => ofKind_of_not_mem (by decide)

theorem grouping_starts : Starts (Grouping Condition) [.keyword .GROUP] := by
  rintro kind row value member
  cases member
  exact List.mem_singleton_self _

def Direction (expr : Expr) : Language CompactSql.SortKey :=
  Language.ifNext (ofKeyword .DESC) (fun _ => Language.nothing ⟨expr, false⟩)
    (Language.ifNext (ofKeyword .ASC) (fun _ => Language.nothing ⟨expr, true⟩)
      (Language.nothing ⟨expr, true⟩))

private theorem direction_starts (expr : Expr) :
    Starts (Direction expr) [.keyword .DESC, .keyword .ASC] :=
  .ifKind _ (.ifKind _ (Starts.nothing _))

def sortKeyExtending : List Token.Kind :=
  .keyword .DESC :: .keyword .ASC :: arithmeticExtending

theorem direction_recognizes (bound : Nat) (expr : Expr) : Recognizes bound
    (do
      match ← readIf (ofKeyword .DESC) with
      | some _ => return CompactSql.SortKey.mk expr false
      | none =>
          let _ ← readIf (ofKeyword .ASC)
          return ⟨expr, true⟩)
    (Direction expr) sortKeyExtending := by
  have plain (ascending : Bool) : Recognizes bound
      (return CompactSql.SortKey.mk expr ascending) _ sortKeyExtending :=
    (Recognizes.pure (CompactSql.SortKey.mk expr ascending)).weaken (List.nil_subset _)
  have upward : Recognizes bound
      (do
        let _ ← readIf (ofKeyword .ASC)
        return CompactSql.SortKey.mk expr true) _ sortKeyExtending :=
    .choice rfl (fun _ => plain true) (plain true) (Starts.nothing _) (by decide)
      fun _ _ => ofKind_of_not_mem (by decide)
  exact .choice rfl (fun _ => plain false) upward (.ifKind _ (Starts.nothing _))
    (by decide) fun _ _ => ofKind_of_not_mem (by decide)

theorem sortKey_recognizes (bound : Nat) :
    Recognizes bound sortKey Derivation.SortKey sortKeyExtending := by
  refine of_iff ?_ ((arithmetic_recognizes bound).followedBy (direction_recognizes bound)
    fun expr => .of_starts (direction_starts expr) (by decide) (by decide))
  intro row key
  constructor
  · rintro ⟨expr, front, back, rfl, member, ⟨kind, _, _, rfl, accepted, rfl, rfl⟩ |
      ⟨kind, _, _, rfl, accepted, rfl, rfl⟩ | ⟨rfl, rfl⟩⟩
    · obtain rfl := ofKind_eq_some.mp accepted
      exact .descending member
    · obtain rfl := ofKind_eq_some.mp accepted
      exact .ascending member
    · simpa using Derivation.SortKey.plain member
  · rintro (member | member | member)
    · exact ⟨_, _, [], by simp, member, .inr (.inr ⟨rfl, rfl⟩)⟩
    · exact ⟨_, _, _, rfl, member, .inr (.inl ⟨_, (), _, rfl, ofKind_self _, rfl, rfl⟩)⟩
    · exact ⟨_, _, _, rfl, member, .inl ⟨_, (), _, rfl, ofKind_self _, rfl, rfl⟩⟩

def sortingExtending : List Token.Kind := .keyword .ORDER :: .comma :: sortKeyExtending

theorem sorting_recognizes (bound : Nat) :
    Recognizes bound sorting Sorting sortingExtending := by
  have keys : Recognizes bound
      (do
        keyword .BY
        commaList sortKey) _ (.comma :: sortKeyExtending) :=
    keywordThen .BY ((sortKey_recognizes bound).commaList (by decide)) (Nat.le_succ bound)
  have led := keys.ledBy .ORDER
  refine of_iff ?_ (led.map fun keys : Option (List CompactSql.SortKey) => keys.getD [])
  intro row keys
  constructor
  · rintro ⟨_, _ | ⟨_, rfl, listed⟩, rfl⟩
    · exact .none
    · exact .keys listed
  · rintro (_ | listed)
    · exact ⟨_, .absent, rfl⟩
    · exact ⟨_, .present ⟨_, rfl, listed⟩, rfl⟩

theorem sorting_starts : Starts Sorting [.keyword .ORDER] := by
  rintro kind row value member
  cases member
  exact List.mem_singleton_self _

/-! ## Names, rows and entries -/

theorem namesInside_recognizes (bound : Nat) : Recognizes bound namesInside
    (fun row names => ∃ inner, row = inner ++ [.rightParen] ∧ Listed Name inner names)
    [] := by
  refine of_iff ?_ ((Recognizes.name.commaList (by decide)).followedBy
    (fun names => symbolThen (by decide) (Recognizes.pure names) (Nat.le_succ bound))
    fun names => Follows.behind (by decide) _)
  intro row names
  constructor
  · rintro ⟨_, inner, _, rfl, listed, _, rfl, rfl, rfl⟩
    exact ⟨inner, rfl, listed⟩
  · rintro ⟨inner, rfl, listed⟩
    exact ⟨_, inner, _, rfl, listed, _, rfl, rfl, rfl⟩

private theorem parenthesized_iff {item : Language α} (row : List Token.Kind) (values : List α) :
    Language.behind .leftParen
        (fun row values => ∃ inner, row = inner ++ [.rightParen] ∧ Listed item inner values)
        row values ↔
      Parenthesized item row values := by
  constructor
  · rintro ⟨_, rfl, inner, rfl, listed⟩
    exact .list listed
  · rintro ⟨listed⟩
    exact ⟨_, rfl, _, rfl, listed⟩

theorem names_recognizes (bound : Nat) :
    Recognizes bound names (Parenthesized Name) [] :=
  of_iff parenthesized_iff
    (symbolThen (by decide) (namesInside_recognizes bound) (Nat.le_succ bound))

theorem literal_recognizes (bound : Nat) :
    Recognizes bound literal Derivation.Literal [] := by
  refine of_iff ?_ (Recognizes.read rfl ⟨.integer 0, .inl ⟨0, rfl⟩⟩ ?_)
  · intro row value
    constructor
    · rintro ⟨kind, rfl, accepted⟩
      cases kind <;> cases accepted
      · exact .integer _
      · exact .string _
    · rintro (_ | _) <;> exact ⟨_, rfl, rfl⟩
  · rintro _ (⟨value, rfl⟩ | ⟨raw, rfl⟩) <;> rfl

theorem row_recognizes (bound : Nat) :
    Recognizes bound row (Parenthesized Derivation.Literal) [] := by
  refine of_iff ?_ (symbolThen (by decide) (((literal_recognizes bound).commaList
    (by decide)).followedBy
      (fun values => symbolThen (by decide) (Recognizes.pure values) (Nat.le_succ bound))
      fun values => Follows.behind (by decide) _) (Nat.le_succ bound))
  intro row values
  constructor
  · rintro ⟨_, rfl, _, inner, _, rfl, listed, _, rfl, rfl, rfl⟩
    exact .list listed
  · rintro ⟨listed⟩
    exact ⟨_, rfl, _, _, _, rfl, listed, _, rfl, rfl, rfl⟩

theorem assignment_recognizes (bound : Nat) :
    Recognizes bound assignment Derivation.Assignment arithmeticExtending := by
  refine of_iff ?_ (nameThen (fun field => symbolThen (by decide)
    ((arithmetic_recognizes bound).map (Assignment.mk field)) (Nat.le_succ bound))
    (Nat.le_succ bound))
  intro row assignment
  constructor
  · rintro ⟨field, _, rfl, _, rfl, value, member, rfl⟩
    exact .set field member
  · rintro ⟨field, member⟩
    exact ⟨field, _, rfl, _, rfl, _, member, rfl⟩

end CompactSql.Grammar
