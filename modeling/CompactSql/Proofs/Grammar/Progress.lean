import CompactSql.Proofs.Grammar.Choice

/-!
# Progress

No rule leaves more than it began with.  So a rule that calls itself behind a
token it has read needs no guard: `value` is its own argument rule.
-/

namespace CompactSql.Grammar

open Rule

variable {α β : Type}

theorem length_advance_le (cursor : Cursor) :
    cursor.advance.rest.length ≤ cursor.rest.length := by
  unfold Cursor.advance
  split
  · exact Nat.le_refl _
  · next token rest split =>
      rw [split]
      split
      · simp [split]
      · simp

namespace Rule

namespace NoLonger

theorem pure (value : α) : NoLonger (Pure.pure value : Rule α) := by
  intro cursor trail found after run
  cases run
  exact Nat.le_refl _

theorem read (expected : Expectation) (accept : Token.Kind → Option α) :
    NoLonger (Rule.read expected accept) := by
  intro cursor trail value after run
  unfold Rule.read at run
  split at run
  · cases run
    exact length_advance_le cursor
  · cases run

theorem readIf (accept : Token.Kind → Option α) : NoLonger (Rule.readIf accept) := by
  intro cursor trail value after run
  unfold Rule.readIf at run
  split at run
  · cases run
    exact length_advance_le cursor
  · cases run
    exact Nat.le_refl _

theorem repeated {lead : Token.Kind → Option β} {item : β → Rule α}
    (h : ∀ led, NoLonger (item led)) : NoLonger (Rule.repeated lead item) := by
  intro cursor trail values after run
  change repeatedAt lead item cursor = _ at run
  fun_induction repeatedAt lead item cursor generalizing trail values after with
  | case1 =>
      cases run
      exact Nat.le_refl _
  | case2 | case3 => cases run
  | case4 cursor led _ trail value inside _ shorter trail' values' last more ih =>
      cases run
      exact Nat.le_of_lt (Nat.lt_of_le_of_lt (ih more) shorter)
  | case5 cursor led _ trail value inside stopped _ =>
      cases run
      exact Nat.le_trans (h led stopped) (length_advance_le _)

theorem commaList {item : Rule α} (h : NoLonger item) :
    NoLonger (Rule.commaList item) :=
  h.bind fun first => (repeated fun _ => h).bind fun others => pure (first :: others)

theorem firstOf {expected : Expectation} {alternatives : List (String × Rule α)}
    (h : ∀ alternative ∈ alternatives, NoLonger alternative.2) :
    NoLonger (Rule.firstOf expected alternatives) := by
  intro cursor trail value after run
  obtain ⟨alternative, member, inner, found⟩ := exists_of_firstOfFrom_ok run
  exact h alternative member found

end NoLonger

theorem length_lt_of_read {expected : Expectation} {accept : Token.Kind → Option α}
    {cursor after : Cursor} {trail : List Event} {value : α}
    (noEnd : accept .eof = none)
    (run : read expected accept cursor = ⟨trail, .ok (value, after)⟩) :
    after.rest.length < cursor.rest.length := by
  obtain ⟨index, tokens⟩ := cursor
  cases accepted : accept (nextKind tokens) with
  | none => simp [read_of_none index accepted] at run
  | some found =>
      obtain ⟨token, rest, rfl, inner, accepted⟩ := next_of_accepted noEnd accepted
      rw [read_of_some index rest inner accepted] at run
      cases run
      exact Nat.lt_succ_self _

def AgreeBelow (size : Nat) (rule rule' : Rule α) : Prop :=
  ∀ cursor, cursor.rest.length < size → rule cursor = rule' cursor

namespace AgreeBelow

theorem refl (size : Nat) (rule : Rule α) : AgreeBelow size rule rule :=
  fun _ _ => rfl

theorem bind {size : Nat} {rule rule' : Rule α} {next next' : α → Rule β}
    (h : AgreeBelow size rule rule') (shrinks : NoLonger rule')
    (hnext : ∀ value, AgreeBelow size (next value) (next' value)) :
    AgreeBelow size (rule >>= next) (rule' >>= next') := by
  intro cursor short
  rw [bind_congr (h cursor short)]
  rcases run_cases rule' cursor with ⟨trail, failure, run⟩ | ⟨trail, value, after, run⟩
  · rw [bind_of_error run, bind_of_error run]
  · rw [bind_of_ok run, bind_of_ok run,
      hnext value after (Nat.lt_of_le_of_lt (shrinks run) short)]

theorem repeated {size : Nat} {lead : Token.Kind → Option β} {item item' : β → Rule α}
    (h : ∀ led, AgreeBelow size (item led) (item' led))
    (shrinks : ∀ led, NoLonger (item' led)) :
    AgreeBelow size (Rule.repeated lead item) (Rule.repeated lead item') := by
  intro cursor short
  induction left : cursor.rest.length using Nat.strongRecOn generalizing cursor with
  | ind left ih =>
      subst left
      rw [repeated_turn, repeated_turn]
      cases lead cursor.current.kind with
      | none => rfl
      | some led =>
          have advanced := length_advance_le cursor
          simp only [h led cursor.advance (Nat.lt_of_le_of_lt advanced short)]
          rcases run_cases (item' led) cursor.advance with
            ⟨trail, failure, run⟩ | ⟨trail, value, after, run⟩
          · simp only [run]
          · have shorter := Nat.le_trans (shrinks led run) advanced
            by_cases less : after.rest.length < cursor.rest.length
            · have rest := ih _ less after (Nat.lt_of_le_of_lt shorter short) rfl
              simp only [run, rest]
            · simp only [run, if_neg less]

theorem commaList {size : Nat} {item item' : Rule α} (h : AgreeBelow size item item')
    (shrinks : NoLonger item') :
    AgreeBelow size (Rule.commaList item) (Rule.commaList item') :=
  h.bind shrinks fun first =>
    (repeated (fun _ => h) fun _ => shrinks).bind (.repeated fun _ => shrinks)
      fun others => refl size (Pure.pure (first :: others))

end AgreeBelow

end Rule

theorem call_noLonger {argument : Rule Expr} (h : NoLonger argument) :
    NoLonger (call argument) := by
  refine (NoLonger.read _ _).bind fun name => (NoLonger.read _ _).bind fun _ =>
    (NoLonger.readIf _).bind fun closing => ?_
  cases closing with
  | some _ => exact .pure _
  | none =>
      exact h.commaList.bind fun args => (NoLonger.read _ _).bind fun _ => .pure _

private theorem call_congr {argument argument' : Rule Expr} {cursor : Cursor}
    (h : AgreeBelow cursor.rest.length argument argument')
    (shrinks : NoLonger argument') : call argument cursor = call argument' cursor := by
  -- arguments begin behind a name, so only shorter runs of their rule matter
  refine bind_congr_next fun trail name after run => ?_
  have shorter : after.rest.length < cursor.rest.length := length_lt_of_read rfl run
  refine AgreeBelow.bind (.refl _ _) (NoLonger.read _ _) (fun _ => ?_) after shorter
  refine AgreeBelow.bind (.refl _ _) (NoLonger.readIf _) (fun closing => ?_)
  cases closing with
  | some _ => exact .refl _ _
  | none =>
      exact (h.commaList shrinks).bind shrinks.commaList fun args => .refl _ _

def valueAlternatives (argument : Rule Expr) : List (String × Rule Expr) :=
  [("qualified field", qualifiedField), ("function call", call argument),
    ("identifier", plainField),
    ("integer", do return .literal (← read .integer integerOf)),
    ("string", do return .literal (← read .string stringOf))]

private theorem valueAlternatives_noLonger {argument : Rule Expr} (h : NoLonger argument) :
    ∀ alternative ∈ valueAlternatives argument, NoLonger alternative.2 := by
  simp only [valueAlternatives, List.mem_cons, List.not_mem_nil, or_false, forall_eq_or_imp,
    forall_eq]
  refine ⟨?_, call_noLonger h, ?_, ?_, ?_⟩
  · exact (NoLonger.read _ _).bind fun _ => (NoLonger.read _ _).bind fun _ =>
      (NoLonger.read _ _).bind fun _ => .pure _
  · exact (NoLonger.read _ _).bind fun _ => .pure _
  · exact (NoLonger.read _ _).bind fun _ => .pure _
  · exact (NoLonger.read _ _).bind fun _ => .pure _

/-- The argument rule as the recursion sees it: guarded by what was left. -/
def guarded (size : Nat) : Rule Expr := fun place =>
  if place.rest.length < size then value place else unexpected .value place

theorem value_guarded (cursor : Cursor) : value cursor =
    firstOf .value (valueAlternatives (guarded cursor.rest.length)) cursor := by
  change valueAt cursor = _
  rw [valueAt]
  rfl

theorem value_noLonger : NoLonger value := by
  intro cursor trail found after run
  induction left : cursor.rest.length using Nat.strongRecOn
    generalizing cursor trail found after with
  | ind left ih =>
      subst left
      have inner : NoLonger (guarded cursor.rest.length) := by
        intro place trail' found' after' run'
        by_cases less : place.rest.length < cursor.rest.length
        · rw [guarded, if_pos less] at run'
          exact ih _ less run' rfl
        · rw [guarded, if_neg less] at run'
          cases run'
      rw [value_guarded] at run
      exact NoLonger.firstOf (valueAlternatives_noLonger inner) run

theorem value_eq : value = firstOf .value (valueAlternatives value) := by
  -- arguments have less left than the call itself, so the guard never bites
  funext cursor
  have agree : AgreeBelow cursor.rest.length (guarded cursor.rest.length) value := by
    intro place less
    rw [guarded, if_pos less]
  rw [value_guarded, firstOf, firstOf, valueAlternatives, valueAlternatives]
  simp only [firstOfFrom, call_congr agree value_noLonger]

end CompactSql.Grammar
