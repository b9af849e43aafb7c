import CompactSql.Proofs.Parser.Refinement

/-!
# Loops that do as a rule says

A turn of a loop that goes on has read a token, so as many turns as there are tokens left are
enough.  What a rule reads in one piece is a turn and the rest.
-/

namespace CompactSql.Parser

open Grammar (Cursor Event Outcome Rule)
open Grammar.Rule (bind_of_error bind_of_ok)
open Code (Turn)

variable {α β γ σ : Type}

namespace Code

/-- How many tokens a turn has read for certain: one if the loop goes on. -/
def Turn.least (stopped : Nat) : Turn β γ → Nat
  | again _ => 1
  | stop _ => stopped

def Turn.rest (whole : β → Rule γ) : Turn β γ → Rule γ
  | again state => whole state
  | stop value => pure value

def Turn.ofList (item : Rule α) (items : List α) : Rule (Turn (List α) (List α)) := do
  let value ← item
  match ← Rule.readIf (Grammar.Rule.ofKind .comma) with
  | none => return .stop (items ++ [value])
  | some _ => return .again (items ++ [value])

def Turn.ofLead (lead : Token.Kind → Option σ) (item : σ → Rule α) (join : σ → β → α → β)
    (state : β) : Rule (Turn β β) := do
  match ← Rule.readIf lead with
  | none => return .stop state
  | some led => return .again (join led state (← item led))

variable {turn : β → Code (Turn β γ)} {state : β} {depth : Nat} {parser after : Parser}

private theorem run_looped_again {state' : β}
    (run : turn state (depth + 1) parser = .done (.ok (.again state')) after) :
    looped turn state (depth + 1) parser = looped turn state' depth after := by
  simp only [looped, loop, run]

private theorem run_looped_stop {value : γ}
    (run : turn state (depth + 1) parser = .done (.ok (.stop value)) after) :
    looped turn state (depth + 1) parser = .done (.ok value) after := by
  simp only [looped, loop, run]

private theorem run_looped_error {failure : Failure}
    (run : turn state (depth + 1) parser = .done (.error failure) after) :
    looped turn state (depth + 1) parser = .done (.error failure) after := by
  simp only [looped, loop, run]

end Code

namespace Simulates

variable {bound : Nat}

theorem looped {stopped : Nat} {turn : β → Code (Turn β γ)} (turn' : β → Rule (Turn β γ))
    (whole : β → Rule γ)
    (hturn : ∀ state, Simulates bound (Turn.least stopped) (turn state) (turn' state))
    (unrolls : ∀ state ⦃parser : Parser⦄, parser.InRange → parser.left ≤ bound →
      whole state parser.cursor = (turn' state >>= Turn.rest whole) parser.cursor)
    (state : β) :
    Simulates bound (fun _ => stopped) (Code.looped turn state) (whole state) := by
  intro depth parser range fits enough
  -- on the bound, which what is left of the tokens never exceeds
  induction depth generalizing state parser with
  | zero => exact absurd enough (Nat.not_le_of_lt range.left_pos)
  | succ depth ih =>
      have first := hturn state range fits enough
      rw [unrolls state range fits]
      generalize hrun : turn state (depth + 1) parser = run at first
      rcases hrule : turn' state parser.cursor with ⟨trail, failure | ⟨turned, place⟩⟩
      all_goals
        rw [hrule] at first
        cases first
      case error pos ahead inside =>
        rw [bind_of_error hrule, Code.run_looped_error hrun]
        exact .error ahead inside
      case ok pos inside ahead =>
        rw [bind_of_ok hrule]
        cases turned with
        | stop value =>
            rw [Code.run_looped_stop hrun, Turn.rest, Grammar.Rule.pure_apply,
              Grammar.Outcome.behind_mk, List.append_nil]
            exact .ok ahead inside
        | again state' =>
            -- the turn has taken one from the bound and at least one from what is left
            rw [Code.run_looped_again hrun, Turn.rest]
            have moved : parser.pos + 1 ≤ pos := ahead
            have shorter : (parser.moved pos trail).left + 1 ≤ parser.left := by
              simp only [left, moved_tokens, moved_pos]
              omega
            refine (ih state' (range.moved inside trail) ?_ ?_).behind ?_ fun _ => ?_
            · exact Nat.le_of_succ_le (Nat.le_trans shorter fits)
            · exact Nat.le_of_succ_le_succ (Nat.le_trans shorter enough)
            · exact Nat.le_of_succ_le moved
            · exact Nat.add_le_add_right (Nat.le_of_succ_le moved) stopped

theorem leadTurn {lead : Token.Kind → Option σ} {item : σ → Code α} {item' : σ → Rule α}
    (join : σ → β → α → β) (noEnd : lead .eof = none)
    (hitem : ∀ led, Simulates (bound - 1) (fun _ => 0) (item led) (item' led)) (state : β) :
    Simulates bound (Turn.least 0) (Code.leadTurn lead item join state)
      (Turn.ofLead lead item' join state) := by
  refine (eat noEnd).bind fun found => ?_
  cases found with
  | none => exact .pure _ rfl
  | some led => exact (hitem led).bind fun value => .pure _ rfl

theorem leading {lead : Token.Kind → Option σ} {item : σ → Code α} {item' : σ → Rule α}
    {join : σ → β → α → β} (whole : β → Rule β) (noEnd : lead .eof = none)
    (hitem : ∀ led, Simulates (bound - 1) (fun _ => 0) (item led) (item' led))
    (unrolls : ∀ state ⦃parser : Parser⦄, parser.InRange → parser.left ≤ bound →
      whole state parser.cursor =
        (do match ← Rule.readIf lead with
            | none => return state
            | some led =>
                let value ← item' led
                whole (join led state value) : Rule β) parser.cursor)
    (state : β) :
    Simulates bound (fun _ => 0) (Code.looped (Code.leadTurn lead item join) state)
      (whole state) := by
  refine looped (Turn.ofLead lead item' join) whole (leadTurn join noEnd hitem) ?_ state
  intro state parser range fits
  rw [unrolls state range fits, Turn.ofLead, Rule.bind_assoc]
  refine congrFun (congrArg (Rule.readIf lead >>= ·) (funext fun found => ?_)) _
  cases found with
  | none => simp only [Rule.pure_bind, Turn.rest]
  | some led => simp only [Rule.bind_assoc, Rule.pure_bind, Turn.rest]

private theorem noLonger {least : α → Nat} {code : Code α} {rule : Rule α}
    (h : Simulates bound least code rule) {parser : Parser} (range : parser.InRange)
    (fits : parser.left ≤ bound) {trail : List Event} {value : α} {after : Cursor}
    (run : rule parser.cursor = ⟨trail, .ok (value, after)⟩) :
    after.rest.length ≤ parser.cursor.rest.length := by
  -- what code has read is no longer there for the rule
  have mirrors := h range fits (Nat.le_refl _)
  rw [run] at mirrors
  generalize code _ _ = run at mirrors
  cases mirrors with
  | ok ahead inside =>
      simp only [cursor, moved_tokens, moved_pos, List.length_drop]
      omega

private theorem bind_congr {least : α → Nat} {code : Code α} {rule : Rule α}
    (h : Simulates bound least code rule) {next next' : α → Rule β} {parser : Parser}
    (range : parser.InRange) (fits : parser.left ≤ bound)
    (same : ∀ value ⦃after : Parser⦄, after.InRange → after.left ≤ bound →
      next value after.cursor = next' value after.cursor) :
    (rule >>= next) parser.cursor = (rule >>= next') parser.cursor := by
  have mirrors := h range fits (Nat.le_refl _)
  generalize code _ _ = run at mirrors
  rcases hrule : rule parser.cursor with ⟨trail, failure | ⟨value, after⟩⟩
  all_goals
    rw [hrule] at mirrors
    cases mirrors
  case error => rw [bind_of_error hrule, bind_of_error hrule]
  case ok pos inside ahead =>
    have shorter : (parser.moved pos trail).left ≤ parser.left :=
      Nat.sub_le_sub_left (Nat.le_of_add_right_le ahead) _
    have rest := same value (range.moved inside trail) (Nat.le_trans shorter fits)
    rw [bind_of_ok hrule, bind_of_ok hrule, rest]

theorem repeated_unrolls {least : α → Nat} (lead : Token.Kind → Option σ) {item : σ → Code α}
    {item' : σ → Rule α} (noEnd : lead .eof = none)
    (hitem : ∀ led, Simulates bound least (item led) (item' led)) {parser : Parser}
    (range : parser.InRange) (fits : parser.left ≤ bound) :
    Rule.repeated lead item' parser.cursor =
      (do match ← Rule.readIf lead with
          | none => return []
          | some led =>
              let value ← item' led
              (value :: ·) <$> Rule.repeated lead item' : Rule (List α)) parser.cursor := by
  refine Grammar.Rule.repeated_eq_bind parser.pos noEnd ?_
  intro token rest led trail value after split inner run
  obtain ⟨rfl, rfl⟩ : parser.cursor.current = token ∧
      parser.tokens.drop (parser.pos + 1) = rest := by
    simpa using range.drop_eq.symm.trans split
  refine (hitem led).noLonger (range.moved (range.next_inside inner) []) ?_ run
  exact Nat.le_trans (Nat.sub_le_sub_left (Nat.le_succ _) _) fits

theorem repeated {least : α → Nat} {lead : Token.Kind → Option σ} {item : σ → Code α}
    {item' : σ → Rule α} (noEnd : lead .eof = none)
    (hitem : ∀ led, Simulates bound least (item led) (item' led)) :
    Simulates bound (fun _ => 0) (Code.repeated lead item) (Rule.repeated lead item') := by
  rw [← Rule.bind_pure (Rule.repeated lead item')]
  refine leading (fun items => do
    let others ← Rule.repeated lead item'
    return items ++ others) noEnd (fun led => (hitem led).loosen 1) ?_ []
  intro items parser range fits
  rw [Grammar.Rule.bind_congr (repeated_unrolls lead noEnd hitem range fits), Rule.bind_assoc]
  refine congrFun (congrArg (Rule.readIf lead >>= ·) (funext fun found => ?_)) _
  cases found with
  | none => simp only [Rule.pure_bind, List.append_nil]
  | some led =>
      simp only [Grammar.Rule.map_eq_bind, Rule.bind_assoc, Rule.pure_bind,
        List.append_assoc, List.cons_append, List.nil_append]

theorem listTurn {item : Code α} {item' : Rule α}
    (hitem : Simulates bound (fun _ => 1) item item') (items : List α) :
    Simulates bound (Turn.least 1) (Code.listTurn item items) (Turn.ofList item' items) := by
  refine (hitem.followedBy fun value => (eat rfl).bind fun found => ?_).weaken ?_
  · cases found with
    | none => exact .pure _ rfl
    | some _ => exact .pure _ rfl
  · intro turned
    cases turned <;> exact Nat.le_refl 1

theorem commaList {item : Code α} {item' : Rule α}
    (hitem : Simulates bound (fun _ => 1) item item') :
    Simulates bound (fun _ => 1) (Code.commaList item) (Rule.commaList item') := by
  -- turns of the code end with a comma, those of the rule begin with one
  refine looped (Turn.ofList item') (fun items => do
    let first ← item'
    let others ← Rule.repeated (Grammar.Rule.ofKind .comma) fun _ => item'
    return items ++ first :: others) (listTurn hitem) ?_ []
  intro items parser range fits
  rw [Turn.ofList, Rule.bind_assoc]
  refine hitem.bind_congr range fits fun value after range fits => ?_
  have unrolls := repeated_unrolls (Grammar.Rule.ofKind .comma) rfl (fun _ => hitem) range fits
  rw [Grammar.Rule.bind_congr unrolls, Rule.bind_assoc, Rule.bind_assoc]
  refine congrFun (congrArg (Rule.readIf _ >>= ·) (funext fun found => ?_)) _
  cases found with
  | none => simp only [Rule.pure_bind, Turn.rest]
  | some _ =>
      simp only [Grammar.Rule.map_eq_bind, Rule.bind_assoc, Rule.pure_bind, Turn.rest,
        List.append_assoc, List.cons_append, List.nil_append]

end Simulates

end CompactSql.Parser
