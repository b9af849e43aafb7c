import CompactSql.Proofs.Grammar.Whole

/-!
# Conditions inside statements

The keyword at the front of a statement leaves one alternative.  The others fail at once and
have no part in what is reported, so a deletion with a condition comes to what its condition
comes to: the same trail counts, and the same failure.
-/

namespace CompactSql.Grammar

open Rule

variable {α β : Type}

theorem near_nil (place : Nat) : Near place [] := fun _ member => absurd member List.not_mem_nil

theorem Near.append {place : Nat} {front back : List Event} (h : Near place front)
    (h' : Near place back) : Near place (front ++ back) :=
  List.forall_mem_append.mpr ⟨h, h'⟩

theorem near_given_up {place : Nat} {failure : Failure} (h : failure.span.start ≤ place)
    (index : Nat) (name : String) :
    Near place [.backtracked index failure, .rejected name] := by
  refine List.forall_mem_cons.mpr ⟨?_, List.forall_mem_singleton.mpr rfl⟩
  exact decide_eq_false (Nat.not_lt.mpr h)

theorem Near.mono {place place' : Nat} {trail : List Event} (h : Near place trail)
    (le : place ≤ place') : Near place' trail := by
  intro event member
  have near := h event member
  cases event with
  | rejected name => rfl
  | backtracked index failure =>
      have low : ¬ place < failure.span.start := of_decide_eq_false near
      exact decide_eq_false (by omega)

def Low (place : Nat) (best : Option Failure) : Prop :=
  ∀ failure ∈ best, failure.span.start ≤ place

theorem low_none (place : Nat) : Low place none := fun failure member =>
  absurd member (Option.not_mem_none failure)

theorem Low.further {place : Nat} {best : Option Failure} {failure : Failure}
    (h : Low place best) (start : failure.span.start ≤ place) :
    Low place (some (Rule.further best failure)) := by
  rintro _ ⟨⟩
  cases best with
  | none => exact start
  | some best =>
      rw [Rule.further]
      split
      · exact start
      · exact h best rfl

private theorem Low.further_eq {place : Nat} {best : Option Failure} {failure : Failure}
    (h : Low place best) (beyond : place < failure.span.start) :
    Rule.further best failure = failure := by
  cases best with
  | none => rfl
  | some best => exact if_pos (Nat.lt_of_le_of_lt (h best rfl) beyond)

section Choice

variable {expected : Expectation} {cursor : Cursor}

def FailsAtOnce (rule : Rule α) (cursor : Cursor) : Prop :=
  ∃ failure, rule cursor = ⟨[], .error failure⟩ ∧
    failure.span.start ≤ cursor.current.span.start

theorem firstOfFrom_skip {skipped : List (String × Rule α)}
    (each : ∀ alternative ∈ skipped, FailsAtOnce alternative.2 cursor)
    (others : List (String × Rule α)) {best : Option Failure}
    (low : Low cursor.current.span.start best) :
    ∃ best' trail, Low cursor.current.span.start best' ∧
      Near cursor.current.span.start trail ∧
      firstOfFrom expected cursor best (skipped ++ others) =
        (firstOfFrom expected cursor best' others).behind trail := by
  induction skipped generalizing best with
  | nil => exact ⟨best, [], low, near_nil _, rfl⟩
  | cons alternative skipped ih =>
      obtain ⟨⟨failure, run, start⟩, later⟩ := List.forall_mem_cons.mp each
      obtain ⟨best', trail, low', near, rest⟩ := ih later (low.further start)
      refine ⟨best', [.backtracked cursor.index failure, .rejected alternative.1] ++ trail,
        low', (near_given_up start _ _).append near, ?_⟩
      rw [List.cons_append, firstOfFrom_cons_error run, rest, Outcome.behind_behind,
        List.nil_append]

private theorem firstOfFrom_keep {others : List (String × Rule α)}
    (each : ∀ alternative ∈ others, FailsAtOnce alternative.2 cursor) {best : Failure}
    (beyond : cursor.current.span.start < best.span.start) :
    ∃ trail, Near cursor.current.span.start trail ∧
      firstOfFrom expected cursor (some best) others = ⟨trail, .error best⟩ := by
  induction others with
  | nil => exact ⟨[], near_nil _, by simp [firstOfFrom, beyond]⟩
  | cons alternative others ih =>
      obtain ⟨⟨failure, run, start⟩, later⟩ := List.forall_mem_cons.mp each
      obtain ⟨trail, near, rest⟩ := ih later
      have kept : further (some best) failure = best := if_neg (by omega)
      refine ⟨[.backtracked cursor.index failure, .rejected alternative.1] ++ trail,
        (near_given_up start _ _).append near, ?_⟩
      rw [firstOfFrom_cons_error run, kept, rest, Outcome.behind_mk, List.nil_append]

variable {before behind : List (String × Rule α)} {name : String} {rule : Rule α}
  {trail : List Event}

private theorem firstOf_ok_alone (each : ∀ alternative ∈ before, FailsAtOnce alternative.2 cursor)
    {read : α × Cursor} (run : rule cursor = ⟨trail, .ok read⟩) :
    ∃ trail', firstOf expected (before ++ (name, rule) :: behind) cursor =
      ⟨trail', .ok read⟩ := by
  obtain ⟨best, skipped, -, -, choice⟩ := firstOfFrom_skip each ((name, rule) :: behind)
    (low_none _)
  exact ⟨skipped ++ trail, by rw [firstOf, choice, firstOfFrom_cons_ok run, Outcome.behind_mk]⟩

private theorem firstOf_error_alone
    (each : ∀ alternative ∈ before, FailsAtOnce alternative.2 cursor)
    (each' : ∀ alternative ∈ behind, FailsAtOnce alternative.2 cursor) {failure : Failure}
    (run : rule cursor = ⟨trail, .error failure⟩)
    (beyond : cursor.current.span.start < failure.span.start) :
    ∃ trail', firstOf expected (before ++ (name, rule) :: behind) cursor =
        ⟨trail', .error failure⟩ ∧ reported trail' failure = reported trail failure := by
  obtain ⟨best, skipped, low', near, choice⟩ := firstOfFrom_skip each ((name, rule) :: behind)
    (low_none _)
  obtain ⟨left, near', rest⟩ : ∃ left, Near cursor.current.span.start left ∧
      firstOfFrom expected cursor (some failure) behind = ⟨left, .error failure⟩ :=
    firstOfFrom_keep each' beyond
  -- what the choice itself leaves in the trail gets no further than the failure
  have le := Nat.le_of_lt beyond
  have own := near_given_up (Nat.le_refl failure.span.start) cursor.index name
  refine ⟨skipped ++ (trail ++ ([.backtracked cursor.index failure, .rejected name] ++ left)),
    ?_, ?_⟩
  · rw [firstOf, choice, firstOfFrom_cons_error run, low'.further_eq beyond, rest,
      Outcome.behind_mk, Outcome.behind_mk, List.append_assoc]
  · exact reported_between (near.mono le) (own.append (near'.mono le))

end Choice

private theorem complete_map (wrap : α → β) (rule : Rule α) :
    complete (wrap <$> rule) = wrap <$> complete rule := by
  have wrapped (value : α) : wrap <$> ended value = ended (wrap value) := by
    funext ⟨index, tokens⟩
    by_cases final : nextKind tokens = .eof
    · rw [ended_of_eof (wrap value) index final]
      exact map_of_ok wrap (ended_of_eof value index final)
    · rw [ended_of_ne (wrap value) index final]
      exact map_of_error wrap (ended_of_ne value index final)
  calc complete (wrap <$> rule)
      _ = rule >>= fun value => pure (wrap value) >>= ended := bind_assoc rule _ ended
      _ = rule >>= fun value => wrap <$> ended value := by simp only [pure_bind, wrapped]
      _ = wrap <$> complete rule := (bind_assoc rule ended _).symm

section Deletion

variable {delete source table filter : Token} {name : String} {tokens : List Token}

/-- The tokens in front of the condition of a deletion. -/
structure LeadsIn (delete source table filter : Token) (name : String) : Prop where
  delete : delete.kind = .keyword .DELETE
  source : source.kind = .keyword .FROM
  table : table.kind = .identifier name
  filter : filter.kind = .keyword .WHERE

private theorem deletion_run (h : LeadsIn delete source table filter name) (tokens : List Token) :
    deletion ⟨0, delete :: source :: table :: filter :: tokens⟩ =
      ((fun tree => (⟨name, some tree⟩ : Deletion)) <$> condition) ⟨4, tokens⟩ := by
  have noStar : ofKind .star (nextKind (source :: table :: filter :: tokens)) = none :=
    ofKind_eq_none.mpr (by simp [h.source])
  have named : nameOf table.kind = some name := by simp [h.table, nameOf]
  have led : ofKeyword .WHERE filter.kind = some () := by simp [h.filter, ofKeyword]
  refine (keyword_bind 0 _ h.delete).trans ?_
  refine (readIf_bind_none 1 noStar).trans ?_
  refine (keyword_bind 1 _ h.source).trans ?_
  refine (read_bind_some 2 _ (by simp [h.table]) named).trans ?_
  rw [ledBy, bind_assoc]
  refine (readIf_bind_some 3 _ (by simp [h.filter]) led).trans ?_
  simp only [bind_assoc, pure_bind]
  rfl

private theorem failsAtOnce_of_ne {word : Keyword} {token : Token}
    (other : token.kind ≠ .keyword word)
    (next : Unit → Rule α) (wrap : α → β) (index : Nat) (tokens : List Token) :
    FailsAtOnce (complete (wrap <$> (keyword word >>= next))) ⟨index, token :: tokens⟩ :=
  ⟨_, bind_of_error (bind_of_error (keyword_bind_of_ne index tokens other)), Nat.le_refl _⟩

/-- What a statement that such tokens lead in is read as, and what is reported of it, is
decided by the condition behind them. -/
theorem statement_run_deletion (h : LeadsIn delete source table filter name)
    (tokens : List Token) :
    (∀ trail tree after, complete condition ⟨4, tokens⟩ = ⟨trail, .ok (tree, after)⟩ →
      (statement.run (delete :: source :: table :: filter :: tokens)).result =
        .ok (.delete ⟨name, some tree⟩)) ∧
    ∀ trail failure, complete condition ⟨4, tokens⟩ = ⟨trail, .error failure⟩ →
      delete.span.start < failure.span.start →
      (statement.run (delete :: source :: table :: filter :: tokens)).result =
        .error (reported trail failure) := by
  let others := source :: table :: filter :: tokens
  have decided : complete (Statement.delete <$> deletion) ⟨0, delete :: others⟩ =
      (Statement.delete <$> (fun tree => (⟨name, some tree⟩ : Deletion)) <$> complete condition)
        ⟨4, tokens⟩ := by
    rw [← complete_map, ← complete_map]
    exact bind_congr (bind_congr (deletion_run h tokens))
  have apart {word : Keyword} (other : Token.Kind.keyword .DELETE ≠ .keyword word) :
      delete.kind ≠ .keyword word := h.delete ▸ other
  -- the alternatives around this one fail at the first keyword and give nothing up
  have earlier : ∀ alternative ∈ [("SELECT", complete (Statement.select <$> selection)),
      ("INSERT", complete (.insert <$> insertion)), ("UPDATE", complete (.update <$> update))],
      FailsAtOnce alternative.2 ⟨0, delete :: others⟩ := by
    simp only [List.mem_cons, List.not_mem_nil, or_false, forall_eq_or_imp, forall_eq]
    exact ⟨failsAtOnce_of_ne (apart (by decide)) _ _ _ _,
      failsAtOnce_of_ne (apart (by decide)) _ _ _ _,
      failsAtOnce_of_ne (apart (by decide)) _ _ _ _⟩
  have later : ∀ alternative ∈ [("CREATE TABLE",
      complete (Statement.createTable <$> tableDefinition)),
      ("CREATE INDEX", complete (.createIndex <$> indexDefinition))],
      FailsAtOnce alternative.2 ⟨0, delete :: others⟩ := by
    simp only [List.mem_cons, List.not_mem_nil, or_false, forall_eq_or_imp, forall_eq]
    exact ⟨failsAtOnce_of_ne (apart (by decide)) _ _ _ _,
      failsAtOnce_of_ne (apart (by decide)) _ _ _ _⟩
  constructor
  · intro trail tree after run
    have read := map_of_ok Statement.delete (map_of_ok (fun tree => ⟨name, some tree⟩) run)
    rw [← decided] at read
    obtain ⟨trail', chosen⟩ := firstOf_ok_alone earlier read
    exact run_of_ok chosen
  · intro trail failure run beyond
    have failed : complete (Statement.delete <$> deletion) ⟨0, delete :: others⟩ =
        ⟨trail, .error failure⟩ := by
      rw [decided]
      exact map_of_error _ (map_of_error _ run)
    obtain ⟨trail', chosen, same⟩ := firstOf_error_alone earlier later failed beyond
    rw [← same]
    exact run_eq_reported chosen

end Deletion

end CompactSql.Grammar
