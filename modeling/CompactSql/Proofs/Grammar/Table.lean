import CompactSql.Proofs.Grammar.Whole

/-!
# Tables need a field

A table definition runs like its body, but for a check behind the closing
parenthesis that at least one entry is a field.  Up to that parenthesis a field
can still follow, so the check blames nothing before it.
-/

namespace CompactSql.Grammar

open Rule Grammar.Derivation

variable {α β : Type}

inductive Checked : Outcome (String × List TableEntry) →
    Outcome CompactSql.TableDefinition → Prop
  | error (trail : List Event) (failure : Failure) :
      Checked ⟨trail, .error failure⟩ ⟨trail, .error failure⟩
  | ok (trail : List Event) (table : String) (entries : List TableEntry) (after : Cursor)
      (span : Span) :
      Checked ⟨trail, .ok ((table, entries), after)⟩
        ((checkFields table entries span after).behind trail)

theorem Checked.bind {rule : Rule α} {next : α → Rule (String × List TableEntry)}
    {next' : α → Rule CompactSql.TableDefinition}
    (h : ∀ value after, Checked (next value after) (next' value after)) (cursor : Cursor) :
    Checked ((rule >>= next) cursor) ((rule >>= next') cursor) := by
  rcases run_cases rule cursor with ⟨trail, failure, run⟩ | ⟨trail, value, after, run⟩
  · rw [bind_of_error run, bind_of_error run]
    exact .error trail failure
  · rw [bind_of_ok run, bind_of_ok run]
    have inner := h value after
    generalize next value after = first at inner
    generalize next' value after = second at inner
    cases inner with
    | error trail' failure => exact .error _ _
    | ok trail' table entries last span =>
        rw [Outcome.behind_behind]
        exact .ok _ table entries last span

theorem tableDefinition_checked (cursor : Cursor) :
    Checked (tableBody cursor) (tableDefinition cursor) := by
  refine Checked.bind (fun _ _ => ?_) cursor
  refine Checked.bind (fun _ _ => ?_) _
  refine Checked.bind (fun table place => ?_) _
  change Checked _ (Outcome.behind [] _)
  rw [Outcome.behind_nil]
  refine Checked.bind (fun _ _ => ?_) _
  refine Checked.bind (fun entries place' => ?_) _
  change Checked _ (Outcome.behind [] _)
  rw [Outcome.behind_nil]
  refine Checked.bind (fun _ after => ?_) _
  exact .ok [] table entries after _

theorem checkFields_of_none {table : String} {entries : List TableEntry} (span : Span)
    (unfilled : entries.filterMap TableEntry.field? = []) (cursor : Cursor) :
    checkFields table entries span cursor = ⟨[], .error ⟨.noFields, span⟩⟩ := by
  simp [checkFields, unfilled, fail]

private theorem checkFields_of_some {table : String} {entries : List TableEntry} (span : Span)
    (filled : entries.filterMap TableEntry.field? ≠ []) (cursor : Cursor) :
    checkFields table entries span cursor =
      ⟨[], .ok (⟨table, entries.filterMap TableEntry.field?,
        entries.filterMap TableEntry.index?⟩, cursor)⟩ := by
  simp [checkFields, filled, pure_apply]

/-- A run of the definition is a refused body, or it is the run of the body. -/
theorem tableDefinition_cases (cursor : Cursor) :
    (∃ trail failure, tableBody cursor = ⟨trail, .error failure⟩ ∧
      tableDefinition cursor = ⟨trail, .error failure⟩) ∨
    (∃ trail table entries after span,
      tableBody cursor = ⟨trail, .ok ((table, entries), after)⟩ ∧
      entries.filterMap TableEntry.field? = [] ∧
      tableDefinition cursor = ⟨trail, .error ⟨.noFields, span⟩⟩) ∨
    ∃ trail table entries after,
      tableBody cursor = ⟨trail, .ok ((table, entries), after)⟩ ∧
      entries.filterMap TableEntry.field? ≠ [] ∧
      tableDefinition cursor =
        ⟨trail, .ok (⟨table, entries.filterMap TableEntry.field?,
          entries.filterMap TableEntry.index?⟩, after)⟩ := by
  have checked := tableDefinition_checked cursor
  generalize tableBody cursor = first at checked ⊢
  generalize tableDefinition cursor = second at checked ⊢
  cases checked with
  | error trail failure => exact .inl ⟨trail, failure, rfl, rfl⟩
  | ok trail table entries after span =>
      by_cases none : entries.filterMap TableEntry.field? = []
      · refine .inr (.inl ⟨trail, table, entries, after, span, rfl, none, ?_⟩)
        rw [checkFields_of_none span none, Outcome.behind_mk, List.append_nil]
      · refine .inr (.inr ⟨trail, table, entries, after, rfl, none, ?_⟩)
        rw [checkFields_of_some span none, Outcome.behind_mk, List.append_nil]

/-! ## Judging definitions -/

private theorem Derivation.Listed.snoc {item : Language α} {row others : List Token.Kind}
    {values : List α} {value : α} (h : Listed item row values) (last : item others value) :
    Listed item (row ++ .comma :: others) (values ++ [value]) := by
  induction h with
  | one member => exact .more member (.one last)
  | more member _ ih => simpa using Listed.more member ih

theorem viable_of_body {front back : List Token.Kind} {body : String × List TableEntry}
    (member : TableBody (front ++ back) body) (more : back ≠ []) :
    Language.Viable Derivation.TableDefinition front := by
  obtain ⟨back, last, rfl⟩ : ∃ inner last, back = inner ++ [last] :=
    ⟨_, _, (List.dropLast_concat_getLast more).symm⟩
  rw [← List.append_assoc] at member
  generalize whole : front ++ back ++ [last] = row at member
  cases member with
  | @create table row entries listed =>
      have split : front ++ back ++ [last] =
          (.keyword .CREATE :: .keyword .TABLE :: .identifier table :: .leftParen :: row) ++
            [.rightParen] := whole
      obtain ⟨before, -⟩ := List.append_inj' split rfl
      have extended := Derivation.TableDefinition.create table
        (listed.snoc (.field "")) (by simp [TableEntry.field?])
      have same : front ++ (back ++ [.comma, .identifier "", .rightParen]) =
          .keyword .CREATE :: .keyword .TABLE :: .identifier table :: .leftParen ::
            (row ++ .comma :: [.identifier ""] ++ [.rightParen]) := by
        rw [← List.append_assoc, before]
        simp
      exact ⟨_, _, same ▸ extended⟩

theorem tableDefinition_iff (row : List Token.Kind) (table : CompactSql.TableDefinition) :
    Derivation.TableDefinition row table ↔
      ∃ name entries, TableBody row (name, entries) ∧
        entries.filterMap TableEntry.field? ≠ [] ∧
        table = ⟨name, entries.filterMap TableEntry.field?,
          entries.filterMap TableEntry.index?⟩ := by
  constructor
  · rintro ⟨name, listed, filled⟩
    exact ⟨name, _, .create name listed, filled, rfl⟩
  · rintro ⟨name, entries, ⟨_, listed⟩, filled, rfl⟩
    exact .create name listed filled

def wholeTable : Rule CompactSql.Statement :=
  complete (.createTable <$> tableDefinition)

inductive TableStatement : Language CompactSql.Statement
  | table {row : List Token.Kind} {table : CompactSql.TableDefinition} :
      Derivation.TableDefinition row table → TableStatement row (.createTable table)

theorem wholeTable_of_error {cursor : Cursor} {trail : List Event} {failure : Failure}
    (run : tableDefinition cursor = ⟨trail, .error failure⟩) :
    wholeTable cursor = ⟨trail, .error failure⟩ :=
  bind_of_error (bind_of_error run)

theorem wholeTable_of_ok {cursor after : Cursor} {trail : List Event}
    {table : CompactSql.TableDefinition}
    (run : tableDefinition cursor = ⟨trail, .ok (table, after)⟩) :
    wholeTable cursor = (ended (.createTable table) after).behind trail :=
  bind_of_ok (map_of_ok _ run)

theorem wholeTable_sound {index : Nat} {tokens : List Token} {trail : List Event}
    {tree : CompactSql.Statement} {after : Cursor} (terminated : Terminated tokens)
    (run : wholeTable ⟨index, tokens⟩ = ⟨trail, .ok (tree, after)⟩) :
    ∃ body last, tokens = body ++ [last] ∧ after = ⟨index + body.length, [last]⟩ ∧
      TableStatement (kinds body) tree := by
  rcases tableDefinition_cases ⟨index, tokens⟩ with ⟨_, failure, -, failed⟩ |
    ⟨_, name, entries, _, span, -, -, failed⟩ |
    ⟨trail', name, entries, ⟨index', rest⟩, read, filled, found⟩
  · rw [wholeTable_of_error failed] at run
    cases run
  · rw [wholeTable_of_error failed] at run
    cases run
  · obtain ⟨front, back, rfl, stopped, member⟩ :=
      (tableBody_recognizes _).sound (Nat.lt_succ_self _) read
    obtain ⟨rfl, rfl⟩ : index' = index + front.length ∧ rest = back := by
      simpa using stopped
    rw [wholeTable_of_ok found] at run
    obtain ⟨_, last, -⟩ := Outcome.behind_eq run
    by_cases final : nextKind rest = .eof
    · rw [ended_of_eof _ _ final] at last
      cases last
      have inner := (tableBody_recognizes 0).noEnd member
      obtain ⟨token, rfl, -⟩ := (terminated.of_append inner).eq_singleton final
      exact ⟨front, token, rfl, rfl,
        .table ((tableDefinition_iff _ _).mpr ⟨name, entries, member, filled, rfl⟩)⟩
    · rw [ended_of_ne _ _ final] at last
      cases last

theorem wholeTable_complete (index : Nat) (body : List Token) (last : Token)
    {tree : CompactSql.Statement} (final : last.kind = .eof)
    (member : TableStatement (kinds body) tree) :
    ∃ trail, wholeTable ⟨index, body ++ [last]⟩ =
      ⟨trail, .ok (tree, ⟨index + body.length, [last]⟩)⟩ := by
  obtain ⟨derived⟩ := member
  obtain ⟨name, entries, whole, filled, rfl⟩ := (tableDefinition_iff _ _).mp derived
  have closed : nextKind [last] ∉ statementExtending := by
    rw [nextKind_cons, final]
    decide
  obtain ⟨trail, run⟩ := (tableBody_recognizes _).complete index body [last]
    (Nat.lt_succ_self _) whole closed
  rcases tableDefinition_cases ⟨index, body ++ [last]⟩ with ⟨_, failure, failed, -⟩ |
    ⟨_, name', entries', _, span, read, none, -⟩ |
    ⟨trail', name', entries', after, read, -, found⟩
  · simp [run] at failed
  · rw [run] at read
    cases read
    exact absurd none filled
  · rw [run] at read
    cases read
    refine ⟨trail, ?_⟩
    rw [wholeTable_of_ok found, ended_of_eof _ _ (show nextKind [last] = .eof from final),
      Outcome.behind_mk, List.append_nil]

theorem mem_failures_wholeTable {index : Nat} {tokens : List Token} {failure : Failure}
    (terminated : Terminated tokens)
    (failed : failure ∈ (wholeTable ⟨index, tokens⟩).failures) :
    failure ∈ (tableBody ⟨index, tokens⟩).failures ∨
      (failure.complaint = .noFields ∧ ∃ trail name entries after,
        tableBody ⟨index, tokens⟩ = ⟨trail, .ok ((name, entries), after)⟩ ∧
          entries.filterMap TableEntry.field? = []) ∨
      ∃ front token back tree, tokens = front ++ token :: back ∧
        failure = .trailing token ∧ TableStatement (kinds front) tree := by
  rcases tableDefinition_cases ⟨index, tokens⟩ with ⟨trail, final, read, refused⟩ |
    ⟨trail, name, entries, after, span, read, unfilled, refused⟩ |
    ⟨trail, name, entries, ⟨index', rest⟩, read, filled, passed⟩
  · rw [wholeTable_of_error refused] at failed
    exact .inl (read ▸ failed)
  · rw [wholeTable_of_error refused, Outcome.failures_error, List.mem_append] at failed
    rcases failed with early | late
    · exact .inl (by rwa [read, Outcome.failures_ok])
    · obtain rfl := List.mem_singleton.mp late
      exact .inr (.inl ⟨rfl, trail, name, entries, after, read, unfilled⟩)
  · rw [wholeTable_of_ok passed, Outcome.failures_behind, List.mem_append] at failed
    rcases failed with early | late
    · exact .inl (by rwa [read, Outcome.failures_ok])
    · obtain ⟨front, back, rfl, stopped, member⟩ :=
        (tableBody_recognizes _).sound (Nat.lt_succ_self _) read
      obtain ⟨rfl, rfl⟩ : index' = index + front.length ∧ rest = back := by
        simpa using stopped
      have remaining := terminated.of_append ((tableBody_recognizes 0).noEnd member)
      obtain ⟨token, back, rfl, trailing⟩ := trailing_of_ended _ remaining late
      have derived := (tableDefinition_iff _ _).mpr ⟨name, entries, member, filled, rfl⟩
      exact .inr (.inr ⟨front, token, back, _, rfl, trailing, .table derived⟩)

theorem wholeTable_blames {index : Nat} {tokens : List Token} {failure : Failure}
    (terminated : Terminated tokens)
    (failed : failure ∈ (wholeTable ⟨index, tokens⟩).failures)
    (found : failure.complaint.found? ≠ none) :
    ∃ front token back, tokens = front ++ token :: back ∧ Concerns token failure ∧
      Language.Viable TableStatement (kinds front) := by
  rcases mem_failures_wholeTable terminated failed with
    among | ⟨silent, -⟩ | ⟨front, token, back, tree, split, rfl, derived⟩
  · obtain ⟨front, token, back, expected, split, rfl, ⟨kind, admitted⟩, all⟩ :=
      (tableBody_recognizes _).blames (Nat.lt_succ_self _) terminated among
    obtain ⟨rest, body, member⟩ := all kind admitted
    rw [List.append_assoc] at member
    obtain ⟨more, table, derived⟩ := viable_of_body member (by simp)
    exact ⟨front, token, back, split, ⟨rfl, rfl⟩, more, _, .table derived⟩
  · rw [silent] at found
    exact absurd rfl found
  · exact ⟨front, token, back, split, ⟨rfl, rfl⟩, [], tree, by simpa using derived⟩

/-! ## Stability -/

/-- The check and the end of the input, without the span of a refusal. -/
def afterBody (body : String × List TableEntry) : Rule CompactSql.Statement :=
  if body.2.filterMap TableEntry.field? = [] then fail ⟨.noFields, .point 0⟩
  else ended (.createTable ⟨body.1, body.2.filterMap TableEntry.field?,
    body.2.filterMap TableEntry.index?⟩)

theorem wholeTable_cases (cursor : Cursor) :
    wholeTable cursor = (tableBody >>= afterBody) cursor ∨
      ∃ trail span, wholeTable cursor = ⟨trail, .error ⟨.noFields, span⟩⟩ ∧
        (tableBody >>= afterBody) cursor = ⟨trail, .error ⟨.noFields, .point 0⟩⟩ := by
  rcases tableDefinition_cases cursor with ⟨trail, final, read, refused⟩ |
    ⟨trail, name, entries, after, span, read, unfilled, refused⟩ |
    ⟨trail, name, entries, after, read, filled, passed⟩
  · left
    rw [wholeTable_of_error refused, bind_of_error read]
  · refine .inr ⟨trail, span, wholeTable_of_error refused, ?_⟩
    rw [bind_of_ok read, afterBody, if_pos unfilled, fail, Outcome.behind_mk, List.append_nil]
  · left
    rw [wholeTable_of_ok passed, bind_of_ok read, afterBody, if_neg filled]

private theorem fail_looks {failure : Failure} (silent : failure.complaint.found? = none)
    (bound : Nat) : Looks bound (fail failure : Rule α) := by
  intro index tokens gap _ _ within
  exact (within.1 failure (List.mem_singleton_self _)).1 silent

private theorem fail_stable {failure : Failure} (silent : failure.complaint.found? = none)
    (bound : Nat) : Stable bound (fail failure : Rule α) := by
  intro index shared tail tail' _ _ _ within
  exact absurd silent (within.1 failure (List.mem_singleton_self _)).1

private theorem afterBody_stable (bound : Nat) : Stable bound (tableBody >>= afterBody) := by
  refine (tableBody_recognizes bound).stable_bind ?_ ?_ fun _ _ _ =>
    Nat.le_add_right bound _
  · intro body
    unfold afterBody
    split
    · exact fail_stable rfl bound
    · exact ended_stable _ bound
  · intro body
    unfold afterBody
    split
    · exact fail_looks rfl bound
    · exact ended_looks _ bound

theorem wholeTable_stable (bound : Nat) : Stable bound wholeTable := by
  intro index shared tail tail' short short' terminated within
  rcases wholeTable_cases ⟨index, shared ++ tail⟩ with same | ⟨trail, span, refused, -⟩
  · rw [same] at within ⊢
    have alike : Outcome.Alike tail tail' _ _ :=
      afterBody_stable bound short short' terminated within
    rcases wholeTable_cases ⟨index, shared ++ tail'⟩ with same' | ⟨trail, span, -, refused⟩
    · rwa [same']
    · -- a refusal behind the other tail would be one here as well
      rw [refused] at alike
      generalize (tableBody >>= afterBody) ⟨index, shared ++ tail⟩ = first at alike within
      cases alike
      have avoided := within.1 ⟨.noFields, .point 0⟩ (by simp [Outcome.failures])
      exact absurd rfl avoided.1
  · rw [refused] at within
    have avoided := within.1 ⟨.noFields, span⟩ (by simp [Outcome.failures])
    exact absurd rfl avoided.1

theorem wholeTable_judges : Judges wholeTable TableStatement where
  noEnd := by
    rintro row tree ⟨derived⟩
    obtain ⟨name, entries, member, -⟩ := (tableDefinition_iff _ _).mp derived
    exact (tableBody_recognizes 0).noEnd member
  sound := wholeTable_sound
  complete := fun index body last _ => wholeTable_complete index body last
  blames := wholeTable_blames
  stable := wholeTable_stable

end CompactSql.Grammar
