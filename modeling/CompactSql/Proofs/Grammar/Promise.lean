import CompactSql.Proofs.Grammar.Report

/-!
# Kept promises

A failure that expects something stands behind a row of kinds, and each kind that the
expectation admits goes on to an accepted row.  The parenthesis behind the entries of a
table is the exception: it is expected also where all entries are indexes, and no
accepted row has it there.
-/

namespace CompactSql.Grammar

open Rule Grammar.Derivation

variable {α : Type}

/-- Some member of the language begins so, its end being counted as a kind. -/
def Language.Opens (language : Language α) (front : List Token.Kind) : Prop :=
  ∃ row value, language row value ∧ front <+: row ++ [.eof]

namespace Language

variable {language larger : Language α} {front : List Token.Kind}

theorem Viable.opens (h : language.Viable front) : language.Opens front := by
  obtain ⟨back, value, member⟩ := h
  exact ⟨front ++ back, value, member, back ++ [.eof], by simp⟩

theorem Opens.of_member {value : α} (h : language front value) :
    language.Opens (front ++ [.eof]) :=
  ⟨front, value, h, List.prefix_refl _⟩

theorem Opens.mono (sub : ∀ row value, language row value → larger row value)
    (h : language.Opens front) : larger.Opens front := by
  obtain ⟨row, value, member, begins⟩ := h
  exact ⟨row, value, sub row value member, begins⟩

end Language

theorem complete_promises {rule : Rule α} {language : Language α}
    {extending : List Token.Kind} (h : ∀ bound, Recognizes bound rule language extending)
    {index : Nat} {tokens : List Token} {failure : Failure} (terminated : Terminated tokens)
    (failed : failure ∈ (complete rule ⟨index, tokens⟩).failures) :
    ∃ front token back expected, tokens = front ++ token :: back ∧ Concerns token failure ∧
      failure.complaint.expected? = some expected ∧
      ∀ kind, expected.Admits kind → language.Opens (kinds front ++ [kind]) := by
  rcases mem_failures_complete h terminated failed with
    inner | ⟨front, token, back, value, split, rfl, member⟩
  · obtain ⟨front, token, back, expected, split, rfl, expects⟩ :=
      (h _).blames (Nat.lt_succ_self _) terminated inner
    exact ⟨front, token, back, expected, split, ⟨rfl, rfl⟩, rfl,
      fun kind admitted => (expects.2 kind admitted).opens⟩
  · refine ⟨front, token, back, .endOfInput, split, ⟨rfl, rfl⟩, rfl, ?_⟩
    rintro _ rfl
    exact .of_member member

/-- A definition of a table up to the end of its list, all entries being indexes. -/
def IndexesAlone (front : List Token.Kind) : Prop :=
  ∃ table row entries, front = .keyword .CREATE :: .keyword .TABLE :: .identifier table ::
      .leftParen :: row ∧
    Listed Derivation.TableEntry row entries ∧ entries.filterMap TableEntry.field? = []

private theorem tableBody_viable {front : List Token.Kind} {kind : Token.Kind}
    (h : Language.Viable TableBody (front ++ [kind])) :
    Language.Viable Derivation.TableDefinition (front ++ [kind]) ∨
      kind = .rightParen ∧ IndexesAlone front := by
  obtain ⟨back, body, member⟩ := h
  by_cases more : back = []
  · subst more
    rw [List.append_nil] at member
    generalize whole : front ++ [kind] = row at member ⊢
    cases member with
    | @create table row entries listed =>
        have ends : front ++ [kind] = (.keyword .CREATE :: .keyword .TABLE ::
            .identifier table :: .leftParen :: row) ++ [.rightParen] := by simpa using whole
        obtain ⟨rfl, last⟩ := List.append_inj' ends rfl
        by_cases filled : entries.filterMap TableEntry.field? = []
        · exact .inr ⟨List.singleton_inj.mp last, table, row, entries, rfl, listed, filled⟩
        · have derived := Derivation.TableDefinition.create table listed filled
          exact .inl ⟨[], _, by simpa using derived⟩
  · exact .inl (viable_of_body member more)

theorem wholeTable_promises {index : Nat} {tokens : List Token} {failure : Failure}
    {expected : Expectation} (terminated : Terminated tokens)
    (failed : failure ∈ (wholeTable ⟨index, tokens⟩).failures)
    (expects : failure.complaint.expected? = some expected) :
    ∃ front token back, tokens = front ++ token :: back ∧ Concerns token failure ∧
      ∀ kind, expected.Admits kind → Language.Opens TableStatement (kinds front ++ [kind]) ∨
        kind = .rightParen ∧ IndexesAlone (kinds front) := by
  rcases mem_failures_wholeTable terminated failed with
    among | ⟨silent, -⟩ | ⟨front, token, back, tree, split, rfl, derived⟩
  · obtain ⟨front, token, back, expected', split, rfl, -, all⟩ :=
      (tableBody_recognizes _).blames (Nat.lt_succ_self _) terminated among
    obtain rfl : expected' = expected := Option.some.inj expects
    refine ⟨front, token, back, split, ⟨rfl, rfl⟩, fun kind admitted => ?_⟩
    refine (tableBody_viable (all kind admitted)).imp_left ?_
    rintro ⟨more, table, derived⟩
    exact Language.Viable.opens ⟨more, _, .table derived⟩
  · rw [silent] at expects
    cases expects
  · obtain rfl : Expectation.endOfInput = expected := Option.some.inj expects
    refine ⟨front, token, back, split, ⟨rfl, rfl⟩, ?_⟩
    rintro _ rfl
    exact .inl (.of_member derived)

theorem statement_opens {kind : Token.Kind} (admitted : Expectation.statement.Admits kind) :
    (Derivation.Statement Condition).Opens [kind] := by
  have begun {row : List Token.Kind} {tree : CompactSql.Statement}
      (derived : Derivation.Statement Condition row tree) (leading : [kind] <+: leads tree) :
      (Derivation.Statement Condition).Opens [kind] := by
    have starts : [kind] <+: row := leading.trans (leads_begin derived)
    exact ⟨row, tree, derived, starts.trans (List.prefix_append _ _)⟩
  simp only [Expectation.Admits, List.mem_cons, List.not_mem_nil, or_false] at admitted
  rcases admitted with rfl | rfl | rfl | rfl | rfl
  · obtain ⟨row, tree, derived⟩ := (selection_recognizes 0).productive
    exact begun (.select derived) (List.prefix_refl _)
  · obtain ⟨row, tree, derived⟩ := (insertion_recognizes 0).productive
    exact begun (.insert derived) (List.prefix_refl _)
  · obtain ⟨row, tree, derived⟩ := (update_recognizes 0).productive
    exact begun (.update derived) (List.prefix_refl _)
  · obtain ⟨row, tree, derived⟩ := (deletion_recognizes 0).productive
    exact begun (.delete derived) (List.prefix_refl _)
  · obtain ⟨row, tree, derived⟩ := (indexDefinition_recognizes 0).productive
    exact begun (.createIndex derived) (List.prefix_append [_] [_])

theorem statement_promises {tokens : List Token} {failure : Failure} {expected : Expectation}
    (terminated : Terminated tokens)
    (failed : failure ∈ (statement (.ofTokens tokens)).failures)
    (expects : failure.complaint.expected? = some expected) :
    ∃ front token back, tokens = front ++ token :: back ∧ Concerns token failure ∧
      ∀ kind, expected.Admits kind →
        (Derivation.Statement Condition).Opens (kinds front ++ [kind]) ∨
          kind = .rightParen ∧ IndexesAlone (kinds front) := by
  refine statement_failures failed (fun recognized sub among => ?_) (fun among => ?_) ?_
  · obtain ⟨front, token, back, expected', split, concerns, expects', all⟩ :=
      complete_promises (fun bound => (recognized bound).map _) terminated among
    obtain rfl : expected = expected' := Option.some.inj (expects.symm.trans expects')
    refine ⟨front, token, back, split, concerns, fun kind admitted => .inl ?_⟩
    refine (all kind admitted).mono ?_
    rintro row _ ⟨read, member, rfl⟩
    exact sub row read member
  · obtain ⟨front, token, back, split, concerns, all⟩ :=
      wholeTable_promises terminated among expects
    refine ⟨front, token, back, split, concerns, fun kind admitted => ?_⟩
    refine (all kind admitted).imp_left fun opens => opens.mono ?_
    rintro row _ ⟨derived⟩
    exact .createTable derived
  · rintro rfl
    obtain rfl : Expectation.statement = expected := Option.some.inj expects
    cases tokens with
    | nil => cases terminated
    | cons token rest =>
        exact ⟨[], token, rest, rfl, ⟨rfl, rfl⟩,
          fun kind admitted => .inl (statement_opens admitted)⟩

theorem IndexesAlone.not_begins {front : List Token.Kind} (h : IndexesAlone front) :
    ¬ Begins statement.run (front ++ [.rightParen]) := by
  obtain ⟨table, row, entries, rfl, listed, unfilled⟩ := h
  have fieldless : Fieldless ⟨.keyword .CREATE, .point 0⟩ ⟨.keyword .TABLE, .point 0⟩
      ⟨.identifier table, .point 0⟩ ⟨.leftParen, .point 0⟩ (unplaced row)
      ⟨.rightParen, .point 0⟩ :=
    ⟨rfl, rfl, ⟨table, rfl⟩, rfl, ⟨entries, by simpa using listed, unfilled⟩, rfl⟩
  have lost : Hopeless readStatement (⟨.keyword .CREATE, .point 0⟩ ::
      ⟨.keyword .TABLE, .point 0⟩ :: ⟨.identifier table, .point 0⟩ :: ⟨.leftParen, .point 0⟩ ::
      (unplaced row ++ [⟨.rightParen, .point 0⟩])) ((unplaced row).length + 4) :=
    fieldless.hopeless
  have behind := lost.behind
  have whole : kinds (List.take ((unplaced row).length + 4 + 1)
      (⟨.keyword .CREATE, .point 0⟩ :: ⟨.keyword .TABLE, .point 0⟩ ::
        ⟨.identifier table, .point 0⟩ :: ⟨.leftParen, .point 0⟩ ::
        (unplaced row ++ [⟨.rightParen, .point 0⟩]))) =
      (.keyword .CREATE :: .keyword .TABLE :: .identifier table :: .leftParen :: row) ++
        [.rightParen] := by
    simp [List.take_of_length_le]
  rwa [whole] at behind

end CompactSql.Grammar
