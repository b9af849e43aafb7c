import CompactSql.Proofs.Grammar.Exact

/-!
# The failure that is reported

A reader that rejects a token list points at the first token that no accepted
list can have there.  What stands before it is viable, since each failure of a
run blames a token behind a viable row; and the run does not depend on what lies
behind the last token that is blamed, so no other end could save it.
-/

namespace CompactSql.Grammar

open Rule Grammar.Derivation

variable {α : Type}

def Accepted (read : List Token → Reading α) (row : List Token.Kind) : Prop :=
  ∃ tokens value, Terminated tokens ∧ kinds tokens = row ∧ (read tokens).result = .ok value

/-- Some accepted token list begins with these kinds. -/
def Begins (read : List Token → Reading α) (front : List Token.Kind) : Prop :=
  ∃ back, Accepted read (front ++ back)

/-- The token at the index is the first that no accepted list has there. -/
structure Hopeless (read : List Token → Reading α) (tokens : List Token) (index : Nat) :
    Prop where
  before : Begins read (kinds (tokens.take index))
  behind : ¬ Begins read (kinds (tokens.take (index + 1)))

namespace Judges

variable {rule : Rule α} {language : Language α}

theorem begins_iff (h : Judges rule language) {front : List Token.Kind} :
    Begins rule.run front ↔ ∃ row value, language row value ∧ front <+: row ++ [.eof] := by
  constructor
  · rintro ⟨back, tokens, value, terminated, split, result⟩
    obtain ⟨body, last, rfl, final, -⟩ := Terminated.iff_append.mp terminated
    refine ⟨kinds body, value, (h.run_iff body terminated value).mp result, back, ?_⟩
    simp [← split, final]
  · rintro ⟨row, value, member, back, split⟩
    have inner : .eof ∉ kinds (unplaced row) := by simpa using h.noEnd member
    have terminated : Terminated (unplaced row ++ [⟨.eof, .point 0⟩]) :=
      terminated_snoc rfl inner
    refine ⟨back, _, value, terminated, by simp [split], ?_⟩
    exact (h.run_iff _ terminated value).mpr (by simpa using member)

theorem begins_of_viable (h : Judges rule language) {front : List Token.Kind}
    (viable : language.Viable front) : Begins rule.run front := by
  obtain ⟨back, value, member⟩ := viable
  exact h.begins_iff.mpr ⟨front ++ back, value, member, back ++ [.eof], by simp⟩

private theorem not_begins (h : Judges rule language) {shared tail : List Token}
    {trail : List Event} {failure : Failure} (terminated : Terminated (shared ++ tail))
    (run : rule ⟨0, shared ++ tail⟩ = ⟨trail, .error failure⟩)
    (avoided : ∀ failure ∈ (rule ⟨0, shared ++ tail⟩).failures, avoids tail failure) :
    ¬ Begins rule.run (kinds shared) := by
  rw [h.begins_iff]
  rintro ⟨row, value, member, back, split⟩
  -- the accepted row, with the tokens that are shared at its front
  have within : (rule ⟨0, shared ++ tail⟩).Within tail := ⟨avoided, by simp [run]⟩
  have alike : Outcome.Alike tail (unplaced back) _ _ :=
    h.stable ((shared ++ tail).length + (shared ++ unplaced back).length + 1)
      (by omega) (by omega) terminated within
  rw [run] at alike
  have failed := alike.eq_error
  have ends : kinds (shared ++ unplaced back) = row ++ [.eof] := by simp [split]
  obtain ⟨body, ending, whole, rfl, single⟩ := List.map_eq_append_iff.mp ends
  obtain ⟨last, rfl, final⟩ := List.map_eq_singleton_iff.mp single
  obtain ⟨trail', found⟩ := h.complete 0 body last final member
  rw [whole, found] at failed
  cases failed

/-- If every failure of the run is about a token, the one that is reported points at
the first hopeless token. -/
theorem hopeless (h : Judges rule language) {tokens : List Token} {reported : Failure}
    (terminated : Terminated tokens)
    (ordered : tokens.Pairwise fun first second => first.span.start < second.span.start)
    (talks : ∀ failure ∈ (rule (.ofTokens tokens)).failures,
      failure.complaint.found? ≠ none)
    (result : (rule.run tokens).result = .error reported) :
    ∃ index token, tokens[index]? = some token ∧ Hopeless rule.run tokens index ∧
      Concerns token reported := by
  rcases run_cases rule (.ofTokens tokens) with
    ⟨trail, failure, run⟩ | ⟨trail, value, after, run⟩
  · obtain ⟨found, result', member, most⟩ := run_of_error run
    obtain rfl : reported = found := by simpa [result] using result'
    obtain ⟨front, token, back, rfl, concerns, viable⟩ :=
      h.blames terminated member (talks _ member)
    refine ⟨front.length, token, by simp, ⟨?_, ?_⟩, concerns⟩
    · rw [List.take_left]
      exact h.begins_of_viable viable
    · have shared : (front ++ token :: back).take (front.length + 1) = front ++ [token] := by
        simp [List.take_append, List.take_of_length_le]
      have split : front ++ token :: back = (front ++ [token]) ++ back := by simp
      rw [shared]
      rw [Cursor.ofTokens, split] at run most talks
      rw [split] at terminated
      refine h.not_begins terminated run ?_
      intro other among
      refine ⟨talks other among, ?_⟩
      intro later member' same
      -- a token of the tail begins behind the one that is reported
      have further := most other among
      rw [same, concerns.2] at further
      have behind := (List.pairwise_append.mp ordered).2.1
      have := (List.pairwise_cons.mp behind).1 later member'
      omega
  · rw [run_of_ok run] at result
    cases result

end Judges

def Quiet (rule : Rule α) : Prop := ∀ cursor, (rule cursor).trail = []

namespace Quiet

variable {β : Type}

theorem pure (value : α) : Quiet (Pure.pure value : Rule α) := fun _ => rfl

theorem bind {rule : Rule α} {next : α → Rule β} (h : Quiet rule)
    (hnext : ∀ value, Quiet (next value)) : Quiet (rule >>= next) := by
  intro cursor
  have silent := h cursor
  rcases run_cases rule cursor with ⟨trail, failure, run⟩ | ⟨trail, value, after, run⟩
  · rw [run] at silent
    rw [bind_of_error run]
    exact silent
  · rw [run] at silent
    obtain rfl : trail = [] := silent
    rw [bind_of_ok run]
    exact hnext value after

theorem read (expected : Expectation) (accept : Token.Kind → Option α) :
    Quiet (Rule.read expected accept) := by
  intro cursor
  unfold Rule.read
  split <;> rfl

theorem readIf (accept : Token.Kind → Option α) : Quiet (Rule.readIf accept) := by
  intro cursor
  unfold Rule.readIf
  split <;> rfl

theorem ledBy (word : Keyword) {item : Rule α} (h : Quiet item) :
    Quiet (Rule.ledBy word item) := by
  refine (readIf _).bind fun led => ?_
  cases led with
  | none => exact pure _
  | some _ => exact h.bind fun value => pure _

theorem repeated {lead : Token.Kind → Option β} {item : β → Rule α}
    (h : ∀ led, Quiet (item led)) : Quiet (Rule.repeated lead item) := by
  intro cursor
  induction left : cursor.rest.length using Nat.strongRecOn generalizing cursor with
  | ind left ih =>
      subst left
      rw [repeated_turn]
      cases lead cursor.current.kind with
      | none => rfl
      | some led =>
          have silent := h led cursor.advance
          rcases run_cases (item led) cursor.advance with
            ⟨trail, failure, run⟩ | ⟨trail, value, after, run⟩
          · simpa only [run] using silent
          · rw [run] at silent
            obtain rfl : trail = [] := silent
            by_cases less : after.rest.length < cursor.rest.length
            · have rest := ih _ less after rfl
              rcases run_cases (Rule.repeated lead item) after with
                ⟨trail', failure, more⟩ | ⟨trail', values, last, more⟩
              · rw [more] at rest
                simpa only [run, if_pos less, more, List.nil_append] using rest
              · rw [more] at rest
                simpa only [run, if_pos less, more, List.nil_append] using rest
            · simp only [run, if_neg less]

theorem commaList {item : Rule α} (h : Quiet item) : Quiet (Rule.commaList item) :=
  h.bind fun first => (repeated fun _ => h).bind fun others => pure (first :: others)

end Quiet

private theorem names_quiet : Quiet names :=
  (Quiet.read _ _).bind fun _ => (Quiet.read _ _).commaList.bind fun names =>
    (Quiet.read _ _).bind fun _ => .pure names

theorem tableEntry_quiet : Quiet tableEntry := by
  refine (Quiet.ledBy _ ((Quiet.readIf _).bind fun name =>
    ((Quiet.read _ _).ledBy _).bind fun method => names_quiet.bind fun _ => .pure _)).bind
      fun led => ?_
  cases led with
  | some index => exact .pure _
  | none => exact (Quiet.read _ _).bind fun name => .pure _

/-! ## Tables without a field -/

/-- The list of a table definition, in parentheses, whose entries are all indexes. -/
structure Fieldless (create table name opening : Token) (inner : List Token)
    (closing : Token) : Prop where
  create : create.kind = .keyword .CREATE
  table : table.kind = .keyword .TABLE
  name : ∃ word, name.kind = .identifier word
  opening : opening.kind = .leftParen
  inner : ∃ entries, Listed Derivation.TableEntry (kinds inner) entries ∧
    entries.filterMap TableEntry.field? = []
  closing : closing.kind = .rightParen

section Fieldless

variable {create table name opening closing : Token} {inner rest : List Token}

theorem tableDefinition_refuses (h : Fieldless create table name opening inner closing)
    (index : Nat) :
    tableDefinition
        ⟨index, create :: table :: name :: opening :: (inner ++ closing :: rest)⟩ =
      ⟨[], .error ⟨.noFields, opening.span.merge closing.span⟩⟩ := by
  obtain ⟨word, hname⟩ := h.name
  obtain ⟨entries, listed, unfilled⟩ := h.inner
  have closed : nextKind (closing :: rest) ∉ [.comma, .keyword .INDEX] := by
    rw [nextKind_cons, h.closing]
    decide
  obtain ⟨trail, list⟩ := ((tableEntry_recognizes _).commaList (by decide)).complete
    (index + 4) inner (closing :: rest) (Nat.lt_succ_self _) listed closed
  obtain rfl : trail = [] := by
    have silent := tableEntry_quiet.commaList ⟨index + 4, inner ++ closing :: rest⟩
    rwa [list] at silent
  refine (keyword_bind index _ h.create).trans ?_
  refine (keyword_bind (index + 1) _ h.table).trans ?_
  have read : nameOf name.kind = some word := by simp [hname, nameOf]
  refine (read_bind_some (index + 2) _ (by simp [hname]) read).trans ?_
  refine (here_bind _).trans ?_
  refine (symbol_bind (index + 3) _ (by decide) h.opening).trans ?_
  refine (bind_of_ok list).trans ?_
  rw [Outcome.behind_nil]
  refine (here_bind _).trans ?_
  refine (symbol_bind _ _ (by decide) h.closing).trans ?_
  exact checkFields_of_none _ unfilled _

theorem failures_of_fieldless (h : Fieldless create table name opening inner closing)
    {failure : Failure}
    (failed : failure ∈ (statement (.ofTokens
      (create :: table :: name :: opening :: (inner ++ closing :: rest)))).failures) :
    Concerns create failure ∨ Concerns table failure ∨
      failure = ⟨.noFields, opening.span.merge closing.span⟩ := by
  have first {α : Type} {word : Keyword} {next : Unit → Rule α}
      {wrap : α → CompactSql.Statement} {tokens : List Token}
      (other : Token.Kind.keyword .CREATE ≠ .keyword word)
      (among : failure ∈ (complete (wrap <$> (keyword word >>= next))
        ⟨0, create :: tokens⟩).failures) : Concerns create failure := by
    have run : complete (wrap <$> (keyword word >>= next)) ⟨0, create :: tokens⟩ = _ :=
      bind_of_error (bind_of_error (keyword_bind_of_ne 0 tokens (h.create ▸ other)))
    rw [run, Outcome.failures_error] at among
    obtain rfl := List.mem_singleton.mp among
    exact ⟨rfl, rfl⟩
  -- four alternatives fail at `CREATE`, the index at `TABLE`, and the table refuses its list
  rcases mem_failures_firstOfFrom failed with ⟨alternative, member, among⟩ | rfl | none
  · simp only [List.mem_cons, List.not_mem_nil, or_false] at member
    rcases member with rfl | rfl | rfl | rfl | rfl | rfl
    · exact .inl (first (by decide) among)
    · exact .inl (first (by decide) among)
    · exact .inl (first (by decide) among)
    · exact .inl (first (by decide) among)
    · change failure ∈ (wholeTable ⟨0, create :: table :: name :: opening ::
        (inner ++ closing :: rest)⟩).failures at among
      rw [wholeTable_of_error (tableDefinition_refuses h 0), Outcome.failures_error] at among
      exact .inr (.inr (List.mem_singleton.mp among))
    · have refused : (Token.Kind.keyword .TABLE) ≠ .keyword .INDEX := by decide
      have run : complete (Statement.createIndex <$> indexDefinition) ⟨0, create :: table ::
          name :: opening :: (inner ++ closing :: rest)⟩ = _ :=
        bind_of_error (bind_of_error ((keyword_bind 0 _ h.create).trans
          (keyword_bind_of_ne 1 _ (h.table ▸ refused))))
      change failure ∈ (complete (Statement.createIndex <$> indexDefinition) ⟨0, create ::
        table :: name :: opening :: (inner ++ closing :: rest)⟩).failures at among
      rw [run, Outcome.failures_error] at among
      obtain rfl := List.mem_singleton.mp among
      exact .inr (.inl ⟨rfl, rfl⟩)
  · exact .inl ⟨rfl, rfl⟩
  · cases none

end Fieldless

private theorem fieldless_of_refused {index : Nat} {tokens : List Token} {trail : List Event}
    {table : String} {entries : List TableEntry} {after : Cursor}
    (read : tableBody ⟨index, tokens⟩ = ⟨trail, .ok ((table, entries), after)⟩)
    (unfilled : entries.filterMap TableEntry.field? = []) :
    ∃ create table name opening inner closing rest,
      tokens = create :: table :: name :: opening :: (inner ++ closing :: rest) ∧
        Fieldless create table name opening inner closing := by
  obtain ⟨front, rest, rfl, -, member⟩ :=
    (tableBody_recognizes _).sound (Nat.lt_succ_self _) read
  generalize split : kinds front = row at member
  obtain ⟨_, listed⟩ := member
  obtain ⟨create, front, rfl, hcreate, split⟩ := List.map_eq_cons_iff.mp split
  obtain ⟨second, front, rfl, hsecond, split⟩ := List.map_eq_cons_iff.mp split
  obtain ⟨name, front, rfl, hname, split⟩ := List.map_eq_cons_iff.mp split
  obtain ⟨opening, front, rfl, hopening, split⟩ := List.map_eq_cons_iff.mp split
  obtain ⟨inner, ending, rfl, hinner, split⟩ := List.map_eq_append_iff.mp split
  obtain ⟨closing, rfl, hclosing⟩ := List.map_eq_singleton_iff.mp split
  refine ⟨create, second, name, opening, inner, closing, rest, by simp, hcreate, hsecond,
    ⟨_, hname⟩, hopening, ⟨entries, ?_, unfilled⟩, hclosing⟩
  rwa [← hinner] at listed

theorem statement_failures {motive : Prop} {cursor : Cursor} {failure : Failure}
    (failed : failure ∈ (statement cursor).failures)
    (part : ∀ {α : Type} {rule : Rule α} {language : Language α}
      {wrap : α → CompactSql.Statement},
      (∀ bound, Recognizes bound rule language statementExtending) →
      (∀ row read, language row read → Derivation.Statement Condition row (wrap read)) →
      failure ∈ (complete (wrap <$> rule) cursor).failures → motive)
    (table : failure ∈ (wholeTable cursor).failures → motive)
    (own : failure = .unexpected .statement cursor.current → motive) : motive := by
  rcases mem_failures_firstOfFrom failed with ⟨alternative, member, among⟩ | rfl | none
  · simp only [List.mem_cons, List.not_mem_nil, or_false] at member
    rcases member with rfl | rfl | rfl | rfl | rfl | rfl
    · exact part selection_recognizes (fun _ _ => .select) among
    · exact part insertion_recognizes (fun _ _ => .insert) among
    · exact part update_recognizes (fun _ _ => .update) among
    · exact part deletion_recognizes (fun _ _ => .delete) among
    · exact table among
    · exact part indexDefinition_recognizes (fun _ _ => .createIndex) among
  · exact own rfl
  · cases none

theorem fieldless_of_silent {tokens : List Token} {failure : Failure}
    (terminated : Terminated tokens)
    (failed : failure ∈ (statement (.ofTokens tokens)).failures)
    (silent : failure.complaint.found? = none) :
    ∃ create table name opening inner closing rest,
      tokens = create :: table :: name :: opening :: (inner ++ closing :: rest) ∧
        Fieldless create table name opening inner closing := by
  refine statement_failures failed (fun recognized _ among => ?_) (fun among => ?_) ?_
  · obtain ⟨front, token, back, -, concerns, -⟩ :=
      complete_blames (fun bound => (recognized bound).map _) terminated among
    rw [concerns.1] at silent
    cases silent
  · rcases mem_failures_wholeTable terminated among with
      inner | ⟨-, _, table, entries, after, read, unfilled⟩ | ⟨_, token, _, _, -, rfl, -⟩
    · obtain ⟨front, token, back, expected, -, rfl, -⟩ :=
        (tableBody_recognizes _).blames (Nat.lt_succ_self _) terminated inner
      cases silent
    · exact fieldless_of_refused read unfilled
    · cases silent
  · rintro rfl
    cases silent

section Fieldless

variable {create table name opening closing : Token} {inner rest : List Token}

theorem Fieldless.hopeless (h : Fieldless create table name opening inner closing) :
    Hopeless statement.run
      (create :: table :: name :: opening :: (inner ++ closing :: rest))
      (inner.length + 4) := by
  obtain ⟨word, hname⟩ := h.name
  obtain ⟨entries, listed, unfilled⟩ := h.inner
  have front : kinds (create :: table :: name :: opening :: inner) =
      .keyword .CREATE :: .keyword .TABLE :: .identifier word :: .leftParen ::
        kinds inner := by
    simp [h.create, h.table, hname, h.opening]
  constructor
  -- before the parenthesis a field can still follow
  · have viable : Language.Viable Derivation.TableDefinition
        (kinds (create :: table :: name :: opening :: inner)) := by
      have body : TableBody (kinds (create :: table :: name :: opening :: inner) ++
          [.rightParen]) (word, entries) := by
        rw [front]
        exact .create word listed
      exact viable_of_body body (List.cons_ne_nil _ _)
    obtain ⟨back, definition, derived⟩ := viable
    have taken : (create :: table :: name :: opening :: (inner ++ closing :: rest)).take
        (inner.length + 4) = create :: table :: name :: opening :: inner := by
      simp
    rw [taken]
    exact statement_judges.begins_of_viable ⟨back, _, .createTable derived⟩
  · have taken : (create :: table :: name :: opening :: (inner ++ closing :: rest)).take
        (inner.length + 4 + 1) =
          (create :: table :: name :: opening :: inner) ++ [closing] := by
      simp [List.take_append, List.take_of_length_le]
    rw [taken, kinds_append, front, statement_judges.begins_iff]
    rintro ⟨row, tree, member, back, split⟩
    cases member with
    | select derived | insert derived | update derived | delete derived
    | createIndex derived => cases derived <;> simp at split
    | createTable derived =>
        obtain ⟨_, listed', filled⟩ := derived
        simp only [List.cons_append, List.cons.injEq, List.append_assoc] at split
        -- a definition that goes on here lists these entries, but one of its own is a field
        have read := Recognizes.unambiguous
          (fun bound => (tableEntry_recognizes bound).commaList (by decide)) listed listed'
          split.2.2.2.2 (by simp [h.closing]) (by simp)
        exact filled (read ▸ unfilled)

end Fieldless

end CompactSql.Grammar
