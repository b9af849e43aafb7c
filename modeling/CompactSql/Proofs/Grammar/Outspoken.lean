import CompactSql.Proofs.Grammar.Choice

/-!
# Outspoken rules

The alternatives of a value fail with expectations of their own, an integer or a string,
which are no news: where no value begins, the choice between them announces a value.
Such a failure is outdone by a later one of the run, which can be announced and got as
far.  A rule that leaves its failures in this way is outspoken, and the ways to build a
rule keep it so.
-/

namespace CompactSql

def Token.Kind.isMark : Token.Kind → Bool
  | .integer _ | .string _ | .identifier _ | .keyword _ | .eof | .fault _ => false
  | _ => true

/-- Can a report announce it? -/
def Expectation.isPublic : Expectation → Bool
  | .symbol kind => kind.isMark
  | .integer | .string | .other _ => false
  | _ => true

def Failure.isPublic (failure : Failure) : Bool :=
  failure.complaint.expected?.all Expectation.isPublic

@[simp] theorem Failure.isPublic_unexpected (expected : Expectation) (found : Token) :
    (Failure.unexpected expected found).isPublic = expected.isPublic := rfl

@[simp] theorem Failure.isPublic_trailing (found : Token) :
    (Failure.trailing found).isPublic = true := rfl

end CompactSql

namespace CompactSql.Grammar

open Rule

variable {α β : Type}

/-- Each failure from the byte on that no report can announce is outdone: a later one,
which a report can announce, got as far. -/
def Outdone (limit : Nat) : List Failure → Prop
  | [] => True
  | failure :: later =>
      (limit ≤ failure.span.start → failure.isPublic = false →
        ∃ other ∈ later, other.isPublic = true ∧ failure.span.start ≤ other.span.start) ∧
      Outdone limit later

namespace Outdone

variable {limit limit' : Nat} {failures later : List Failure} {failure : Failure}

@[simp] theorem nil : Outdone limit [] := trivial

theorem single (h : failure.isPublic = true) : Outdone limit [failure] :=
  ⟨fun _ hidden => by simp [h] at hidden, trivial⟩

theorem early (h : failure.span.start < limit) : Outdone limit [failure] :=
  ⟨fun late => absurd h (Nat.not_lt.mpr late), trivial⟩

theorem mono (le : limit ≤ limit') (h : Outdone limit failures) : Outdone limit' failures := by
  induction failures with
  | nil => trivial
  | cons failure later ih => exact ⟨fun late => h.1 (Nat.le_trans le late), ih h.2⟩

theorem append (h : Outdone limit failures) (h' : Outdone limit later) :
    Outdone limit (failures ++ later) := by
  induction failures with
  | nil => exact h'
  | cons failure failures ih =>
      refine ⟨fun late hidden => ?_, ih h.2⟩
      obtain ⟨other, among, shown, further⟩ := h.1 late hidden
      exact ⟨other, List.mem_append_left _ among, shown, further⟩

theorem closed {limit : Nat} (h : Outdone limit failures) (shown : failure.isPublic = true)
    (far : limit ≤ failure.span.start + 1) (among : failure ∈ later)
    (h' : Outdone 0 later) : Outdone 0 (failures ++ later) := by
  induction failures with
  | nil => exact h'
  | cons first failures ih =>
      refine ⟨fun _ hidden => ?_, ih h.2⟩
      by_cases late : limit ≤ first.span.start
      · obtain ⟨other, member, open_, further⟩ := h.1 late hidden
        exact ⟨other, List.mem_append_left _ member, open_, further⟩
      · exact ⟨failure, List.mem_append_right _ among, shown, by omega⟩

theorem isPublic_of_last (h : Outdone 0 (failures ++ failure :: later))
    (last : ∀ other ∈ later, other.span.start < failure.span.start) :
    failure.isPublic = true := by
  induction failures with
  | nil =>
      cases shown : failure.isPublic with
      | true => rfl
      | false =>
          obtain ⟨other, among, -, further⟩ := h.1 (Nat.zero_le _) shown
          exact absurd (last other among) (Nat.not_lt.mpr further)
  | cons first failures ih => exact ih h.2

end Outdone

structure Cursor.Ready (cursor : Cursor) : Prop where
  terminated : Terminated cursor.rest
  ordered : cursor.rest.Pairwise fun first second => first.span.start < second.span.start

def Cursor.start (cursor : Cursor) : Nat := cursor.current.span.start

theorem Cursor.Ready.advance {cursor : Cursor} (h : cursor.Ready)
    (inner : cursor.current.kind ≠ .eof) :
    cursor.advance.Ready ∧ cursor.start < cursor.advance.start := by
  obtain ⟨index, tokens⟩ := cursor
  obtain ⟨terminated, ordered⟩ := h
  cases terminated with
  | last final => exact absurd final inner
  | @cons token rest inner' later =>
      rw [advance_cons index rest inner']
      obtain ⟨first, others⟩ := List.pairwise_cons.mp ordered
      refine ⟨⟨later, others⟩, ?_⟩
      cases later with
      | last => exact first _ List.mem_cons_self
      | cons => exact first _ List.mem_cons_self

/-! ## Outspoken rules -/

/-- A run that begins at the byte: what it ends with can be announced and got as far as
the run, and what it gave up behind the place where it ends is outdone. -/
inductive Outcome.Outspoken (start : Nat) : Outcome α → Prop
  | ok {trail : List Event} {value : α} {after : Cursor} :
      after.Ready → start ≤ after.start →
      Outdone after.start (trail.filterMap Event.failure?) →
      Outspoken start ⟨trail, .ok (value, after)⟩
  | error {trail : List Event} {failure : Failure} :
      failure.isPublic = true → start ≤ failure.span.start →
      Outdone 0 (trail.filterMap Event.failure? ++ [failure]) →
      Outspoken start ⟨trail, .error failure⟩

def Outspoken (rule : Rule α) : Prop :=
  ∀ ⦃cursor : Cursor⦄, cursor.Ready → (rule cursor).Outspoken cursor.start

theorem Outcome.Outspoken.behind {start : Nat} {trail : List Event} {after : Cursor}
    {outcome : Outcome α} (le : start ≤ after.start)
    (given : Outdone after.start (trail.filterMap Event.failure?))
    (h : outcome.Outspoken after.start) : (outcome.behind trail).Outspoken start := by
  cases h with
  | ok ready further outdone =>
      refine .ok ready (Nat.le_trans le further) ?_
      rw [List.filterMap_append]
      exact (given.mono further).append outdone
  | error shown further outdone =>
      refine .error shown (Nat.le_trans le further) ?_
      rw [List.filterMap_append, List.append_assoc]
      exact given.closed shown (Nat.le_succ_of_le further) (by simp) outdone

namespace Outspoken

theorem pure (value : α) : Outspoken (Pure.pure value : Rule α) :=
  fun _ ready => .ok ready (Nat.le_refl _) .nil

theorem bind {rule : Rule α} {next : α → Rule β} (h : Outspoken rule)
    (hnext : ∀ value, Outspoken (next value)) : Outspoken (rule >>= next) := by
  intro cursor ready
  have first := h ready
  rcases run : rule cursor with ⟨trail, failure | ⟨value, after⟩⟩
  all_goals
    rw [run] at first
    cases first
  case error shown further outdone =>
    rw [bind_of_error run]
    exact .error shown further outdone
  case ok ready' further outdone =>
    rw [bind_of_ok run]
    exact (hnext value ready').behind further outdone

theorem map (f : α → β) {rule : Rule α} (h : Outspoken rule) : Outspoken (f <$> rule) :=
  h.bind fun value => pure (f value)

theorem unexpected {expected : Expectation} (shown : expected.isPublic = true) :
    Outspoken (Rule.unexpected expected : Rule α) :=
  fun _ _ => .error shown (Nat.le_refl _) (.single shown)

theorem read {expected : Expectation} {accept : Token.Kind → Option α}
    (noEnd : accept .eof = none) (shown : expected.isPublic = true) :
    Outspoken (Rule.read expected accept) := by
  intro cursor ready
  unfold Rule.read
  split
  · next value accepted =>
      obtain ⟨ready', further⟩ := ready.advance (inner_of_accepted noEnd accepted)
      exact .ok ready' (Nat.le_of_lt further) .nil
  · exact unexpected shown ready

theorem readIf {accept : Token.Kind → Option α} (noEnd : accept .eof = none) :
    Outspoken (Rule.readIf accept) := by
  intro cursor ready
  unfold Rule.readIf
  split
  · next value accepted =>
      obtain ⟨ready', further⟩ := ready.advance (inner_of_accepted noEnd accepted)
      exact .ok ready' (Nat.le_of_lt further) .nil
  · exact .ok ready (Nat.le_refl _) .nil

theorem keyword (word : Keyword) : Outspoken (Rule.keyword word) := read rfl rfl

theorem symbol {kind : Token.Kind} (mark : kind.isMark = true) :
    Outspoken (Rule.symbol kind) := by
  refine read (ofKind_eq_none.mpr ?_) mark
  rintro rfl
  cases mark

theorem repeated {lead : Token.Kind → Option β} {item : β → Rule α}
    (noEnd : lead .eof = none) (h : ∀ led, Outspoken (item led)) :
    Outspoken (Rule.repeated lead item) := by
  intro cursor ready
  induction size : cursor.rest.length using Nat.strongRecOn generalizing cursor with
  | ind size ih =>
      subst size
      rw [repeated_turn]
      cases accepted : lead cursor.current.kind with
      | none => exact .ok ready (Nat.le_refl _) .nil
      | some led =>
          obtain ⟨ready', further⟩ := ready.advance (inner_of_accepted noEnd accepted)
          have first := h led ready'
          simp only
          rcases run : item led cursor.advance with ⟨trail, failure | ⟨value, after⟩⟩
          all_goals
            rw [run] at first
            cases first
          case error shown far outdone =>
            exact .error shown (Nat.le_trans (Nat.le_of_lt further) far) outdone
          case ok ready'' far outdone =>
            have behind := Nat.le_trans (Nat.le_of_lt further) far
            -- an item that takes nothing is the last
            by_cases less : after.rest.length < cursor.rest.length
            · have rest := Outcome.Outspoken.behind behind outdone (ih _ less ready'' rfl)
              simp only [if_pos less]
              rcases more : Rule.repeated lead item after with
                ⟨trail', failure | ⟨values, last⟩⟩
              all_goals
                rw [more] at rest
                cases rest
              case error shown far outdone => exact .error shown far outdone
              case ok ready far outdone => exact .ok ready far outdone
            · simp only [if_neg less]
              exact .ok ready'' behind outdone

theorem commaList {item : Rule α} (h : Outspoken item) : Outspoken (Rule.commaList item) :=
  h.bind fun first => (repeated rfl fun _ => h).bind fun others => pure (first :: others)

theorem ledBy (word : Keyword) {item : Rule α} (h : Outspoken item) :
    Outspoken (Rule.ledBy word item) := by
  refine (readIf rfl).bind fun led => ?_
  cases led with
  | none => exact pure none
  | some _ => exact h.bind fun value => pure (some value)

theorem ended (value : α) : Outspoken (Rule.ended value) := by
  intro cursor ready
  unfold Rule.ended
  split
  · exact .ok ready (Nat.le_refl _) .nil
  · exact .error rfl (Nat.le_refl _) (.single rfl)

theorem complete {rule : Rule α} (h : Outspoken rule) : Outspoken (Rule.complete rule) :=
  h.bind ended

end Outspoken

/-! ## Choices -/

/-- A run of an alternative: as of an outspoken rule, but where it has begun it may fail
without an announcement, since the choice makes its own; and it reads a token. -/
inductive Outcome.Reserved (start : Nat) : Outcome α → Prop
  | ok {trail : List Event} {value : α} {after : Cursor} :
      after.Ready → start < after.start →
      Outdone after.start (trail.filterMap Event.failure?) →
      Reserved start ⟨trail, .ok (value, after)⟩
  | error {trail : List Event} {failure : Failure} :
      (start < failure.span.start → failure.isPublic = true) →
      Outdone (start + 1) (trail.filterMap Event.failure? ++ [failure]) →
      Reserved start ⟨trail, .error failure⟩

theorem reserved_of_read {expected : Expectation} {accept : Token.Kind → Option β}
    {next : β → Rule α} (noEnd : accept .eof = none) (h : ∀ value, Outspoken (next value))
    {cursor : Cursor} (ready : cursor.Ready) :
    ((Rule.read expected accept >>= next) cursor).Reserved cursor.start := by
  cases accepted : accept cursor.current.kind with
  | none =>
      have run : Rule.read expected accept cursor =
          ⟨[], .error (.unexpected expected cursor.current)⟩ := by
        simp [Rule.read, accepted, Rule.unexpected]
      rw [bind_of_error run]
      exact .error (fun beyond => absurd beyond (Nat.lt_irrefl _)) (.early (Nat.lt_succ_self _))
  | some value =>
      have run : Rule.read expected accept cursor = ⟨[], .ok (value, cursor.advance)⟩ := by
        simp [Rule.read, accepted]
      obtain ⟨ready', further⟩ := ready.advance (inner_of_accepted noEnd accepted)
      rw [bind_of_ok run, Outcome.behind_nil]
      have rest := h value ready'
      generalize next value cursor.advance = outcome at rest
      cases rest with
      | ok last beyond outdone => exact .ok last (Nat.lt_of_lt_of_le further beyond) outdone
      | error shown _ outdone => exact .error (fun _ => shown) (outdone.mono (Nat.zero_le _))

private theorem further_isPublic {start : Nat} {best : Option Failure} {failure : Failure}
    (open_ : ∀ failure ∈ best, start < failure.span.start → failure.isPublic = true)
    (failed : start < failure.span.start → failure.isPublic = true) :
    ∀ candidate ∈ some (further best failure),
      start < candidate.span.start → candidate.isPublic = true := by
  rintro _ ⟨⟩
  rcases further_cases best failure with new | old
  · rwa [new]
  · exact open_ _ old

theorem firstOfFrom_nil_outspoken {expected : Expectation} (shown : expected.isPublic = true)
    {cursor : Cursor} (ready : cursor.Ready) {best : Option Failure}
    (open_ : ∀ failure ∈ best, cursor.start < failure.span.start → failure.isPublic = true) :
    (firstOfFrom expected cursor best ([] : List (String × Rule α))).Outspoken cursor.start := by
  cases best with
  | none => exact Outspoken.unexpected shown ready
  | some failure =>
      by_cases further : cursor.current.span.start < failure.span.start
      · have failed : failure.isPublic = true := open_ failure rfl further
        simp only [firstOfFrom, if_pos further]
        exact .error failed (Nat.le_of_lt further) (.single failed)
      · simp only [firstOfFrom, if_neg further]
        exact Outspoken.unexpected shown ready

private theorem Outcome.Outspoken.behind_failed {start : Nat} {trail : List Event}
    {outcome : Outcome α}
    (given : Outdone (start + 1) (trail.filterMap Event.failure?))
    (strict : ∀ value after, outcome.result = .ok (value, after) → start < after.start)
    (h : outcome.Outspoken start) : (outcome.behind trail).Outspoken start := by
  cases h with
  | ok ready _ outdone =>
      have beyond := strict _ _ rfl
      refine .ok ready (Nat.le_of_lt beyond) ?_
      rw [List.filterMap_append]
      exact (given.mono beyond).append outdone
  | error shown far outdone =>
      refine .error shown far ?_
      rw [List.filterMap_append, List.append_assoc]
      exact given.closed shown (Nat.succ_le_succ far) (by simp) outdone

theorem firstOfFrom_outspoken {expected : Expectation} (shown : expected.isPublic = true)
    {cursor : Cursor} (ready : cursor.Ready) {best : Option Failure}
    (open_ : ∀ failure ∈ best, cursor.start < failure.span.start → failure.isPublic = true)
    {alternatives : List (String × Rule α)}
    (each : ∀ alternative ∈ alternatives, (alternative.2 cursor).Reserved cursor.start) :
    (firstOfFrom expected cursor best alternatives).Outspoken cursor.start ∧
      ∀ value after, (firstOfFrom expected cursor best alternatives).result =
        .ok (value, after) → cursor.start < after.start := by
  induction alternatives generalizing best with
  | nil =>
      obtain ⟨failure, failed, -⟩ := firstOfFrom_nil α expected cursor best
      exact ⟨firstOfFrom_nil_outspoken shown ready open_, by simp [failed]⟩
  | cons alternative others ih =>
      rw [List.forall_mem_cons] at each
      have first := each.1
      rcases run : alternative.2 cursor with ⟨trail, failure | ⟨value, after⟩⟩
      all_goals
        rw [run] at first
        cases first
      case ok last beyond outdone =>
        rw [firstOfFrom_cons_ok run]
        refine ⟨.ok last (Nat.le_of_lt beyond) outdone, ?_⟩
        rintro _ _ ⟨⟩
        exact beyond
      case error failed outdone =>
        rw [firstOfFrom_cons_error run]
        obtain ⟨rest, strict⟩ := ih (further_isPublic open_ failed) each.2
        refine ⟨rest.behind_failed ?_ strict, strict⟩
        rw [List.filterMap_append]
        exact outdone

theorem Outspoken.firstOf {expected : Expectation} (shown : expected.isPublic = true)
    {alternatives : List (String × Rule α)} {cursor : Cursor} (ready : cursor.Ready)
    (each : ∀ alternative ∈ alternatives, (alternative.2 cursor).Reserved cursor.start) :
    (Rule.firstOf expected alternatives cursor).Outspoken cursor.start :=
  (firstOfFrom_outspoken shown ready (by simp) each).1

end CompactSql.Grammar
