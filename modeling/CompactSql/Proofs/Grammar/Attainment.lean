import CompactSql.Proofs.Grammar.Expression
import CompactSql.Proofs.Grammar.Whole
import CompactSql.Proofs.Token.Cutting
import Mathlib.Data.List.Forall2

/-!
# How far runs get

A run gets as far as its furthest failure, or as the token behind what it has read.  Two runs
that succeed alike and get equally far may differ in what they have tried on the way; no rule
around them can tell them apart but by what it tries itself, and the failures that are reported
begin at one place.
-/

namespace CompactSql.Grammar

open Rule

variable {α β : Type}

/-- A failure of the run, or the token behind what it has read, begins here or further on. -/
def Outcome.Attains (place : Nat) (outcome : Outcome α) : Prop :=
  (∃ failure ∈ outcome.failures, place ≤ failure.span.start) ∨
    ∃ value after, outcome.result = .ok (value, after) ∧ place ≤ after.current.span.start

namespace Outcome

variable {place : Nat} {trail : List Event} {outcome : Outcome α}

theorem Attains.mono {further : Nat} (h : outcome.Attains further) (le : place ≤ further) :
    outcome.Attains place := by
  rcases h with ⟨failure, member, far⟩ | ⟨value, after, read, far⟩
  · exact .inl ⟨failure, member, Nat.le_trans le far⟩
  · exact .inr ⟨value, after, read, Nat.le_trans le far⟩

theorem attains_error {failure : Failure} :
    (⟨trail, .error failure⟩ : Outcome α).Attains place ↔
      (∃ failure ∈ trail.filterMap Event.failure?, place ≤ failure.span.start) ∨
        place ≤ failure.span.start := by
  simp [Attains, failures_error, or_and_right, exists_or]

theorem attains_ok {value : α} {after : Cursor} :
    (⟨trail, .ok (value, after)⟩ : Outcome α).Attains place ↔
      (∃ failure ∈ trail.filterMap Event.failure?, place ≤ failure.span.start) ∨
        place ≤ after.current.span.start := by
  rw [Attains, failures_ok]
  refine or_congr_right ⟨?_, fun far => ⟨value, after, rfl, far⟩⟩
  rintro ⟨_, _, ⟨⟩, far⟩
  exact far

theorem attains_behind : (outcome.behind trail).Attains place ↔
    (∃ failure ∈ trail.filterMap Event.failure?, place ≤ failure.span.start) ∨
      outcome.Attains place := by
  have read : (outcome.behind trail).result = outcome.result := rfl
  simp only [Attains, failures_behind, read, List.mem_append, or_and_right, exists_or, or_assoc]

end Outcome

/-- The two runs read the same, and what one of them attains the other does. -/
structure Outcome.Abreast (outcome outcome' : Outcome α) : Prop where
  result : ∀ read, outcome.result = .ok read ↔ outcome'.result = .ok read
  attains : ∀ place, outcome.Attains place ↔ outcome'.Attains place

namespace Outcome.Abreast

variable {outcome outcome' : Outcome α}

theorem refl (outcome : Outcome α) : outcome.Abreast outcome :=
  ⟨fun _ => Iff.rfl, fun _ => Iff.rfl⟩

theorem symm (h : outcome.Abreast outcome') : outcome'.Abreast outcome :=
  ⟨fun read => (h.result read).symm, fun place => (h.attains place).symm⟩

theorem eq_ok {trail : List Event} {read : α × Cursor}
    (h : Outcome.Abreast ⟨trail, .ok read⟩ outcome') :
    ∃ trail', outcome' = ⟨trail', .ok read⟩ := by
  have result := (h.result read).mp rfl
  obtain ⟨trail', _⟩ := outcome'
  obtain rfl : _ = Except.ok read := result
  exact ⟨trail', rfl⟩

theorem eq_error {trail : List Event} {failure : Failure}
    (h : Outcome.Abreast ⟨trail, .error failure⟩ outcome') :
    ∃ trail' failure', outcome' = ⟨trail', .error failure'⟩ := by
  rcases outcome' with ⟨trail', failure' | read⟩
  · exact ⟨trail', failure', rfl⟩
  · cases (h.result read).mpr rfl

end Outcome.Abreast

theorem Outcome.result_eq_ok {outcome : Outcome α} {read : α × Cursor} :
    outcome.result = .ok read ↔ ∃ trail, outcome = ⟨trail, .ok read⟩ := by
  obtain ⟨trail, result⟩ := outcome
  simp

/-! ## Runs that go on from where they begin -/

def Standing (cursor : Cursor) : Prop := ∃ offset, Placed offset cursor.rest

structure Outcome.Onward (cursor : Cursor) (outcome : Outcome α) : Prop where
  attains : outcome.Attains cursor.current.span.start
  standing : ∀ value after, outcome.result = .ok (value, after) → Standing after

structure Outcome.Keeps (cursor : Cursor) (outcome outcome' : Outcome α) : Prop where
  onward : outcome.Onward cursor
  abreast : outcome.Abreast outcome'

/-- Wherever the rules begin, their runs keep abreast. -/
def Matches (rule rule' : Rule α) : Prop :=
  ∀ cursor, Standing cursor → (rule cursor).Keeps cursor (rule' cursor)

theorem Standing.start_le {index : Nat} {tokens : List Token} (h : Standing ⟨index, tokens⟩) :
    ∀ token ∈ tokens, (Cursor.mk index tokens).current.span.start ≤ token.span.start := by
  obtain ⟨offset, placed⟩ := h
  intro token member
  cases tokens with
  | nil => cases member
  | cons first rest =>
      rcases List.mem_cons.mp member with rfl | later
      · exact Nat.le_refl _
      · exact Nat.le_of_lt ((List.pairwise_cons.mp placed.pairwise).1 token later).1

theorem Standing.tail {index index' : Nat} {token : Token} {rest : List Token}
    (h : Standing ⟨index, token :: rest⟩) (inner : token.kind ≠ .eof) :
    Standing ⟨index', rest⟩ := by
  obtain ⟨offset, placed⟩ := h
  cases placed with
  | last final => exact absurd final inner
  | cons _ _ _ later => exact ⟨_, later⟩

theorem Standing.of_append {index index' : Nat} {front back : List Token}
    (h : Standing ⟨index, front ++ back⟩) (inner : .eof ∉ kinds front) :
    Standing ⟨index', back⟩ := by
  induction front generalizing index with
  | nil => exact h
  | cons token front ih =>
      rw [kinds_cons, List.mem_cons, not_or] at inner
      have later : Standing ⟨index + 1, front ++ back⟩ := h.tail (Ne.symm inner.1)
      exact ih later inner.2

theorem Standing.terminated {cursor : Cursor} (h : Standing cursor) : Terminated cursor.rest := by
  obtain ⟨offset, placed⟩ := h
  exact placed.terminated

theorem Standing.current_le {index index' : Nat} {front back : List Token}
    (h : Standing ⟨index, front ++ back⟩) (inner : .eof ∉ kinds front) :
    (Cursor.mk index (front ++ back)).current.span.start ≤
      (Cursor.mk index' back).current.span.start := by
  have later : Standing ⟨index', back⟩ := h.of_append inner
  cases back with
  | nil => cases later.terminated
  | cons token back => exact h.start_le token (by simp)

namespace Outcome

private theorem Onward.earlier {index index' : Nat} {front back : List Token} {outcome : Outcome α}
    (standing : Standing ⟨index, front ++ back⟩) (inner : .eof ∉ kinds front)
    (h : outcome.Onward ⟨index', back⟩) : outcome.Onward ⟨index, front ++ back⟩ :=
  ⟨h.attains.mono (standing.current_le inner), h.standing⟩

theorem Keeps.earlier {index index' : Nat} {token : Token} {rest : List Token}
    {outcome outcome' : Outcome α} (standing : Standing ⟨index, token :: rest⟩)
    (inner : token.kind ≠ .eof) (h : outcome.Keeps ⟨index', rest⟩ outcome') :
    outcome.Keeps ⟨index, token :: rest⟩ outcome' := by
  have split : Standing ⟨index, [token] ++ rest⟩ := standing
  exact ⟨h.onward.earlier split (by simp [Ne.symm inner]), h.abreast⟩

private theorem attains_bind {rule : Rule α} {next : α → Rule β} {cursor after : Cursor}
    {trail : List Event} {value : α} {place : Nat}
    (run : rule cursor = ⟨trail, .ok (value, after)⟩)
    (begins : (next value after).Attains after.current.span.start) :
    ((rule >>= next) cursor).Attains place ↔
      (rule cursor).Attains place ∨ (next value after).Attains place := by
  rw [bind_of_ok run, attains_behind, run, attains_ok, or_assoc]
  refine or_congr_right ⟨.inr, ?_⟩
  rintro (near | far)
  · exact begins.mono near
  · exact far

theorem Keeps.bind {rule rule' : Rule α} {next next' : α → Rule β} {cursor : Cursor}
    (h : (rule cursor).Keeps cursor (rule' cursor))
    (hnext : ∀ trail value after, rule cursor = ⟨trail, .ok (value, after)⟩ →
      (next value after).Keeps after (next' value after)) :
    ((rule >>= next) cursor).Keeps cursor ((rule' >>= next') cursor) := by
  obtain ⟨onward, abreast⟩ := h
  rcases run_cases rule cursor with ⟨trail, failure, run⟩ | ⟨trail, value, after, run⟩
  · rw [run] at onward abreast
    obtain ⟨trail', failure', run'⟩ := abreast.eq_error
    rw [run'] at abreast
    rw [bind_of_error run, bind_of_error run']
    refine ⟨⟨?_, by simp⟩, by simp, fun place => ?_⟩
    · exact attains_error.mpr (attains_error.mp onward.attains)
    · -- what a failed run attains does not depend on the type of its values
      have alike := abreast.attains place
      rw [attains_error, attains_error] at alike ⊢
      exact alike
  · obtain ⟨onward', abreast'⟩ := hnext trail value after run
    obtain ⟨trail', run'⟩ := (run ▸ abreast).eq_ok
    have begins' := (abreast'.attains _).mp onward'.attains
    refine ⟨⟨?_, ?_⟩, ?_, ?_⟩
    · exact (attains_bind run onward'.attains).mpr (.inl onward.attains)
    · rw [bind_of_ok run]
      exact onward'.standing
    · rw [bind_of_ok run, bind_of_ok run']
      exact abreast'.result
    · intro place
      rw [attains_bind run onward'.attains, attains_bind run' begins', abreast.attains,
        abreast'.attains]

end Outcome

theorem Outcome.Keeps.stay {cursor : Cursor} (standing : Standing cursor) (value : α) :
    (⟨[], .ok (value, cursor)⟩ : Outcome α).Keeps cursor ⟨[], .ok (value, cursor)⟩ := by
  refine ⟨⟨attains_ok.mpr (.inr (Nat.le_refl _)), ?_⟩, .refl _⟩
  rintro _ _ ⟨⟩
  exact standing

namespace Matches

variable {rule rule' : Rule α}

theorem of_recognizes {language : Language α} {extending : List Token.Kind}
    (h : ∀ bound, Recognizes bound rule language extending) : Matches rule rule := by
  rintro ⟨index, tokens⟩ standing
  refine ⟨⟨?_, ?_⟩, .refl _⟩
  · rcases run_cases rule ⟨index, tokens⟩ with
      ⟨trail, failure, run⟩ | ⟨trail, value, after, run⟩
    · have failed := mem_failures_of_error run
      obtain ⟨front, token, back, expected, rfl, rfl, -⟩ :=
        (h _).blames (Nat.lt_succ_self _) standing.terminated failed
      exact .inl ⟨_, failed, standing.start_le token (by simp)⟩
    · obtain ⟨front, back, rfl, rfl, member⟩ := (h _).sound (Nat.lt_succ_self _) run
      rw [run]
      exact Outcome.attains_ok.mpr (.inr (standing.current_le ((h 0).noEnd member)))
  · intro value after result
    rcases run_cases rule ⟨index, tokens⟩ with
      ⟨trail, failure, run⟩ | ⟨trail, found, last, run⟩
    · rw [run] at result
      cases result
    · rw [run] at result
      cases result
      obtain ⟨front, back, rfl, rfl, member⟩ := (h _).sound (Nat.lt_succ_self _) run
      exact standing.of_append ((h 0).noEnd member)

theorem pure (value : α) : Matches (Pure.pure value : Rule α) (Pure.pure value) :=
  fun _ standing => .stay standing value

theorem bind {next next' : α → Rule β} (h : Matches rule rule')
    (hnext : ∀ value, Matches (next value) (next' value)) :
    Matches (rule >>= next) (rule' >>= next') := by
  intro cursor standing
  have first := h cursor standing
  refine first.bind fun trail value after run => hnext value after ?_
  exact first.onward.standing value after (by rw [run])

theorem map (f : α → β) (h : Matches rule rule') : Matches (f <$> rule) (f <$> rule') :=
  h.bind fun value => pure (f value)

theorem read {expected : Expectation} {accept : Token.Kind → Option α}
    (noEnd : accept .eof = none) :
    Matches (Rule.read expected accept) (Rule.read expected accept) := by
  rintro ⟨index, tokens⟩ standing
  cases accepted : accept (nextKind tokens) with
  | none =>
      rw [read_of_none index accepted]
      exact ⟨⟨Outcome.attains_error.mpr (.inr (Nat.le_refl _)), by simp⟩, .refl _⟩
  | some value =>
      obtain ⟨token, rest, rfl, inner, accepted⟩ := next_of_accepted noEnd accepted
      rw [read_of_some index rest inner accepted]
      exact (Outcome.Keeps.stay (standing.tail inner) value).earlier standing inner

theorem keyword (word : Keyword) : Matches (Rule.keyword word) (Rule.keyword word) := read rfl

theorem identifier : Matches Grammar.identifier Grammar.identifier := read rfl

theorem readIf {accept : Token.Kind → Option α} (noEnd : accept .eof = none) :
    Matches (Rule.readIf accept) (Rule.readIf accept) := by
  rintro ⟨index, tokens⟩ standing
  cases accepted : accept (nextKind tokens) with
  | none =>
      have run : Rule.readIf accept ⟨index, tokens⟩ = ⟨[], .ok (none, ⟨index, tokens⟩)⟩ := by
        simp [Rule.readIf, current_kind, accepted]
      rw [run]
      exact .stay standing none
  | some read =>
      obtain ⟨token, rest, rfl, inner, accepted⟩ := next_of_accepted noEnd accepted
      have run : Rule.readIf accept ⟨index, token :: rest⟩ =
          ⟨[], .ok (some read, ⟨index + 1, rest⟩)⟩ := by
        simp [Rule.readIf, current_kind, accepted, advance_cons index rest inner]
      rw [run]
      exact (Outcome.Keeps.stay (standing.tail inner) (some read)).earlier standing inner

theorem ledBy (word : Keyword) (h : Matches rule rule') :
    Matches (Rule.ledBy word rule) (Rule.ledBy word rule') := by
  refine (readIf rfl).bind ?_
  rintro (_ | _)
  · exact pure none
  · exact h.bind fun value => pure (some value)

theorem repeated {lead : Token.Kind → Option β} {item item' : β → Rule α}
    (noEnd : lead .eof = none) (shrinks : ∀ led, NoLonger (item led))
    (shrinks' : ∀ led, NoLonger (item' led)) (h : ∀ led, Matches (item led) (item' led)) :
    Matches (Rule.repeated lead item) (Rule.repeated lead item') := by
  intro cursor standing
  induction size : cursor.rest.length using Nat.strongRecOn generalizing cursor with
  | ind size ih =>
      subst size
      obtain ⟨index, tokens⟩ := cursor
      rw [repeated_eq_bind index noEnd fun _ _ led _ _ _ _ _ run => shrinks led run,
        repeated_eq_bind index noEnd fun _ _ led _ _ _ _ _ run => shrinks' led run]
      cases accepted : lead (nextKind tokens) with
      | none =>
          rw [readIf_bind_none index accepted, readIf_bind_none index accepted]
          exact .stay standing []
      | some led =>
          obtain ⟨token, rest, rfl, inner, accepted⟩ := next_of_accepted noEnd accepted
          rw [readIf_bind_some index rest inner accepted,
            readIf_bind_some index rest inner accepted]
          have later : Standing ⟨index + 1, rest⟩ := standing.tail inner
          have first := h led _ later
          refine (first.bind fun trail value after run => ?_).earlier standing inner
          have shorter : after.rest.length < (token :: rest).length :=
            Nat.lt_succ_of_le (shrinks led run)
          have rest := ih _ shorter after (first.onward.standing value after (by rw [run])) rfl
          refine rest.bind fun trail values last more => .stay ?_ _
          exact rest.onward.standing values last (by rw [more])

theorem tier {operator : Token.Kind → Option BinaryOp} {operand operand' : Rule Expr}
    (noEnd : operator .eof = none) (shrinks : NoLonger operand) (shrinks' : NoLonger operand')
    (h : Matches operand operand') :
    Matches (Grammar.tier operator operand) (Grammar.tier operator operand') := by
  have steps (op : BinaryOp) : Matches (tierStep operand op) (tierStep operand' op) :=
    h.map (op, ·)
  refine h.bind fun left => (repeated noEnd ?_ ?_ steps).map (grouped left)
  · exact fun op => shrinks.bind fun right => .pure (op, right)
  · exact fun op => shrinks'.bind fun right => .pure (op, right)

theorem complete (h : Matches rule rule') : Matches (Rule.complete rule) (Rule.complete rule') := by
  refine h.bind ?_
  rintro value ⟨index, tokens⟩ standing
  by_cases final : nextKind tokens = .eof
  · rw [ended_of_eof value index final]
    exact .stay standing value
  · rw [ended_of_ne value index final]
    exact ⟨⟨Outcome.attains_error.mpr (.inr (Nat.le_refl _)), by simp⟩, .refl _⟩

end Matches

/-! ## Ordered choice -/

def Tried (place : Nat) (cursor : Cursor) : List (String × Rule α) → Prop
  | [] => place ≤ cursor.current.span.start
  | (_, rule) :: others =>
      (rule cursor).Attains place ∨ (Fails rule cursor ∧ Tried place cursor others)

private theorem attains_given_up {trail : List Event} {failure : Failure} {restored place : Nat}
    {name : String} :
    (∃ given ∈ (trail ++ [Event.backtracked restored failure, .rejected name]).filterMap
        Event.failure?, place ≤ given.span.start) ↔
      (⟨trail, .error failure⟩ : Outcome α).Attains place := by
  rw [Outcome.attains_error]
  simp [Event.failure?, or_and_right, exists_or]

theorem attains_firstOfFrom_nil (α : Type) {expected : Expectation} {cursor : Cursor}
    {place : Nat} {known : Prop} {best : Option Failure}
    (counted : ∀ failure, best = some failure → place ≤ failure.span.start → known) :
    (known ∨ (firstOfFrom expected cursor best [] : Outcome α).Attains place) ↔
      (known ∨ place ≤ cursor.current.span.start) := by
  have own : (⟨[], .error (.unexpected expected cursor.current)⟩ : Outcome α).Attains place ↔
      place ≤ cursor.current.span.start := by
    simp [Outcome.attains_error, Failure.unexpected]
  cases best with
  | none => exact or_congr_right own
  | some best =>
      by_cases further : cursor.current.span.start < best.span.start
      · have found : (firstOfFrom expected cursor (some best) [] : Outcome α) =
            ⟨[], .error best⟩ := if_pos further
        rw [found, Outcome.attains_error]
        constructor
        · rintro (already | ⟨_, none, -⟩ | far)
          · exact .inl already
          · cases none
          · exact .inl (counted best rfl far)
        · rintro (already | near)
          · exact .inl already
          · exact .inr (.inr (Nat.le_trans near (Nat.le_of_lt further)))
      · have found : (firstOfFrom expected cursor (some best) [] : Outcome α) =
            ⟨[], .error (.unexpected expected cursor.current)⟩ := if_neg further
        rw [found, own]

private theorem attains_firstOfFrom {expected : Expectation} {cursor : Cursor} {place : Nat}
    {known : Prop} (alternatives : List (String × Rule α)) (best : Option Failure)
    (counted : ∀ failure, best = some failure → place ≤ failure.span.start → known) :
    (known ∨ (firstOfFrom expected cursor best alternatives).Attains place) ↔
      (known ∨ Tried place cursor alternatives) := by
  induction alternatives generalizing best known with
  | nil => exact attains_firstOfFrom_nil α counted
  | cons alternative others ih =>
      obtain ⟨name, rule⟩ := alternative
      rcases run_cases rule cursor with ⟨trail, failure, run⟩ | ⟨trail, value, after, run⟩
      · have failed : Fails rule cursor := ⟨trail, failure, run⟩
        rw [firstOfFrom_cons_error run, Outcome.attains_behind, attains_given_up (α := α), ← run,
          Tried, and_iff_right failed, ← or_assoc, ← or_assoc]
        refine ih _ ?_
        rintro _ ⟨⟩ far
        rcases further_cases best failure with new | old
        · rw [new] at far
          rw [run]
          exact .inr (Outcome.attains_error.mpr (.inr far))
        · exact .inl (counted _ old far)
      · have fine : ¬ Fails rule cursor := by
          rintro ⟨_, _, failed⟩
          rw [run] at failed
          cases failed
        rw [firstOfFrom_cons_ok run, ← run, Tried]
        simp [fine]

theorem attains_firstOf {expected : Expectation} {cursor : Cursor} {place : Nat}
    {alternatives : List (String × Rule α)} :
    (firstOf expected alternatives cursor).Attains place ↔ Tried place cursor alternatives := by
  have alone : (False ∨ (firstOfFrom expected cursor none alternatives).Attains place) ↔
      (False ∨ Tried place cursor alternatives) :=
    attains_firstOfFrom alternatives none fun _ absent => by cases absent
  rwa [false_or, false_or] at alone

namespace Outcome.Abreast

variable {cursor : Cursor} {alternatives alternatives' : List (String × Rule α)}

private theorem fails_iff {rule rule' : Rule α} (h : (rule cursor).Abreast (rule' cursor)) :
    Fails rule cursor ↔ Fails rule' cursor := by
  constructor
  · rintro ⟨trail, failure, run⟩
    exact (run ▸ h).eq_error
  · rintro ⟨trail, failure, run⟩
    exact (run ▸ h.symm).eq_error

private theorem tried_iff {place : Nat}
    (each : List.Forall₂ (fun first second => (first.2 cursor).Abreast (second.2 cursor))
      alternatives alternatives') :
    Tried place cursor alternatives ↔ Tried place cursor alternatives' := by
  induction each with
  | nil => exact Iff.rfl
  | cons h _ ih => simp only [Tried, h.attains, h.fails_iff, ih]

private theorem result_firstOfFrom {expected : Expectation} {read : α × Cursor}
    (each : List.Forall₂ (fun first second => (first.2 cursor).Abreast (second.2 cursor))
      alternatives alternatives') (best best' : Option Failure) :
    (firstOfFrom expected cursor best alternatives).result = .ok read ↔
      (firstOfFrom expected cursor best' alternatives').result = .ok read := by
  induction each generalizing best best' with
  | nil =>
      obtain ⟨failure, none, -⟩ := firstOfFrom_nil α expected cursor best
      obtain ⟨failure', none', -⟩ := firstOfFrom_nil α expected cursor best'
      simp [none, none']
  | @cons first second _ _ h _ ih =>
      obtain ⟨name, rule⟩ := first
      obtain ⟨name', rule'⟩ := second
      simp only at h
      rcases run_cases rule cursor with ⟨trail, failure, run⟩ | ⟨trail, value, after, run⟩
      · obtain ⟨trail', failure', run'⟩ := (run ▸ h).eq_error
        rw [firstOfFrom_cons_error run, firstOfFrom_cons_error run']
        exact ih _ _
      · obtain ⟨trail', run'⟩ := (run ▸ h).eq_ok
        rw [firstOfFrom_cons_ok run, firstOfFrom_cons_ok run']

/-- A choice among runs that keep abreast, one by one, keeps abreast. -/
theorem firstOf {expected : Expectation}
    (each : List.Forall₂ (fun first second => (first.2 cursor).Abreast (second.2 cursor))
      alternatives alternatives') :
    (Rule.firstOf expected alternatives cursor).Abreast
      (Rule.firstOf expected alternatives' cursor) := by
  refine ⟨fun read => result_firstOfFrom each none none, fun place => ?_⟩
  rw [attains_firstOf, attains_firstOf, tried_iff each]

end Outcome.Abreast

/-! ## Whole inputs -/

/-- Both accept with the same value, or both reject, with failures that begin at one place. -/
def Agree : Except Failure α → Except Failure α → Prop
  | .ok value, .ok value' => value = value'
  | .error failure, .error failure' => failure.span.start = failure'.span.start
  | _, _ => False

theorem Outcome.Abreast.run_agree {rule rule' : Rule α} {tokens : List Token}
    (h : (rule (.ofTokens tokens)).Abreast (rule' (.ofTokens tokens))) :
    Agree (rule.run tokens).result (rule'.run tokens).result := by
  rcases run_cases rule (.ofTokens tokens) with
    ⟨trail, failure, run⟩ | ⟨trail, value, after, run⟩
  · obtain ⟨trail', failure', run'⟩ := (run ▸ h).eq_error
    obtain ⟨reported, result, member, most⟩ := run_of_error run
    obtain ⟨reported', result', member', most'⟩ := run_of_error run'
    rw [result, result']
    -- each of the two is attained by the other run, which attains nothing beyond its own
    rcases (h.attains reported.span.start).mp (.inl ⟨_, member, Nat.le_refl _⟩) with
      ⟨other', found', far'⟩ | ⟨_, _, read, -⟩
    · rcases (h.attains reported'.span.start).mpr (.inl ⟨_, member', Nat.le_refl _⟩) with
        ⟨other, found, far⟩ | ⟨_, _, read, -⟩
      · exact Nat.le_antisymm (Nat.le_trans far' (most' other' found'))
          (Nat.le_trans far (most other found))
      · rw [run] at read
        cases read
    · rw [run'] at read
      cases read
  · obtain ⟨trail', run'⟩ := (run ▸ h).eq_ok
    rw [run_of_ok run, run_of_ok run']
    exact rfl

end CompactSql.Grammar
