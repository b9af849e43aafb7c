import CompactSql.Proofs.Grammar.Recognition

/-!
# Ordered choice

An ordered choice reads what the first of its alternatives reads that does not
fail, and leaves their failures and one of its own.  It recognizes a language if
no alternative hides a member of the language from those behind it.
-/

namespace CompactSql.Grammar

open Rule

variable {α : Type}

namespace Rule

def Fails (rule : Rule α) (cursor : Cursor) : Prop :=
  ∃ trail failure, rule cursor = ⟨trail, .error failure⟩

section Choice

variable {expected : Expectation} {cursor : Cursor}

theorem firstOfFrom_cons_ok {best : Option Failure} {name : String} {rule : Rule α}
    {others : List (String × Rule α)} {trail : List Event} {read : α × Cursor}
    (run : rule cursor = ⟨trail, .ok read⟩) :
    firstOfFrom expected cursor best ((name, rule) :: others) = ⟨trail, .ok read⟩ := by
  rw [firstOfFrom, run]

theorem firstOfFrom_cons_error {best : Option Failure} {name : String}
    {rule : Rule α} {others : List (String × Rule α)} {trail : List Event}
    {failure : Failure} (run : rule cursor = ⟨trail, .error failure⟩) :
    firstOfFrom expected cursor best ((name, rule) :: others) =
      (firstOfFrom expected cursor (some (further best failure)) others).behind
        (trail ++ [.backtracked cursor.index failure, .rejected name]) := by
  rw [firstOfFrom, run]

theorem firstOfFrom_nil (α : Type) (expected : Expectation) (cursor : Cursor)
    (best : Option Failure) :
    ∃ failure,
      (firstOfFrom expected cursor best [] : Outcome α) = ⟨[], .error failure⟩ ∧
      (failure = .unexpected expected cursor.current ∨ best = some failure) := by
  cases best with
  | none => exact ⟨_, rfl, .inl rfl⟩
  | some best =>
      by_cases further : cursor.current.span.start < best.span.start
      · exact ⟨best, by simp [firstOfFrom, further], .inr rfl⟩
      · exact ⟨_, by simp only [firstOfFrom, if_neg further]; rfl, .inl rfl⟩

theorem exists_of_firstOfFrom_ok {best : Option Failure}
    {alternatives : List (String × Rule α)} {trail : List Event} {read : α × Cursor}
    (h : firstOfFrom expected cursor best alternatives = ⟨trail, .ok read⟩) :
    ∃ alternative ∈ alternatives, ∃ inner, alternative.2 cursor = ⟨inner, .ok read⟩ := by
  induction alternatives generalizing best trail with
  | nil =>
      obtain ⟨failure, failed, -⟩ := firstOfFrom_nil α expected cursor best
      simp [failed] at h
  | cons alternative others ih =>
      rcases run_cases alternative.2 cursor with
        ⟨inner, failure, run⟩ | ⟨inner, value, after, run⟩
      · rw [firstOfFrom_cons_error run] at h
        obtain ⟨_, later, -⟩ := Outcome.behind_eq h
        obtain ⟨chosen, member, found⟩ := ih later
        exact ⟨chosen, List.mem_cons_of_mem _ member, found⟩
      · rw [firstOfFrom_cons_ok run] at h
        cases h
        exact ⟨alternative, List.mem_cons_self, _, run⟩

theorem further_cases (best : Option Failure) (failure : Failure) :
    further best failure = failure ∨ best = some (further best failure) := by
  rcases best with _ | best
  · exact .inl rfl
  · by_cases closer : best.span.start < failure.span.start
    · exact .inl (if_pos closer)
    · exact .inr (congrArg some (if_neg closer).symm)

def Chosen (expected : Expectation) (alternatives : List (String × Rule α))
    (cursor : Cursor) (read : α × Cursor) : Prop :=
  ∀ best, ∃ trail, firstOfFrom expected cursor best alternatives = ⟨trail, .ok read⟩

theorem Chosen.take {name : String} {rule : Rule α} {others : List (String × Rule α)}
    {read : α × Cursor} (h : ∃ trail, rule cursor = ⟨trail, .ok read⟩) :
    Chosen expected ((name, rule) :: others) cursor read := by
  obtain ⟨trail, run⟩ := h
  exact fun best => ⟨trail, firstOfFrom_cons_ok run⟩

theorem Chosen.skip {name : String} {rule : Rule α} {others : List (String × Rule α)}
    {read : α × Cursor} (h : Fails rule cursor)
    (rest : Chosen expected others cursor read) :
    Chosen expected ((name, rule) :: others) cursor read := by
  intro best
  obtain ⟨inner, failure, failed⟩ := h
  obtain ⟨trail, found⟩ := rest (some (further best failure))
  rw [firstOfFrom_cons_error failed, found, Outcome.behind_mk]
  exact ⟨_, rfl⟩

theorem mem_failures_firstOfFrom {best : Option Failure}
    {alternatives : List (String × Rule α)} {failure : Failure}
    (h : failure ∈ (firstOfFrom expected cursor best alternatives).failures) :
    (∃ alternative ∈ alternatives, failure ∈ (alternative.2 cursor).failures) ∨
      failure = .unexpected expected cursor.current ∨ best = some failure := by
  induction alternatives generalizing best with
  | nil =>
      obtain ⟨final, failed, origin⟩ := firstOfFrom_nil α expected cursor best
      rw [failed] at h
      obtain rfl := List.mem_singleton.mp h
      exact .inr origin
  | cons alternative others ih =>
      rcases run_cases alternative.2 cursor with
        ⟨inner, found, run⟩ | ⟨inner, value, after, run⟩
      · have own := mem_failures_of_error run
        rw [firstOfFrom_cons_error run, Outcome.failures_behind, List.mem_append] at h
        rcases h with early | late
        · refine .inl ⟨alternative, List.mem_cons_self, ?_⟩
          rw [run, Outcome.failures_error]
          simpa [Event.failure?] using early
        · rcases ih late with ⟨chosen, member, mine⟩ | mine | mine
          · exact .inl ⟨chosen, List.mem_cons_of_mem _ member, mine⟩
          · exact .inr (.inl mine)
          · -- the best failure so far is the new one or stays the old one
            obtain rfl := Option.some.inj mine
            rcases further_cases best found with new | old
            · exact .inl ⟨alternative, List.mem_cons_self, new.symm ▸ own⟩
            · exact .inr (.inr old)
      · rw [firstOfFrom_cons_ok run] at h
        exact .inl ⟨alternative, List.mem_cons_self, run ▸ h⟩

private theorem failures_subset_firstOfFrom {best : Option Failure} {name : String}
    {rule : Rule α} {others : List (String × Rule α)} {failure : Failure}
    (h : failure ∈ (rule cursor).failures) :
    failure ∈
      (firstOfFrom expected cursor best ((name, rule) :: others)).failures := by
  rcases run_cases rule cursor with
    ⟨inner, found, run⟩ | ⟨inner, value, after, run⟩
  · rw [run, Outcome.failures_error] at h
    rw [firstOfFrom_cons_error run, Outcome.failures_behind]
    refine List.mem_append_left _ ?_
    simpa [Event.failure?] using h
  · rw [firstOfFrom_cons_ok run, ← run]
    exact h

end Choice

end Rule

theorem within_of_firstOfFrom {expected : Expectation} {best : Option Failure}
    {name : String} {rule : Rule α} {others : List (String × Rule α)}
    {cursor : Cursor} {tail : List Token}
    (within : (firstOfFrom expected cursor best ((name, rule) :: others)).Within tail) :
    (rule cursor).Within tail := by
  refine ⟨fun failure member => within.1 failure (failures_subset_firstOfFrom member), ?_⟩
  intro value after result
  refine within.2 value after ?_
  rcases run_cases rule cursor with ⟨inner, found, run⟩ | ⟨inner, value, after, run⟩
  · simp [run] at result
  · rw [firstOfFrom_cons_ok run, ← result, run]

theorem stable_firstOfFrom {expected : Expectation} {bound index : Nat}
    {best : Option Failure} {alternatives : List (String × Rule α)}
    {shared tail tail' : List Token}
    (each : ∀ alternative ∈ alternatives, Stable bound alternative.2)
    (nonempty : shared ≠ [])
    (short : (shared ++ tail).length < bound)
    (short' : (shared ++ tail').length < bound) (ended : Terminated (shared ++ tail))
    (within : (firstOfFrom expected ⟨index, shared ++ tail⟩ best alternatives).Within
      tail) :
    (firstOfFrom expected ⟨index, shared ++ tail⟩ best alternatives).Alike tail tail'
      (firstOfFrom expected ⟨index, shared ++ tail'⟩ best alternatives) := by
  -- on the alternatives left, whatever has failed before them
  induction alternatives generalizing best with
  | nil =>
      obtain ⟨token, shared, rfl⟩ := List.exists_cons_of_ne_nil nonempty
      obtain ⟨failure, failed, -⟩ := firstOfFrom_nil α expected
        ⟨index, token :: shared ++ tail⟩ best
      have failed' : (firstOfFrom expected ⟨index, token :: shared ++ tail'⟩ best [] :
          Outcome α) = ⟨[], .error failure⟩ := failed
      rw [failed, failed']
      exact .error [] failure
  | cons alternative others ih =>
      have alike := each _ List.mem_cons_self short short' ended
        (within_of_firstOfFrom within)
      rcases run_cases alternative.2 ⟨index, shared ++ tail⟩ with
        ⟨inner, found, run⟩ | ⟨inner, value, after, run⟩
      · rw [run] at alike
        rw [firstOfFrom_cons_error run] at within ⊢
        rw [firstOfFrom_cons_error alike.eq_error]
        refine (ih (fun other member => each other (List.mem_cons_of_mem _ member))
          ?_).behind _
        refine ⟨fun failure member => within.1 failure ?_, within.2⟩
        rw [Outcome.failures_behind]
        exact List.mem_append_right _ member
      · obtain ⟨left, leftover, rest⟩ :=
          (within_of_firstOfFrom within).2 value after (by rw [run])
        obtain ⟨index', _⟩ := after
        obtain rfl : _ = left ++ tail := rest
        rw [run] at alike
        rw [firstOfFrom_cons_ok run, firstOfFrom_cons_ok alike.eq_ok]
        exact .ok _ _ _ leftover

namespace Recognizes

variable {bound : Nat} {rule : Rule α} {language : Language α}
  {extending : List Token.Kind}

theorem fails (h : Recognizes bound rule language extending) {index : Nat}
    {tokens : List Token} (short : tokens.length < bound)
    (none : ∀ row rest value, kinds tokens = row ++ rest → ¬ language row value) :
    Fails rule ⟨index, tokens⟩ := by
  rcases run_cases rule ⟨index, tokens⟩ with failed | ⟨trail, value, after, run⟩
  · exact failed
  · obtain ⟨front, back, split, -, member⟩ := h.sound short run
    exact absurd member (none (kinds front) (kinds back) value (by rw [split, kinds_append]))

theorem firstOf {expected : Expectation} {alternatives : List (String × Rule α)}
    (nonempty : alternatives ≠ [])
    (each : ∀ alternative ∈ alternatives, ∃ part extending',
      Recognizes bound alternative.2 part extending' ∧
        ∀ row value, part row value → language row value)
    (noEnd : ∀ row value, language row value → .eof ∉ row)
    (inhabited : ∃ kind, expected.Admits kind)
    (admits : ∀ kind, expected.Admits kind → language.Viable [kind])
    (complete : ∀ index front back {value}, (front ++ back).length < bound →
      language (kinds front) value → nextKind back ∉ extending →
      Chosen expected alternatives ⟨index, front ++ back⟩
        (value, ⟨index + front.length, back⟩)) :
    Recognizes bound (Rule.firstOf expected alternatives) language extending where
  productive := by
    obtain ⟨kind, admitted⟩ := inhabited
    obtain ⟨back, value, member⟩ := admits kind admitted
    exact ⟨kind :: back, value, member⟩
  noEnd := noEnd _ _
  sound := by
    intro index tokens trail value after short run
    obtain ⟨alternative, member, inner, found⟩ := exists_of_firstOfFrom_ok run
    obtain ⟨part, _, recognizes, sub⟩ := each alternative member
    obtain ⟨front, back, split, last, read⟩ := recognizes.sound short found
    exact ⟨front, back, split, last, sub _ _ read⟩
  complete := fun index front back _ short member closed =>
    complete index front back short member closed none
  blames := by
    intro index tokens failure short ended failed
    rcases mem_failures_firstOfFrom failed with ⟨alternative, member, failed⟩ | rfl | none
    · obtain ⟨part, _, recognizes, sub⟩ := each alternative member
      obtain ⟨front, token, back, expected, split, hfailure, expects⟩ :=
        recognizes.blames short ended failed
      exact ⟨front, token, back, expected, split, hfailure,
        expects.map fun row viable => viable.mono sub⟩
    · cases tokens with
      | nil => cases ended
      | cons token rest => exact ⟨[], token, rest, expected, rfl, rfl, inhabited, admits⟩
    · cases none
  stable := by
    intro index shared tail tail' short short' ended within
    -- with nothing shared the first alternative already looks at the tail
    by_cases empty : shared = []
    · subst empty
      obtain ⟨⟨name, rule⟩, others, rfl⟩ := List.exists_cons_of_ne_nil nonempty
      obtain ⟨part, _, recognizes, -⟩ := each _ List.mem_cons_self
      exact absurd (within_of_firstOfFrom within)
        (recognizes.looks [] short ended)
    · refine stable_firstOfFrom ?_ empty short short' ended within
      intro alternative member
      obtain ⟨part, _, recognizes, -⟩ := each alternative member
      exact recognizes.stable

end Recognizes

end CompactSql.Grammar
