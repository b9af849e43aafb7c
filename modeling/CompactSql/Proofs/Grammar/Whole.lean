import CompactSql.Proofs.Grammar.Statement

/-!
# Whole inputs

A rule that reads to the end of the input judges a language: it accepts the
members of the language and nothing else, each failure that concerns a token
leaves a viable row before it, and a failing run never depends on what lies
behind the last token it blames.
-/

namespace CompactSql.Grammar

open Rule Grammar.Derivation

variable {α β : Type}

def Concerns (token : Token) (failure : Failure) : Prop :=
  failure.complaint.found? = some token.kind ∧ failure.span = token.span

structure Judges (rule : Rule α) (language : Language α) : Prop where
  noEnd : ∀ {row value}, language row value → .eof ∉ row
  sound : ∀ {index tokens trail value after}, Terminated tokens →
    rule ⟨index, tokens⟩ = ⟨trail, .ok (value, after)⟩ →
    ∃ body last, tokens = body ++ [last] ∧ after = ⟨index + body.length, [last]⟩ ∧
      language (kinds body) value
  complete : ∀ index body last {value}, last.kind = .eof → language (kinds body) value →
    ∃ trail, rule ⟨index, body ++ [last]⟩ =
      ⟨trail, .ok (value, ⟨index + body.length, [last]⟩)⟩
  blames : ∀ {index tokens failure}, Terminated tokens →
    failure ∈ (rule ⟨index, tokens⟩).failures → failure.complaint.found? ≠ none →
    ∃ front token back, tokens = front ++ token :: back ∧ Concerns token failure ∧
      language.Viable (kinds front)
  stable : ∀ bound, Stable bound rule

private theorem Terminated.body_last {body : List Token} {last : Token}
    (h : Terminated (body ++ [last])) : last.kind = .eof ∧ .eof ∉ kinds body := by
  induction body with
  | nil =>
      cases h with
      | last final => exact ⟨final, List.not_mem_nil⟩
      | cons _ rest => cases rest
  | cons token body ih =>
      rw [List.cons_append] at h
      generalize rest : body ++ [last] = others at h ih
      cases h with
      | last _ => simp at rest
      | cons inner later =>
          obtain ⟨final, absent⟩ := ih later
          exact ⟨final, by simp [Ne.symm inner, absent]⟩

theorem terminated_snoc {body : List Token} {last : Token} (final : last.kind = .eof)
    (inner : .eof ∉ kinds body) : Terminated (body ++ [last]) :=
  .append inner (.last final)

theorem ended_of_eof (value : α) (index : Nat) {tokens : List Token}
    (h : nextKind tokens = .eof) :
    ended value ⟨index, tokens⟩ = ⟨[], .ok (value, ⟨index, tokens⟩)⟩ := by
  simp [ended, Token.isEof, current_kind, h]

theorem ended_of_ne (value : α) (index : Nat) {tokens : List Token}
    (h : nextKind tokens ≠ .eof) :
    ended value ⟨index, tokens⟩ =
      ⟨[], .error (.trailing (Cursor.mk index tokens).current)⟩ := by
  simp [ended, Token.isEof, current_kind, h]

theorem trailing_of_ended (value : α) {index : Nat} {tokens : List Token} {failure : Failure}
    (terminated : Terminated tokens)
    (failed : failure ∈ (ended value ⟨index, tokens⟩).failures) :
    ∃ token rest, tokens = token :: rest ∧ failure = .trailing token := by
  by_cases final : nextKind tokens = .eof
  · rw [ended_of_eof value index final] at failed
    simp [Outcome.failures] at failed
  · rw [ended_of_ne value index final, Outcome.failures_error] at failed
    cases tokens with
    | nil => cases terminated
    | cons token rest => exact ⟨token, rest, rfl, List.mem_singleton.mp failed⟩

section Complete

variable {rule : Rule α} {language : Language α} {extending : List Token.Kind}

theorem complete_sound (h : ∀ bound, Recognizes bound rule language extending)
    {index : Nat} {tokens : List Token} {trail : List Event} {value : α} {after : Cursor}
    (terminated : Terminated tokens)
    (run : complete rule ⟨index, tokens⟩ = ⟨trail, .ok (value, after)⟩) :
    ∃ body last, tokens = body ++ [last] ∧ after = ⟨index + body.length, [last]⟩ ∧
      language (kinds body) value := by
  obtain ⟨_, read, ⟨index', rest⟩, _, first, last, -⟩ := bind_eq_ok run
  obtain ⟨front, back, rfl, stopped, member⟩ := (h _).sound (Nat.lt_succ_self _) first
  obtain ⟨rfl, rfl⟩ : index' = index + front.length ∧ rest = back := by
    simpa using stopped
  by_cases final : nextKind rest = .eof
  · rw [ended_of_eof read _ final] at last
    cases last
    obtain ⟨token, rfl, -⟩ :=
      (terminated.of_append ((h 0).noEnd member)).eq_singleton final
    exact ⟨front, token, rfl, rfl, member⟩
  · rw [ended_of_ne read _ final] at last
    cases last

theorem complete_complete (h : ∀ bound, Recognizes bound rule language extending)
    (outside : .eof ∉ extending) (index : Nat) (body : List Token) (last : Token) {value : α}
    (final : last.kind = .eof) (member : language (kinds body) value) :
    ∃ trail, complete rule ⟨index, body ++ [last]⟩ =
      ⟨trail, .ok (value, ⟨index + body.length, [last]⟩)⟩ := by
  have closed : nextKind [last] ∉ extending := by
    rw [nextKind_cons, final]
    exact outside
  obtain ⟨trail, run⟩ :=
    (h _).complete index body [last] (Nat.lt_succ_self _) member closed
  refine ⟨trail, ?_⟩
  rw [complete, bind_of_ok run, ended_of_eof value _ (show nextKind [last] = .eof from final),
    Outcome.behind_mk, List.append_nil]

theorem mem_failures_complete (h : ∀ bound, Recognizes bound rule language extending)
    {index : Nat} {tokens : List Token} {failure : Failure} (terminated : Terminated tokens)
    (failed : failure ∈ (complete rule ⟨index, tokens⟩).failures) :
    failure ∈ (rule ⟨index, tokens⟩).failures ∨
      ∃ front token back value, tokens = front ++ token :: back ∧
        failure = .trailing token ∧ language (kinds front) value := by
  refine (mem_failures_bind failed).imp_right ?_
  rintro ⟨trail, value, ⟨index', rest⟩, run, late⟩
  obtain ⟨front, back, rfl, stopped, member⟩ := (h _).sound (Nat.lt_succ_self _) run
  obtain ⟨rfl, rfl⟩ : index' = index + front.length ∧ rest = back := by
    simpa using stopped
  obtain ⟨token, back, rfl, trailing⟩ :=
    trailing_of_ended value (terminated.of_append ((h 0).noEnd member)) late
  exact ⟨front, token, back, value, rfl, trailing, member⟩

theorem complete_blames (h : ∀ bound, Recognizes bound rule language extending)
    {index : Nat} {tokens : List Token} {failure : Failure}
    (terminated : Terminated tokens)
    (failed : failure ∈ (complete rule ⟨index, tokens⟩).failures) :
    ∃ front token back, tokens = front ++ token :: back ∧ Concerns token failure ∧
      language.Viable (kinds front) := by
  rcases mem_failures_complete h terminated failed with
    inner | ⟨front, token, back, value, split, rfl, member⟩
  · obtain ⟨front, token, back, expected, split, rfl, expects⟩ :=
      (h _).blames (Nat.lt_succ_self _) terminated inner
    exact ⟨front, token, back, split, ⟨rfl, rfl⟩, expects.viable⟩
  · exact ⟨front, token, back, split, ⟨rfl, rfl⟩, [], value, by simpa using member⟩

theorem ended_stable (value : α) (bound : Nat) : Stable bound (ended value) := by
  intro index shared tail tail' _ _ terminated within
  by_cases final : nextKind (shared ++ tail) = .eof
  · rw [ended_of_eof value index final] at within ⊢
    obtain ⟨left, nonempty, rest⟩ := within.2 value _ rfl
    obtain rfl := List.append_cancel_right rest
    obtain ⟨token, shared, rfl⟩ := List.exists_cons_of_ne_nil nonempty
    have same : nextKind (token :: shared ++ tail') = .eof := final
    rw [ended_of_eof value index same]
    exact .ok [] value index nonempty
  · rw [ended_of_ne value index final] at within ⊢
    have avoided := within.1 _ (List.mem_singleton_self _)
    cases shared with
    | nil =>
        cases tail with
        | nil => cases terminated
        | cons token rest => exact absurd rfl (avoided.2 token List.mem_cons_self)
    | cons token shared =>
        have same : nextKind (token :: shared ++ tail') ≠ .eof := final
        rw [ended_of_ne value index same]
        exact .error [] _

theorem ended_looks (value : α) (bound : Nat) : Looks bound (ended value) := by
  intro index tokens gap _ terminated within
  by_cases final : nextKind tokens = .eof
  · exact Nat.lt_irrefl _ (within.length_lt (ended_of_eof value index final))
  · rw [ended_of_ne value index final] at within
    cases tokens with
    | nil => cases terminated
    | cons token rest =>
        have avoided := within.1 _ (List.mem_singleton_self _)
        exact avoided.2 token (by simp) rfl

theorem Judges.complete_rule (h : ∀ bound, Recognizes bound rule language extending)
    (outside : .eof ∉ extending) : Judges (Rule.complete rule) language where
  noEnd := (h 0).noEnd
  sound := complete_sound h
  complete := fun index body last _ => complete_complete h outside index body last
  blames := fun terminated failed _ => complete_blames h terminated failed
  stable := fun bound => (h bound).stable_bind (fun value => ended_stable value bound)
    (fun value => ended_looks value bound) fun _ _ _ => Nat.le_add_right _ _

end Complete

/-! ## Judging -/

namespace Judges

variable {rule : Rule α} {language : Language α}

theorem looks (h : Judges rule language) (bound : Nat) : Looks bound rule := by
  intro index tokens gap _ terminated within
  rcases run_cases rule ⟨index, tokens⟩ with
    ⟨trail, failure, run⟩ | ⟨trail, value, after, run⟩
  · have failed := mem_failures_of_error run
    have avoided := within.1 _ failed
    obtain ⟨front, token, back, rfl, concerns, -⟩ := h.blames terminated failed avoided.1
    exact avoided.2 token (by simp) concerns.2
  · have longer := within.length_lt run
    obtain ⟨body, last, rfl, rfl, -⟩ := h.sound terminated run
    simp only [List.length_append] at longer
    omega

theorem fails (h : Judges rule language) {index : Nat} {body : List Token} {last : Token}
    (terminated : Terminated (body ++ [last]))
    (none : ∀ value, ¬ language (kinds body) value) :
    Fails rule ⟨index, body ++ [last]⟩ := by
  rcases run_cases rule ⟨index, body ++ [last]⟩ with
    failed | ⟨trail, value, after, run⟩
  · exact failed
  · obtain ⟨body', last', split, -, member⟩ := h.sound terminated run
    obtain ⟨rfl, -⟩ := List.append_inj' split rfl
    exact absurd member (none value)

theorem firstOf {expected : Expectation} {alternatives : List (String × Rule α)}
    (nonempty : alternatives ≠ [])
    (each : ∀ alternative ∈ alternatives, ∃ part, Judges alternative.2 part ∧
      ∀ row value, part row value → language row value)
    (noEnd : ∀ row value, language row value → .eof ∉ row) (viable : language.Viable [])
    (complete : ∀ index body last {value}, last.kind = .eof → language (kinds body) value →
      Chosen expected alternatives ⟨index, body ++ [last]⟩
        (value, ⟨index + body.length, [last]⟩)) :
    Judges (Rule.firstOf expected alternatives) language where
  noEnd := noEnd _ _
  sound := by
    intro index tokens trail value after terminated run
    obtain ⟨alternative, member, inner, found⟩ := exists_of_firstOfFrom_ok run
    obtain ⟨part, judges, sub⟩ := each alternative member
    obtain ⟨body, last, split, stopped, read⟩ := judges.sound terminated found
    exact ⟨body, last, split, stopped, sub _ _ read⟩
  complete := fun index body last _ final member => complete index body last final member none
  blames := by
    intro index tokens failure terminated failed found
    rcases mem_failures_firstOfFrom failed with ⟨alternative, member, failed⟩ | rfl | none
    · obtain ⟨part, judges, sub⟩ := each alternative member
      obtain ⟨front, token, back, split, concerns, before⟩ :=
        judges.blames terminated failed found
      exact ⟨front, token, back, split, concerns, before.mono sub⟩
    · cases tokens with
      | nil => cases terminated
      | cons token rest => exact ⟨[], token, rest, rfl, ⟨rfl, rfl⟩, viable⟩
    · cases none
  stable := by
    intro bound index shared tail tail' short short' terminated within
    by_cases empty : shared = []
    · subst empty
      obtain ⟨⟨name, rule⟩, others, rfl⟩ := List.exists_cons_of_ne_nil nonempty
      obtain ⟨part, judges, -⟩ := each _ List.mem_cons_self
      exact absurd (within_of_firstOfFrom within) (judges.looks bound [] short terminated)
    · refine stable_firstOfFrom ?_ empty short short' terminated within
      intro alternative member
      obtain ⟨part, judges, -⟩ := each alternative member
      exact judges.stable bound

theorem unique (h : Judges rule language) {row : List Token.Kind} {value value' : α}
    (member : language row value) (member' : language row value') : value = value' := by
  rw [← kinds_unplaced row] at member member'
  obtain ⟨trail, run⟩ := h.complete 0 (unplaced row) ⟨.eof, .point 0⟩ rfl member
  obtain ⟨trail', run'⟩ := h.complete 0 (unplaced row) ⟨.eof, .point 0⟩ rfl member'
  rw [run] at run'
  simp only [Outcome.mk.injEq, Except.ok.injEq, Prod.mk.injEq] at run'
  exact run'.2.1

end Judges

theorem run_of_ok {rule : Rule α} {tokens : List Token} {trail : List Event} {value : α}
    {after : Cursor} (run : rule (.ofTokens tokens) = ⟨trail, .ok (value, after)⟩) :
    (rule.run tokens).result = .ok value := by
  rw [Rule.run, run]

theorem keepFurthest_spec (trail : List Event) (first : Failure) :
    ∃ best, trail.foldl Event.keepFurthest (some first) = some best ∧
      best ∈ first :: trail.filterMap Event.failure? ∧
      ∀ failure ∈ first :: trail.filterMap Event.failure?,
        failure.span.start ≤ best.span.start := by
  -- on the trail, for whatever failure is the best so far
  induction trail generalizing first with
  | nil => exact ⟨first, rfl, by simp, by simp⟩
  | cons event trail ih =>
      cases event with
      | rejected name => exact ih first
      | backtracked restored failure =>
          by_cases further : first.span.start ≤ failure.span.start
          · obtain ⟨best, found, member, most⟩ := ih failure
            refine ⟨best, by simpa [Event.keepFurthest, further] using found,
              List.mem_cons_of_mem _ member, ?_⟩
            intro other among
            rcases List.mem_cons.mp among with rfl | among
            · exact Nat.le_trans further (most failure List.mem_cons_self)
            · exact most other among
          · obtain ⟨best, found, member, most⟩ := ih first
            refine ⟨best, by simpa [Event.keepFurthest, further] using found, ?_, ?_⟩
            · rcases List.mem_cons.mp member with rfl | member
              · exact List.mem_cons_self
              · exact List.mem_cons_of_mem _ (List.mem_cons_of_mem _ member)
            · intro other among
              rcases List.mem_cons.mp among with rfl | among
              · exact most other List.mem_cons_self
              · rcases List.mem_cons.mp among with rfl | among
                · have := most first List.mem_cons_self
                  omega
                · exact most other (List.mem_cons_of_mem _ among)

theorem furthest_spec (trail : List Event) :
    (furthest trail = none ∧ trail.filterMap Event.failure? = []) ∨
      ∃ best, furthest trail = some best ∧ best ∈ trail.filterMap Event.failure? ∧
        ∀ failure ∈ trail.filterMap Event.failure?,
          failure.span.start ≤ best.span.start := by
  induction trail with
  | nil => exact .inl ⟨rfl, rfl⟩
  | cons event trail ih =>
      cases event with
      | rejected name => exact ih
      | backtracked restored failure => exact .inr (keepFurthest_spec trail failure)

/-- A failing run reports one of its failures, and none of them got further. -/
theorem run_of_error {rule : Rule α} {tokens : List Token} {trail : List Event}
    {failure : Failure} (run : rule (.ofTokens tokens) = ⟨trail, .error failure⟩) :
    ∃ reported, (rule.run tokens).result = .error reported ∧
      reported ∈ (rule (.ofTokens tokens)).failures ∧
      ∀ other ∈ (rule (.ofTokens tokens)).failures,
        other.span.start ≤ reported.span.start := by
  rw [Rule.run, run, Outcome.failures_error]
  rcases furthest_spec trail with ⟨none, empty⟩ | ⟨best, found, member, most⟩
  · exact ⟨failure, by simp [none], by simp, by simp [empty]⟩
  · by_cases further : failure.span.start < best.span.start
    · refine ⟨best, by simp [found, further], List.mem_append_left _ member, ?_⟩
      intro other among
      rcases List.mem_append.mp among with among | among
      · exact most other among
      · obtain rfl := List.mem_singleton.mp among
        exact Nat.le_of_lt further
    · refine ⟨failure, by simp [found, further], by simp, ?_⟩
      intro other among
      rcases List.mem_append.mp among with among | among
      · exact Nat.le_trans (most other among) (Nat.le_of_not_lt further)
      · obtain rfl := List.mem_singleton.mp among
        exact Nat.le_refl _

/-! ## What is reported -/

/-- The failure that is reported when a run leaves the trail and fails: the last of those
on the trail that got furthest, if they got further. -/
def reported (trail : List Event) (failure : Failure) : Failure :=
  ((furthest trail).filter (failure.span.start < ·.span.start)).getD failure

theorem run_eq_reported {rule : Rule α} {tokens : List Token} {trail : List Event}
    {failure : Failure} (run : rule (.ofTokens tokens) = ⟨trail, .error failure⟩) :
    (rule.run tokens).result = .error (reported trail failure) := by
  rw [Rule.run, run, reported]
  cases best : furthest trail with
  | none => simp [best]
  | some candidate =>
      by_cases further : failure.span.start < candidate.span.start
      · simp [best, further, Option.filter_some]
      · simp [best, further, Option.filter_some]

def Event.beyond (place : Nat) : Event → Bool
  | backtracked _ failure => place < failure.span.start
  | rejected _ => false

section Beyond

variable {place : Nat} {event : Event}

private theorem filter_keepFurthest (h : event.beyond place = true) (best : Option Failure) :
    (Event.keepFurthest best event).filter (place < ·.span.start) =
      Event.keepFurthest (best.filter (place < ·.span.start)) event := by
  cases event with
  | rejected name => cases h
  | backtracked restored failure =>
      have behind : place < failure.span.start := of_decide_eq_true h
      cases best with
      | none => simp [Event.keepFurthest, behind, Option.filter_some]
      | some best =>
          by_cases further : best.span.start ≤ failure.span.start
          · by_cases kept : place < best.span.start
            · simp [Event.keepFurthest, further, behind, kept, Option.filter_some]
            · simp [Event.keepFurthest, further, behind, kept, Option.filter_some]
          · have kept : place < best.span.start := by omega
            simp [Event.keepFurthest, further, kept, Option.filter_some]

private theorem filter_keepFurthest_of_near (h : event.beyond place = false)
    (best : Option Failure) :
    (Event.keepFurthest best event).filter (place < ·.span.start) =
      best.filter (place < ·.span.start) := by
  cases event with
  | rejected name => rfl
  | backtracked restored failure =>
      have near : ¬ place < failure.span.start := of_decide_eq_false h
      cases best with
      | none => simp [Event.keepFurthest, near, Option.filter_some]
      | some best =>
          by_cases further : best.span.start ≤ failure.span.start
          · have dropped : ¬ place < best.span.start := by omega
            simp [Event.keepFurthest, further, near, dropped, Option.filter_some]
          · simp [Event.keepFurthest, further]

private theorem foldl_keepFurthest_beyond (place : Nat) (trail : List Event)
    (best : Option Failure) :
    (trail.foldl Event.keepFurthest best).filter (place < ·.span.start) =
      (trail.filter (Event.beyond place)).foldl Event.keepFurthest
        (best.filter (place < ·.span.start)) := by
  induction trail generalizing best with
  | nil => rfl
  | cons event trail ih =>
      rw [List.foldl_cons, ih]
      cases beyond : event.beyond place with
      | true => rw [filter_keepFurthest beyond, List.filter_cons_of_pos beyond, List.foldl_cons]
      | false =>
          rw [filter_keepFurthest_of_near beyond, List.filter_cons_of_neg (by simp [beyond])]

end Beyond

def Near (place : Nat) (trail : List Event) : Prop :=
  ∀ event ∈ trail, event.beyond place = false

theorem reported_between {front trail back : List Event} {failure : Failure}
    (before : Near failure.span.start front) (behind : Near failure.span.start back) :
    reported (front ++ (trail ++ back)) failure = reported trail failure := by
  -- only failures beyond the place can outdo one that lies there
  have nothing {events : List Event} (near : Near failure.span.start events) :
      events.filter (Event.beyond failure.span.start) = [] :=
    List.filter_eq_nil_iff.mpr fun event member => by simp [near event member]
  simp only [reported, furthest, foldl_keepFurthest_beyond, List.filter_append, nothing before,
    nothing behind, List.nil_append, List.append_nil]

theorem run_eq_ok {rule : Rule α} {tokens : List Token} {value : α} :
    (rule.run tokens).result = .ok value ↔
      ∃ trail after, rule (.ofTokens tokens) = ⟨trail, .ok (value, after)⟩ := by
  rcases run_cases rule (.ofTokens tokens) with
    ⟨trail, failure, run⟩ | ⟨trail, found, after, run⟩
  · obtain ⟨reported, result, -⟩ := run_of_error run
    simp [result, run]
  · simp [run_of_ok run, run]

/-- A reader accepts the members of the language that its rule judges. -/
theorem Judges.run_iff {rule : Rule α} {language : Language α} (h : Judges rule language)
    (body : List Token) {last : Token} (terminated : Terminated (body ++ [last]))
    (value : α) :
    (rule.run (body ++ [last])).result = .ok value ↔ language (kinds body) value := by
  rw [run_eq_ok]
  constructor
  · rintro ⟨trail, after, run⟩
    obtain ⟨body', last', split, -, member⟩ := h.sound terminated run
    obtain ⟨rfl, -⟩ := List.append_inj' split rfl
    exact member
  · intro member
    obtain ⟨trail, run⟩ := h.complete 0 body last terminated.body_last.1 member
    exact ⟨trail, _, run⟩

end CompactSql.Grammar
