import CompactSql.Grammar.Rule

/-!
# Runs of rules

How a run of a rule is put together from the runs of its parts: which failures
it leaves, given up or final, and where a step of a sequence can succeed or fail.
A token list is read up to its end token, which is the last and the only one.
-/

namespace CompactSql.Grammar

variable {α β : Type}

def kinds (tokens : List Token) : List Token.Kind := tokens.map Token.kind

@[simp] theorem kinds_nil : kinds [] = [] := rfl

@[simp] theorem kinds_cons (token : Token) (tokens : List Token) :
    kinds (token :: tokens) = token.kind :: kinds tokens := rfl

@[simp] theorem kinds_append (front back : List Token) :
    kinds (front ++ back) = kinds front ++ kinds back := by
  simp [kinds]

@[simp] theorem length_kinds (tokens : List Token) :
    (kinds tokens).length = tokens.length := by
  simp [kinds]

def nextKind (tokens : List Token) : Token.Kind :=
  (Cursor.mk 0 tokens).current.kind

@[simp] theorem nextKind_nil : nextKind [] = .eof := rfl

@[simp] theorem nextKind_cons (token : Token) (tokens : List Token) :
    nextKind (token :: tokens) = token.kind := rfl

theorem current_kind (cursor : Cursor) :
    cursor.current.kind = nextKind cursor.rest := rfl

theorem advance_cons {token : Token} (index : Nat) (tokens : List Token)
    (h : token.kind ≠ .eof) :
    Cursor.advance ⟨index, token :: tokens⟩ = ⟨index + 1, tokens⟩ := by
  simp [Cursor.advance, Token.isEof, h]

def unplaced (row : List Token.Kind) : List Token := row.map fun kind => ⟨kind, .point 0⟩

@[simp] theorem kinds_unplaced (row : List Token.Kind) : kinds (unplaced row) = row := by
  simp [kinds, unplaced, Function.comp_def]

theorem unplaced_append (front back : List Token.Kind) :
    unplaced (front ++ back) = unplaced front ++ unplaced back := by
  simp [unplaced]

theorem nextKind_unplaced (row : List Token.Kind) :
    nextKind (unplaced row) = row.headD .eof := by
  cases row <;> rfl

/-- The list ends in an end token and has no other. -/
inductive Terminated : List Token → Prop
  | last {token : Token} : token.kind = .eof → Terminated [token]
  | cons {token : Token} {tokens : List Token} :
      token.kind ≠ .eof → Terminated tokens → Terminated (token :: tokens)

namespace Terminated

theorem tail {token : Token} {tokens : List Token}
    (h : Terminated (token :: tokens)) (inner : token.kind ≠ .eof) :
    Terminated tokens := by
  cases h with
  | last final => exact absurd final inner
  | cons _ rest => exact rest

theorem succ_lt {tokens : List Token} {index : Nat} {token : Token} (h : Terminated tokens)
    (found : tokens[index]? = some token) (inner : token.kind ≠ .eof) :
    index + 1 < tokens.length := by
  induction h generalizing index with
  | last final =>
      cases index with
      | zero =>
          obtain rfl : _ = token := by simpa using found
          exact absurd final inner
      | succ index => simp at found
  | @cons first rest _ _ ih =>
      cases index with
      | zero =>
          cases rest with
          | nil => contradiction
          | cons other others => simp
      | succ index => simpa using ih (by simpa using found)

theorem of_append {front back : List Token} (h : Terminated (front ++ back))
    (inner : .eof ∉ kinds front) : Terminated back := by
  induction front with
  | nil => exact h
  | cons token front ih =>
      rw [kinds_cons, List.mem_cons, not_or] at inner
      exact ih (h.tail (Ne.symm inner.1)) inner.2

theorem append {front back : List Token} (inner : .eof ∉ kinds front)
    (h : Terminated back) : Terminated (front ++ back) := by
  induction front with
  | nil => exact h
  | cons token front ih =>
      rw [kinds_cons, List.mem_cons, not_or] at inner
      exact .cons (Ne.symm inner.1) (ih inner.2)

theorem eq_singleton {tokens : List Token} (h : Terminated tokens)
    (ended : nextKind tokens = .eof) : ∃ token, tokens = [token] ∧ token.kind = .eof := by
  cases h with
  | last final => exact ⟨_, rfl, final⟩
  | cons inner _ => exact absurd ended inner

theorem iff_append {tokens : List Token} :
    Terminated tokens ↔ ∃ body last, tokens = body ++ [last] ∧
      last.kind = .eof ∧ ∀ token ∈ body, token.kind ≠ .eof := by
  constructor
  · intro h
    induction h with
    | last final => exact ⟨[], _, rfl, final, by simp⟩
    | @cons token _ inner _ ih =>
        obtain ⟨body, last, rfl, final, rest⟩ := ih
        exact ⟨token :: body, last, rfl, final, by simpa using ⟨inner, rest⟩⟩
  · rintro ⟨body, last, rfl, final, inner⟩
    refine append ?_ (.last final)
    rw [kinds, List.mem_map]
    rintro ⟨token, member, ended⟩
    exact inner token member ended

end Terminated

/-! ## Outcomes -/

def Event.failure? : Event → Option Failure
  | backtracked _ failure => some failure
  | rejected _ => none

namespace Outcome

/-- The failures of a run: those given up on the way and the one it ends with. -/
def failures (outcome : Outcome α) : List Failure :=
  outcome.trail.filterMap Event.failure? ++
    match outcome.result with
    | .ok _ => []
    | .error failure => [failure]

theorem failures_ok (trail : List Event) (read : α × Cursor) :
    failures ⟨trail, .ok read⟩ = trail.filterMap Event.failure? := by
  simp [failures]

theorem failures_error (trail : List Event) (failure : Failure) :
    failures (⟨trail, .error failure⟩ : Outcome α) =
      trail.filterMap Event.failure? ++ [failure] := rfl

@[simp] theorem failures_behind (trail : List Event) (outcome : Outcome α) :
    (outcome.behind trail).failures =
      trail.filterMap Event.failure? ++ outcome.failures := by
  simp [failures, behind]

@[simp] theorem behind_mk (trail trail' : List Event)
    (result : Except Failure (α × Cursor)) :
    behind trail ⟨trail', result⟩ = ⟨trail ++ trail', result⟩ := rfl

theorem behind_behind (trail trail' : List Event) (outcome : Outcome α) :
    (outcome.behind trail').behind trail = outcome.behind (trail ++ trail') := by
  simp [behind]

@[simp] theorem behind_nil (outcome : Outcome α) : outcome.behind [] = outcome := rfl

theorem behind_eq {trail trail' : List Event} {outcome : Outcome α}
    {result : Except Failure (α × Cursor)}
    (h : outcome.behind trail = ⟨trail', result⟩) :
    ∃ inner, outcome = ⟨inner, result⟩ ∧ trail' = trail ++ inner := by
  cases outcome with
  | mk inner found =>
      simp only [behind_mk, Outcome.mk.injEq] at h
      obtain ⟨rfl, rfl⟩ := h
      exact ⟨inner, rfl, rfl⟩

end Outcome

namespace Rule

theorem pure_apply (value : α) (cursor : Cursor) :
    (pure value : Rule α) cursor = ⟨[], .ok (value, cursor)⟩ := rfl

theorem bind_of_ok {rule : Rule α} {next : α → Rule β} {cursor after : Cursor}
    {trail : List Event} {value : α}
    (h : rule cursor = ⟨trail, .ok (value, after)⟩) :
    (rule >>= next) cursor = (next value after).behind trail := by
  change Rule.bind rule next cursor = _
  simp [Rule.bind, h]

theorem bind_of_error {rule : Rule α} {next : α → Rule β} {cursor : Cursor}
    {trail : List Event} {failure : Failure}
    (h : rule cursor = ⟨trail, .error failure⟩) :
    (rule >>= next) cursor = ⟨trail, .error failure⟩ := by
  change Rule.bind rule next cursor = _
  simp [Rule.bind, h]

theorem bind_congr {rule rule' : Rule α} {next : α → Rule β} {cursor cursor' : Cursor}
    (h : rule cursor = rule' cursor') :
    (rule >>= next) cursor = (rule' >>= next) cursor' := by
  change Rule.bind rule next cursor = Rule.bind rule' next cursor'
  rw [Rule.bind, Rule.bind, h]

theorem run_cases (rule : Rule α) (cursor : Cursor) :
    (∃ trail failure, rule cursor = ⟨trail, .error failure⟩) ∨
      ∃ trail value after, rule cursor = ⟨trail, .ok (value, after)⟩ := by
  rcases h : rule cursor with ⟨trail, failure | ⟨value, after⟩⟩
  · exact .inl ⟨trail, failure, rfl⟩
  · exact .inr ⟨trail, value, after, rfl⟩

/-- What follows a step matters only where the step ends. -/
theorem bind_congr_next {rule : Rule α} {next next' : α → Rule β} {cursor : Cursor}
    (h : ∀ trail value after, rule cursor = ⟨trail, .ok (value, after)⟩ →
      next value after = next' value after) :
    (rule >>= next) cursor = (rule >>= next') cursor := by
  rcases run_cases rule cursor with ⟨trail, failure, run⟩ | ⟨trail, value, after, run⟩
  · rw [bind_of_error run, bind_of_error run]
  · rw [bind_of_ok run, bind_of_ok run, h trail value after run]

theorem mem_failures_of_error {rule : Rule α} {cursor : Cursor} {trail : List Event}
    {failure : Failure} (run : rule cursor = ⟨trail, .error failure⟩) :
    failure ∈ (rule cursor).failures := by
  rw [run, Outcome.failures_error]
  exact List.mem_append_right _ (List.mem_singleton_self _)

theorem bind_eq_ok {rule : Rule α} {next : α → Rule β} {cursor last : Cursor}
    {trail : List Event} {value : β}
    (h : (rule >>= next) cursor = ⟨trail, .ok (value, last)⟩) :
    ∃ trail₁ first after trail₂,
      rule cursor = ⟨trail₁, .ok (first, after)⟩ ∧
      next first after = ⟨trail₂, .ok (value, last)⟩ ∧
      trail = trail₁ ++ trail₂ := by
  rcases run_cases rule cursor with ⟨trail₁, failure, hrule⟩ | ⟨trail₁, first, after, hrule⟩
  · simp [bind_of_error hrule] at h
  · rw [bind_of_ok hrule] at h
    obtain ⟨trail₂, hnext, htrail⟩ := Outcome.behind_eq h
    exact ⟨trail₁, first, after, trail₂, hrule, hnext, htrail⟩

theorem mem_failures_bind {rule : Rule α} {next : α → Rule β} {cursor : Cursor}
    {failure : Failure} (h : failure ∈ ((rule >>= next) cursor).failures) :
    failure ∈ (rule cursor).failures ∨
      ∃ trail value after, rule cursor = ⟨trail, .ok (value, after)⟩ ∧
        failure ∈ (next value after).failures := by
  rcases run_cases rule cursor with ⟨trail, final, hrule⟩ | ⟨trail, value, after, hrule⟩
  · rw [bind_of_error hrule] at h
    rw [hrule]
    exact .inl h
  · rw [bind_of_ok hrule, Outcome.failures_behind, List.mem_append] at h
    rw [hrule, Outcome.failures_ok]
    exact h.imp id fun later => ⟨trail, value, after, rfl, later⟩

theorem failures_subset_bind {rule : Rule α} {next : α → Rule β} {cursor : Cursor}
    {failure : Failure} (h : failure ∈ (rule cursor).failures) :
    failure ∈ ((rule >>= next) cursor).failures := by
  rcases run_cases rule cursor with ⟨trail, final, hrule⟩ | ⟨trail, value, after, hrule⟩
  · rw [bind_of_error hrule]
    rwa [hrule] at h
  · rw [bind_of_ok hrule, Outcome.failures_behind]
    rw [hrule, Outcome.failures_ok] at h
    exact List.mem_append_left _ h

theorem failures_next_subset_bind {rule : Rule α} {next : α → Rule β}
    {cursor after : Cursor} {trail : List Event} {value : α} {failure : Failure}
    (hrule : rule cursor = ⟨trail, .ok (value, after)⟩)
    (h : failure ∈ (next value after).failures) :
    failure ∈ ((rule >>= next) cursor).failures := by
  rw [bind_of_ok hrule, Outcome.failures_behind]
  exact List.mem_append_right _ h

theorem bind_assoc {γ : Type} (rule : Rule α) (next : α → Rule β) (last : β → Rule γ) :
    rule >>= next >>= last = rule >>= fun value => next value >>= last := by
  funext cursor
  rcases run_cases rule cursor with ⟨trail, failure, run⟩ | ⟨trail, value, after, run⟩
  · rw [bind_of_error (bind_of_error run), bind_of_error run]
  · rcases run_cases (next value) after with
      ⟨trail', failure, more⟩ | ⟨trail', value', after', more⟩
    · have both : (rule >>= next) cursor = ⟨trail ++ trail', .error failure⟩ := by
        rw [bind_of_ok run, more, Outcome.behind_mk]
      rw [bind_of_error both, bind_of_ok run, bind_of_error more, Outcome.behind_mk]
    · have both : (rule >>= next) cursor = ⟨trail ++ trail', .ok (value', after')⟩ := by
        rw [bind_of_ok run, more, Outcome.behind_mk]
      rw [bind_of_ok both, bind_of_ok run, bind_of_ok more, Outcome.behind_behind]

theorem pure_bind (value : α) (next : α → Rule β) : pure value >>= next = next value := by
  funext cursor
  exact (bind_of_ok (pure_apply value cursor)).trans (Outcome.behind_nil _)

theorem bind_pure (rule : Rule α) : rule >>= pure = rule := by
  funext cursor
  rcases run_cases rule cursor with ⟨trail, failure, run⟩ | ⟨trail, value, after, run⟩
  · rw [bind_of_error run, run]
  · rw [bind_of_ok run, pure_apply, Outcome.behind_mk, List.append_nil, run]

theorem map_eq_bind (f : α → β) (rule : Rule α) :
    f <$> rule = rule >>= fun value => pure (f value) := rfl

theorem map_of_ok (f : α → β) {rule : Rule α} {cursor after : Cursor}
    {trail : List Event} {value : α}
    (h : rule cursor = ⟨trail, .ok (value, after)⟩) :
    (f <$> rule) cursor = ⟨trail, .ok (f value, after)⟩ := by
  rw [map_eq_bind, bind_of_ok h, pure_apply, Outcome.behind_mk, List.append_nil]

theorem map_of_error (f : α → β) {rule : Rule α} {cursor : Cursor}
    {trail : List Event} {failure : Failure}
    (h : rule cursor = ⟨trail, .error failure⟩) :
    (f <$> rule) cursor = ⟨trail, .error failure⟩ := bind_of_error h

/-! ## Single tokens -/

theorem ofKind_eq_some {kind found : Token.Kind} {read : Unit} :
    ofKind kind found = some read ↔ found = kind := by
  simp [ofKind]

@[simp] theorem ofKind_self (kind : Token.Kind) : ofKind kind kind = some () :=
  ofKind_eq_some.mpr rfl

theorem ofKind_eq_none {kind found : Token.Kind} :
    ofKind kind found = none ↔ found ≠ kind := by
  simp [ofKind]

theorem ofKind_of_not_mem {kind : Token.Kind} {extending : List Token.Kind}
    (member : kind ∈ extending) (found : Token.Kind) (h : found ∉ extending) :
    ofKind kind found = none := by
  refine ofKind_eq_none.mpr ?_
  rintro rfl
  exact h member

theorem readIf_bind_some {accept : Token.Kind → Option β} {next : Option β → Rule α}
    {token : Token} {read : β} (index : Nat) (tokens : List Token)
    (inner : token.kind ≠ .eof) (accepted : accept token.kind = some read) :
    (readIf accept >>= next) ⟨index, token :: tokens⟩ =
      next (some read) ⟨index + 1, tokens⟩ := by
  have run : readIf accept ⟨index, token :: tokens⟩ =
      ⟨[], .ok (some read, ⟨index + 1, tokens⟩)⟩ := by
    simp [readIf, current_kind, accepted, advance_cons index tokens inner]
  rw [bind_of_ok run, Outcome.behind_nil]

theorem readIf_bind_none {accept : Token.Kind → Option β} {next : Option β → Rule α}
    {tokens : List Token} (index : Nat) (refused : accept (nextKind tokens) = none) :
    (readIf accept >>= next) ⟨index, tokens⟩ = next none ⟨index, tokens⟩ := by
  have run : readIf accept ⟨index, tokens⟩ = ⟨[], .ok (none, ⟨index, tokens⟩)⟩ := by
    simp [readIf, current_kind, refused]
  rw [bind_of_ok run, Outcome.behind_nil]

theorem inner_of_accepted {accept : Token.Kind → Option β} {kind : Token.Kind} {read : β}
    (noEnd : accept .eof = none) (accepted : accept kind = some read) : kind ≠ .eof := by
  rintro rfl
  rw [noEnd] at accepted
  cases accepted

theorem next_of_accepted {accept : Token.Kind → Option β} {tokens : List Token}
    {read : β} (noEnd : accept .eof = none)
    (accepted : accept (nextKind tokens) = some read) :
    ∃ token rest, tokens = token :: rest ∧ token.kind ≠ .eof ∧
      accept token.kind = some read := by
  cases tokens with
  | nil => simp [noEnd] at accepted
  | cons token rest =>
      rw [nextKind_cons] at accepted
      exact ⟨token, rest, rfl, inner_of_accepted noEnd accepted, accepted⟩

theorem read_of_some {expected : Expectation} {accept : Token.Kind → Option α}
    {token : Token} {value : α} (index : Nat) (tokens : List Token)
    (inner : token.kind ≠ .eof) (accepted : accept token.kind = some value) :
    read expected accept ⟨index, token :: tokens⟩ =
      ⟨[], .ok (value, ⟨index + 1, tokens⟩)⟩ := by
  simp [read, current_kind, accepted, advance_cons index tokens inner]

theorem read_of_none {expected : Expectation} {accept : Token.Kind → Option α}
    {tokens : List Token} (index : Nat) (refused : accept (nextKind tokens) = none) :
    read expected accept ⟨index, tokens⟩ =
      ⟨[], .error (.unexpected expected (Cursor.mk index tokens).current)⟩ := by
  simp [read, current_kind, refused, unexpected]

theorem read_bind_some {expected : Expectation} {accept : Token.Kind → Option α}
    {next : α → Rule β} {token : Token} {value : α} (index : Nat) (tokens : List Token)
    (inner : token.kind ≠ .eof) (accepted : accept token.kind = some value) :
    (read expected accept >>= next) ⟨index, token :: tokens⟩ =
      next value ⟨index + 1, tokens⟩ := by
  rw [bind_of_ok (read_of_some index tokens inner accepted), Outcome.behind_nil]

theorem keyword_bind {word : Keyword} {next : Unit → Rule β} {token : Token}
    (index : Nat) (tokens : List Token) (h : token.kind = .keyword word) :
    (keyword word >>= next) ⟨index, token :: tokens⟩ = next () ⟨index + 1, tokens⟩ :=
  read_bind_some index tokens (by simp [h]) (by simp [h, ofKeyword])

theorem symbol_bind {kind : Token.Kind} {next : Unit → Rule β} {token : Token}
    (index : Nat) (tokens : List Token) (inner : kind ≠ .eof) (h : token.kind = kind) :
    (symbol kind >>= next) ⟨index, token :: tokens⟩ = next () ⟨index + 1, tokens⟩ :=
  read_bind_some index tokens (h ▸ inner) (by simp [h])

theorem keyword_bind_of_ne {word : Keyword} {next : Unit → Rule β} {token : Token}
    (index : Nat) (tokens : List Token) (h : token.kind ≠ .keyword word) :
    (keyword word >>= next) ⟨index, token :: tokens⟩ =
      ⟨[], .error (.unexpected (.keyword word) token)⟩ := by
  have refused : ofKeyword word (nextKind (token :: tokens)) = none := ofKind_eq_none.mpr h
  exact bind_of_error (read_of_none index refused)

theorem readIf_bind_of_some {accept : Token.Kind → Option α} {next : Option α → Rule β}
    {cursor : Cursor} {value : α} (expected : Expectation)
    (accepted : accept cursor.current.kind = some value) :
    (readIf accept >>= next) cursor =
      (read expected accept >>= fun value => next (some value)) cursor := by
  have found : readIf accept cursor = ⟨[], .ok (some value, cursor.advance)⟩ := by
    simp only [readIf, accepted]
  have demanded : read expected accept cursor = ⟨[], .ok (value, cursor.advance)⟩ := by
    simp only [read, accepted]
  rw [bind_of_ok found, bind_of_ok demanded]

theorem here_bind {next : Span → Rule β} (cursor : Cursor) :
    (here >>= next) cursor = next cursor.current.span cursor := by
  have run : here cursor = ⟨[], .ok (cursor.current.span, cursor)⟩ := rfl
  rw [bind_of_ok run, Outcome.behind_nil]

def NoLonger (rule : Rule α) : Prop :=
  ∀ ⦃cursor trail value after⦄, rule cursor = ⟨trail, .ok (value, after)⟩ →
    after.rest.length ≤ cursor.rest.length

theorem NoLonger.bind {rule : Rule α} {next : α → Rule β} (h : NoLonger rule)
    (hnext : ∀ value, NoLonger (next value)) : NoLonger (rule >>= next) := by
  intro cursor trail value last run
  obtain ⟨_, first, after, _, run₁, run₂, -⟩ := bind_eq_ok run
  exact Nat.le_trans (hnext first run₂) (h run₁)

/-! ## Repetition -/

section Repeated

variable {lead : Token.Kind → Option β} {item : β → Rule α}

theorem repeated_turn (cursor : Cursor) : repeated lead item cursor =
    match lead cursor.current.kind with
    | none => ⟨[], .ok ([], cursor)⟩
    | some led =>
        match item led cursor.advance with
        | ⟨trail, .error failure⟩ => ⟨trail, .error failure⟩
        | ⟨trail, .ok (value, after)⟩ =>
            if after.rest.length < cursor.rest.length then
              match repeated lead item after with
              | ⟨trail', .error failure⟩ => ⟨trail ++ trail', .error failure⟩
              | ⟨trail', .ok (values, last)⟩ =>
                  ⟨trail ++ trail', .ok (value :: values, last)⟩
            else
              ⟨trail, .ok ([value], after)⟩ := by
  change repeatedAt lead item cursor = _
  rw [repeatedAt]
  rfl

theorem repeated_of_none {tokens : List Token} (index : Nat)
    (h : lead (nextKind tokens) = none) :
    repeated lead item ⟨index, tokens⟩ = ⟨[], .ok ([], ⟨index, tokens⟩)⟩ := by
  rw [repeated_turn, current_kind]
  simp only [h]

theorem repeated_of_error {led : β} {token : Token} {rest : List Token} {index : Nat}
    {trail : List Event} {failure : Failure} (inner : token.kind ≠ .eof)
    (h : lead token.kind = some led)
    (run : item led ⟨index + 1, rest⟩ = ⟨trail, .error failure⟩) :
    repeated lead item ⟨index, token :: rest⟩ = ⟨trail, .error failure⟩ := by
  rw [repeated_turn, current_kind, nextKind_cons, advance_cons index rest inner]
  simp only [h, run]

theorem repeated_of_ok {led : β} {token : Token} {rest : List Token} {index : Nat}
    {trail : List Event} {value : α} {after : Cursor} (inner : token.kind ≠ .eof)
    (h : lead token.kind = some led)
    (run : item led ⟨index + 1, rest⟩ = ⟨trail, .ok (value, after)⟩)
    (shorter : after.rest.length ≤ rest.length) :
    repeated lead item ⟨index, token :: rest⟩ =
      (((value :: ·) <$> repeated lead item) after).behind trail := by
  rw [repeated_turn, current_kind, nextKind_cons, advance_cons index rest inner]
  simp only [h, run, List.length_cons, Nat.lt_succ_iff, if_pos shorter]
  rcases run_cases (repeated lead item) after with
    ⟨trail', failure, more⟩ | ⟨trail', values, last, more⟩
  · rw [map_of_error _ more, more, Outcome.behind_mk]
  · rw [map_of_ok _ more, more, Outcome.behind_mk]

theorem repeated_eq_bind {tokens : List Token} (index : Nat) (noEnd : lead .eof = none)
    (shrinks : ∀ token rest led trail value after, tokens = token :: rest →
      token.kind ≠ .eof → item led ⟨index + 1, rest⟩ = ⟨trail, .ok (value, after)⟩ →
      after.rest.length ≤ rest.length) :
    repeated lead item ⟨index, tokens⟩ =
      (do match ← readIf lead with
          | none => return []
          | some led =>
              let value ← item led
              (value :: ·) <$> repeated lead item : Rule (List α))
        ⟨index, tokens⟩ := by
  cases accepted : lead (nextKind tokens) with
  | none => rw [readIf_bind_none index accepted, repeated_of_none index accepted]; rfl
  | some led =>
      obtain ⟨token, rest, rfl, inner, accepted⟩ := next_of_accepted noEnd accepted
      rw [readIf_bind_some index rest inner accepted]
      rcases run_cases (item led) ⟨index + 1, rest⟩ with
        ⟨trail, failure, run⟩ | ⟨trail, value, after, run⟩
      · rw [repeated_of_error inner accepted run]
        exact (bind_of_error run).symm
      · rw [repeated_of_ok inner accepted run (shrinks _ _ _ _ _ _ rfl inner run)]
        have rest : (item led >>= fun value => (value :: ·) <$> repeated lead item)
            ⟨index + 1, rest⟩ = _ := bind_of_ok run
        exact rest.symm

end Repeated

end Rule

end CompactSql.Grammar
