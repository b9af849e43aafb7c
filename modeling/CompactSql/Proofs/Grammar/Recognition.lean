import CompactSql.Proofs.Grammar.Language

/-!
# Rules and the languages they recognize

`Recognizes` ties a rule to a language.  What the rule reads is of the language;
what is of the language it reads, unless a kind is next that would extend it;
each failure it leaves blames a token behind a viable row, and with an
expectation that is honoured there; and a run never depends on tokens behind
the last one it has looked at.  The combinators of rules keep this relation.

A relation up to a bound speaks of the token lists shorter than the bound, for
the sake of rules that call themselves on what is left.
-/

namespace CompactSql.Grammar

variable {α β : Type}

def avoids (tail : List Token) (failure : Failure) : Prop :=
  failure.complaint.found? ≠ none ∧ ∀ token ∈ tail, failure.span ≠ token.span

def Outcome.Within (tail : List Token) (outcome : Outcome α) : Prop :=
  (∀ failure ∈ outcome.failures, avoids tail failure) ∧
    ∀ value after, outcome.result = .ok (value, after) →
      ∃ left, left ≠ [] ∧ after.rest = left ++ tail

theorem Outcome.Within.length_lt {outcome : Outcome α} {gap tokens : List Token}
    (within : outcome.Within (gap ++ tokens)) {trail : List Event} {value : α} {after : Cursor}
    (run : outcome = ⟨trail, .ok (value, after)⟩) : tokens.length < after.rest.length := by
  obtain ⟨left, nonempty, rest⟩ := within.2 value after (by rw [run])
  have positive := List.length_pos_iff.mpr nonempty
  rw [rest, List.length_append, List.length_append]
  omega

inductive Outcome.Alike (tail tail' : List Token) : Outcome α → Outcome α → Prop
  | error (trail : List Event) (failure : Failure) :
      Alike tail tail' ⟨trail, .error failure⟩ ⟨trail, .error failure⟩
  | ok (trail : List Event) (value : α) (index : Nat) {left : List Token} :
      left ≠ [] →
      Alike tail tail' ⟨trail, .ok (value, ⟨index, left ++ tail⟩)⟩
        ⟨trail, .ok (value, ⟨index, left ++ tail'⟩)⟩

theorem Outcome.Alike.behind {tail tail' : List Token} {first second : Outcome α}
    (trail : List Event) (h : Alike tail tail' first second) :
    Alike tail tail' (first.behind trail) (second.behind trail) := by
  cases h with
  | error inner failure => exact .error _ _
  | ok inner value index nonempty => exact .ok _ _ _ nonempty

theorem Outcome.Alike.eq_error {tail tail' : List Token} {trail : List Event}
    {failure : Failure} {other : Outcome α}
    (h : Alike tail tail' ⟨trail, .error failure⟩ other) :
    other = ⟨trail, .error failure⟩ := by
  cases h
  rfl

theorem Outcome.Alike.eq_ok {tail tail' left : List Token} {trail : List Event}
    {value : α} {index : Nat} {other : Outcome α}
    (h : Alike tail tail' ⟨trail, .ok (value, ⟨index, left ++ tail⟩)⟩ other) :
    other = ⟨trail, .ok (value, ⟨index, left ++ tail'⟩)⟩ := by
  generalize hall : left ++ tail = all at h
  cases h with
  | ok _ _ _ nonempty =>
      obtain rfl := List.append_cancel_right hall
      rfl

/-- A run that stays before the tail is the same with another tail. -/
def Stable (bound : Nat) (rule : Rule α) : Prop :=
  ∀ {index : Nat} {shared tail tail' : List Token},
    (shared ++ tail).length < bound → (shared ++ tail').length < bound →
    Terminated (shared ++ tail) → (rule ⟨index, shared ++ tail⟩).Within tail →
    (rule ⟨index, shared ++ tail⟩).Alike tail tail' (rule ⟨index, shared ++ tail'⟩)

/-- A run looks at least at the token that is next. -/
def Looks (bound : Nat) (rule : Rule α) : Prop :=
  ∀ {index : Nat} {tokens : List Token} (gap : List Token), tokens.length < bound →
    Terminated tokens → ¬ (rule ⟨index, tokens⟩).Within (gap ++ tokens)

/-! ## Recognition -/

structure Recognizes (bound : Nat) (rule : Rule α) (language : Language α)
    (extending : List Token.Kind) : Prop where
  productive : ∃ row value, language row value
  noEnd : ∀ {row : List Token.Kind} {value : α}, language row value → .eof ∉ row
  sound : ∀ {index : Nat} {tokens : List Token} {trail : List Event} {value : α}
    {after : Cursor}, tokens.length < bound →
    rule ⟨index, tokens⟩ = ⟨trail, .ok (value, after)⟩ →
    ∃ front back, tokens = front ++ back ∧ after = ⟨index + front.length, back⟩ ∧
      language (kinds front) value
  complete : ∀ (index : Nat) (front back : List Token) {value : α},
    (front ++ back).length < bound → language (kinds front) value →
    nextKind back ∉ extending →
    ∃ trail, rule ⟨index, front ++ back⟩ =
      ⟨trail, .ok (value, ⟨index + front.length, back⟩)⟩
  blames : ∀ {index : Nat} {tokens : List Token} {failure : Failure},
    tokens.length < bound → Terminated tokens →
    failure ∈ (rule ⟨index, tokens⟩).failures →
    ∃ front token back expected, tokens = front ++ token :: back ∧
      failure = .unexpected expected token ∧
      language.Expects (kinds front) expected
  stable : Stable bound rule

/-- Behind a member of the language, and also where the member is empty, no
kind is next that would extend what stands before it. -/
def Follows (extending extending' : List Token.Kind) (language : Language α) : Prop :=
  ∀ row value last, language row value → last ∉ extending' →
    (row ++ [last]).headD .eof ∉ extending

theorem Follows.nil (extending : List Token.Kind) (language : Language α) :
    Follows [] extending language := by
  intro row value last _ _
  exact List.not_mem_nil

theorem nextKind_append (front back : List Token) :
    nextKind (front ++ back) = (kinds front ++ [nextKind back]).headD .eof := by
  cases front with
  | nil => rfl
  | cons token front => rfl

namespace Recognizes

variable {bound bound' : Nat} {rule : Rule α} {language : Language α}
  {extending extending' : List Token.Kind}

theorem of_iff {language' : Language α}
    (same : ∀ row value, language row value ↔ language' row value)
    (h : Recognizes bound rule language extending) :
    Recognizes bound rule language' extending := by
  have eq : language = language' := by
    funext row value
    exact propext (same row value)
  exact eq ▸ h

theorem weaken (sub : extending ⊆ extending')
    (h : Recognizes bound rule language extending) :
    Recognizes bound rule language extending' :=
  { h with
    complete := fun index front back _ short member closed =>
      h.complete index front back short member fun extended => closed (sub extended) }

theorem looks (h : Recognizes bound rule language extending) : Looks bound rule := by
  intro index tokens gap short ended within
  rcases Rule.run_cases rule ⟨index, tokens⟩ with
    ⟨trail, failure, run⟩ | ⟨trail, value, after, run⟩
  · have failed := Rule.mem_failures_of_error run
    obtain ⟨front, token, back, expected, rfl, rfl, -⟩ := h.blames short ended failed
    exact (within.1 _ failed).2 token (by simp) rfl
  · have longer := within.length_lt run
    obtain ⟨front, back, rfl, rfl, -⟩ := h.sound short run
    simp only [List.length_append] at longer
    omega

/-! ## Sequences -/

theorem pure (value : α) :
    Recognizes bound (Pure.pure value : Rule α) (Language.nothing value) [] where
  productive := ⟨[], value, rfl, rfl⟩
  noEnd := by
    rintro row _ ⟨rfl, -⟩
    exact List.not_mem_nil
  sound := by
    intro index tokens trail found after _ run
    rw [Rule.pure_apply] at run
    cases run
    exact ⟨[], tokens, rfl, rfl, rfl, rfl⟩
  complete := by
    rintro index front back found _ ⟨empty, rfl⟩ _
    obtain rfl : front = [] := by simpa [kinds] using empty
    exact ⟨[], rfl⟩
  blames := by
    intro index tokens failure _ _ failed
    simp [Rule.pure_apply, Outcome.failures] at failed
  stable := by
    intro index shared tail tail' _ _ _ within
    obtain ⟨left, nonempty, rest⟩ := within.2 value _ rfl
    obtain rfl : shared = left := List.append_cancel_right rest
    exact .ok [] value index nonempty

private theorem remains {shared tail front back : List Token} {index : Nat}
    (h : Looks bound rule) (short : back.length < bound) (ended : Terminated back)
    (split : shared ++ tail = front ++ back)
    (within : (rule ⟨index, back⟩).Within tail) :
    ∃ left, left ≠ [] ∧ shared = front ++ left ∧ back = left ++ tail := by
  rcases List.append_eq_append_iff.mp split with
    ⟨gap, rfl, rfl⟩ | ⟨left, rfl, rfl⟩
  · exact absurd within (h _ short ended)
  · refine ⟨left, ?_, rfl, rfl⟩
    rintro rfl
    exact h [] short ended within

theorem stable_bind {next : α → Rule β}
    (hfirst : Recognizes bound rule language extending)
    (stable : ∀ read, Stable bound' (next read)) (looks : ∀ read, Looks bound' (next read))
    (shorter : ∀ row read, language row read → bound ≤ bound' + row.length) :
    Stable bound (rule >>= next) := by
  intro index shared tail tail' short short' ended within
  have avoided : ∀ failure ∈ (rule ⟨index, shared ++ tail⟩).failures,
      avoids tail failure :=
    fun failure member => within.1 failure (Rule.failures_subset_bind member)
  rcases Rule.run_cases rule ⟨index, shared ++ tail⟩ with
    ⟨trail, failure, run⟩ | ⟨trail, read, after, run⟩
  · have alike := hfirst.stable short short' ended ⟨avoided, by simp [run]⟩
    rw [run] at alike
    rw [Rule.bind_of_error run, Rule.bind_of_error alike.eq_error]
    exact .error _ _
  · obtain ⟨front, back, split, rfl, left⟩ := hfirst.sound short run
    have bounded := shorter _ _ left
    rw [length_kinds] at bounded
    have ended' : Terminated back := (split ▸ ended).of_append (hfirst.noEnd left)
    -- the second step stays before the tail, so the first one leaves tokens before it
    have inner : (next read ⟨index + front.length, back⟩).Within tail := by
      refine ⟨fun found member =>
        within.1 found (Rule.failures_next_subset_bind run member), ?_⟩
      intro value last result
      refine within.2 value last ?_
      rw [Rule.bind_of_ok run]
      exact result
    have lengths := congrArg List.length split
    simp only [List.length_append] at short short' lengths
    obtain ⟨rest, nonempty, rfl, rfl⟩ :=
      remains (looks read) (by omega) ended' split inner
    simp only [List.length_append] at short short'
    have before : (rule ⟨index, front ++ rest ++ tail⟩).Within tail := by
      refine ⟨avoided, ?_⟩
      rw [run]
      rintro _ _ ⟨⟩
      exact ⟨rest, nonempty, rfl⟩
    have alike : Outcome.Alike tail tail' _ _ :=
      hfirst.stable (by simp; omega) (by simp; omega) ended before
    rw [run] at alike
    rw [Rule.bind_of_ok run, Rule.bind_of_ok alike.eq_ok]
    exact (stable read (by simp; omega) (by simp; omega) ended' inner).behind _

theorem bind {next : α → Rule β} {second : α → Language β}
    (hfirst : Recognizes bound rule language extending)
    (hsecond : ∀ read, Recognizes bound' (next read) (second read) extending')
    (shorter : ∀ row read, language row read → bound ≤ bound' + row.length)
    (follows : ∀ read, Follows extending extending' (second read)) :
    Recognizes bound (rule >>= next) (language.andThen second) extending' where
  productive := by
    obtain ⟨front, read, left⟩ := hfirst.productive
    obtain ⟨back, value, right⟩ := (hsecond read).productive
    exact ⟨front ++ back, value, read, front, back, rfl, left, right⟩
  noEnd := by
    rintro _ value ⟨read, front, back, rfl, left, right⟩ member
    rcases List.mem_append.mp member with member | member
    · exact hfirst.noEnd left member
    · exact (hsecond read).noEnd right member
  sound := by
    intro index tokens trail value last short run
    obtain ⟨_, read, after, _, run₁, run₂, -⟩ := Rule.bind_eq_ok run
    obtain ⟨front, rest, rfl, rfl, left⟩ := hfirst.sound short run₁
    have bounded := shorter _ _ left
    rw [List.length_append] at short
    rw [length_kinds] at bounded
    obtain ⟨middle, back, rfl, rfl, right⟩ :=
      (hsecond read).sound (by omega) run₂
    refine ⟨front ++ middle, back, by simp, by simp [Nat.add_assoc], ?_⟩
    exact ⟨read, kinds front, kinds middle, by simp, left, right⟩
  complete := by
    rintro index tokens back value short ⟨read, first, rest, split, left, right⟩ closed
    obtain ⟨front, middle, rfl, rfl, rfl⟩ := List.map_eq_append_iff.mp split
    have bounded := shorter _ _ left
    simp only [List.length_append, List.length_map] at short bounded
    -- what closes the whole row does not extend its first part either
    have open₁ : nextKind (middle ++ back) ∉ extending := by
      rw [nextKind_append]
      exact follows read _ _ _ right closed
    obtain ⟨trail₁, run₁⟩ := hfirst.complete index front (middle ++ back)
      (by simp; omega) left open₁
    obtain ⟨trail₂, run₂⟩ := (hsecond read).complete (index + front.length) middle
      back (by simp; omega) right closed
    refine ⟨trail₁ ++ trail₂, ?_⟩
    rw [List.append_assoc, Rule.bind_of_ok run₁, run₂, List.length_append, Nat.add_assoc]
    rfl
  blames := by
    intro index tokens failure short ended failed
    rcases Rule.mem_failures_bind failed with failed | ⟨_, read, after, run, failed⟩
    · obtain ⟨front, token, back, expected, split, rfl, expects⟩ :=
        hfirst.blames short ended failed
      refine ⟨front, token, back, expected, split, rfl, expects.map ?_⟩
      rintro row ⟨rest, read, left⟩
      -- a row that goes on in the first part is ended by any row of the second
      obtain ⟨more, value, right⟩ := (hsecond read).productive
      exact ⟨rest ++ more, value, read, _, more, by simp, left, right⟩
    · obtain ⟨front, rest, rfl, rfl, left⟩ := hfirst.sound short run
      have bounded := shorter _ _ left
      rw [length_kinds] at bounded
      rw [List.length_append] at short
      obtain ⟨middle, token, back, expected, rfl, rfl, expects⟩ :=
        (hsecond read).blames (by omega) (ended.of_append (hfirst.noEnd left)) failed
      refine ⟨front ++ middle, token, back, expected, by simp, rfl, ?_⟩
      refine Language.Expects.map expects ?_
      rintro row ⟨more, value, right⟩
      exact ⟨more, value, read, kinds front, kinds middle ++ row ++ more, by simp,
        left, right⟩
  stable := hfirst.stable_bind (fun read => (hsecond read).stable)
    (fun read => (hsecond read).looks) shorter

theorem map (f : α → β) (h : Recognizes bound rule language extending) :
    Recognizes bound (f <$> rule)
      (fun row value => ∃ read, language row read ∧ value = f read) extending := by
  rw [Rule.map_eq_bind]
  have last (read : α) : Recognizes bound (Pure.pure (f read) : Rule β)
      (Language.nothing (f read)) extending :=
    (pure (f read)).weaken (List.nil_subset extending)
  refine of_iff ?_ (h.bind last
    (fun _ _ _ => Nat.le_add_right _ _) ?_)
  · intro row value
    constructor
    · rintro ⟨read, front, _, rfl, member, rfl, rfl⟩
      exact ⟨read, by simpa using member, rfl⟩
    · rintro ⟨read, member, rfl⟩
      exact ⟨read, row, [], by simp, member, rfl, rfl⟩
  · rintro read _ _ kind ⟨rfl, rfl⟩ closed
    exact closed

/-! ## Single tokens -/

private theorem stable_ifNext {accept : Token.Kind → Option β} {next : Option β → Rule α}
    {found : β → Language α} {absent : Language α} (noEnd : accept .eof = none)
    (hfound : ∀ read, Recognizes bound' (next (some read)) (found read) extending)
    (habsent : Recognizes bound (next none) absent extending)
    (shorter : bound ≤ bound' + 1) : Stable bound (Rule.readIf accept >>= next) := by
  intro index shared tail tail' short short' ended within
  cases accepted : accept (nextKind (shared ++ tail)) with
  | none =>
      rw [Rule.readIf_bind_none index accepted] at within ⊢
      cases shared with
      | nil => exact absurd within (habsent.looks [] short ended)
      | cons token shared =>
          have same : accept (nextKind (token :: shared ++ tail')) = none := accepted
          rw [Rule.readIf_bind_none index same]
          exact habsent.stable short short' ended within
  | some read =>
      obtain ⟨token, rest, split, inner, accepted⟩ := Rule.next_of_accepted noEnd accepted
      rw [split, Rule.readIf_bind_some index rest inner accepted] at within ⊢
      rw [split] at ended short
      simp only [List.length_cons] at short
      cases shared with
      | nil =>
          obtain rfl : tail = token :: rest := split
          exact absurd within ((hfound read).looks [token] (by omega)
            (ended.tail inner))
      | cons first shared =>
          rw [List.cons_append] at split
          obtain ⟨rfl, rfl⟩ := List.cons.inj split
          simp only [List.cons_append, List.length_cons] at short'
          rw [List.cons_append, Rule.readIf_bind_some index _ inner accepted]
          exact (hfound read).stable (by omega) (by omega) (ended.tail inner) within

theorem ifNext {accept : Token.Kind → Option β} {next : Option β → Rule α}
    {found : β → Language α} {absent : Language α} (noEnd : accept .eof = none)
    (hfound : ∀ read, Recognizes bound' (next (some read)) (found read) extending)
    (habsent : Recognizes bound (next none) absent extending)
    (shorter : bound ≤ bound' + 1)
    (disjoint : ∀ row value last, absent row value → last ∉ extending →
      accept ((row ++ [last]).headD .eof) = none) :
    Recognizes bound (Rule.readIf accept >>= next)
      (Language.ifNext accept found absent) extending where
  productive := by
    obtain ⟨row, value, member⟩ := habsent.productive
    exact ⟨row, value, .inr member⟩
  noEnd := by
    rintro row value (⟨kind, read, back, rfl, accepted, member⟩ | member)
    · intro final
      rcases List.mem_cons.mp final with rfl | final
      · exact Rule.inner_of_accepted noEnd accepted rfl
      · exact (hfound read).noEnd member final
    · exact habsent.noEnd member
  sound := by
    intro index tokens trail value after short run
    cases accepted : accept (nextKind tokens) with
    | none =>
        rw [Rule.readIf_bind_none index accepted] at run
        obtain ⟨front, back, split, last, member⟩ := habsent.sound short run
        exact ⟨front, back, split, last, .inr member⟩
    | some read =>
        obtain ⟨token, rest, rfl, inner, accepted⟩ := Rule.next_of_accepted noEnd accepted
        rw [Rule.readIf_bind_some index rest inner accepted] at run
        simp only [List.length_cons] at short
        obtain ⟨front, back, rfl, rfl, member⟩ := (hfound read).sound (by omega) run
        refine ⟨token :: front, back, rfl, ?_, .inl ⟨token.kind, read, kinds front,
          rfl, accepted, member⟩⟩
        rw [List.length_cons, Nat.add_right_comm, Nat.add_assoc]
  complete := by
    rintro index front back value short (⟨kind, read, row, split, accepted, member⟩ |
      member) closed
    · obtain ⟨token, front, rfl, rfl, rfl⟩ := List.map_eq_cons_iff.mp split
      have inner := Rule.inner_of_accepted noEnd accepted
      simp only [List.cons_append, List.length_cons] at short
      obtain ⟨trail, run⟩ := (hfound read).complete (index + 1) front back
        (by omega) member closed
      refine ⟨trail, ?_⟩
      rw [List.cons_append, Rule.readIf_bind_some index _ inner accepted, run,
        List.length_cons, Nat.add_right_comm, Nat.add_assoc]
    -- `disjoint` keeps a row without the kind from being taken for one behind it
    · have refused : accept (nextKind (front ++ back)) = none := by
        rw [nextKind_append]
        exact disjoint _ _ _ member closed
      obtain ⟨trail, run⟩ := habsent.complete index front back short member closed
      exact ⟨trail, by rw [Rule.readIf_bind_none index refused, run]⟩
  blames := by
    intro index tokens failure short ended failed
    cases accepted : accept (nextKind tokens) with
    | none =>
        rw [Rule.readIf_bind_none index accepted] at failed
        obtain ⟨front, token, back, expected, split, hfailure, expects⟩ :=
          habsent.blames short ended failed
        refine ⟨front, token, back, expected, split, hfailure, expects.map ?_⟩
        rintro row ⟨more, value, member⟩
        exact ⟨more, value, .inr member⟩
    | some read =>
        obtain ⟨first, rest, rfl, inner, accepted⟩ := Rule.next_of_accepted noEnd accepted
        rw [Rule.readIf_bind_some index rest inner accepted] at failed
        simp only [List.length_cons] at short
        obtain ⟨front, token, back, expected, rfl, hfailure, expects⟩ :=
          (hfound read).blames (by omega) (ended.tail inner) failed
        refine ⟨first :: front, token, back, expected, rfl, hfailure, expects.map ?_⟩
        rintro row ⟨more, value, member⟩
        exact ⟨more, value, .inl ⟨first.kind, read, kinds front ++ row ++ more,
          by simp, accepted, member⟩⟩
  stable := stable_ifNext noEnd hfound habsent shorter

private theorem stable_read {expected : Expectation} {accept : Token.Kind → Option α}
    (noEnd : accept .eof = none) : Stable bound (Rule.read expected accept) := by
  intro index shared tail tail' _ _ ended within
  cases accepted : accept (nextKind (shared ++ tail)) with
  | some read =>
      obtain ⟨token, rest, split, inner, accepted⟩ := Rule.next_of_accepted noEnd accepted
      rw [split, Rule.read_of_some index rest inner accepted] at within ⊢
      obtain ⟨left, nonempty, remaining⟩ := within.2 read _ rfl
      cases shared with
      | nil =>
          -- with nothing shared the token would have been one of the tail
          have longer := congrArg List.length (split.trans (congrArg _ remaining))
          simp at longer
          omega
      | cons first shared =>
          rw [List.cons_append] at split
          obtain ⟨rfl, rfl⟩ := List.cons.inj split
          obtain rfl : shared = left := List.append_cancel_right remaining
          rw [List.cons_append, Rule.read_of_some index _ inner accepted]
          exact .ok [] read _ nonempty
  | none =>
      rw [Rule.read_of_none index accepted] at within ⊢
      have avoided := within.1 _ (List.mem_singleton_self _)
      cases shared with
      | nil =>
          cases tail with
          | nil => cases ended
          | cons token rest => exact absurd rfl (avoided.2 token (by simp))
      | cons token shared =>
          have same : accept (nextKind (token :: shared ++ tail')) = none := accepted
          rw [Rule.read_of_none index same]
          exact .error [] _

theorem read {expected : Expectation} {accept : Token.Kind → Option α}
    (noEnd : accept .eof = none) (inhabited : ∃ kind, expected.Admits kind)
    (admits : ∀ kind, expected.Admits kind → (accept kind).isSome) :
    Recognizes bound (Rule.read expected accept) (Language.single accept) [] where
  productive := by
    obtain ⟨kind, admitted⟩ := inhabited
    obtain ⟨value, accepted⟩ := Option.isSome_iff_exists.mp (admits kind admitted)
    exact ⟨[kind], value, kind, rfl, accepted⟩
  noEnd := by
    rintro _ value ⟨kind, rfl, accepted⟩ final
    obtain rfl := List.mem_singleton.mp final
    exact Rule.inner_of_accepted noEnd accepted rfl
  sound := by
    intro index tokens trail value after _ run
    cases accepted : accept (nextKind tokens) with
    | none => simp [Rule.read_of_none index accepted] at run
    | some read =>
        obtain ⟨token, rest, rfl, inner, accepted⟩ := Rule.next_of_accepted noEnd accepted
        rw [Rule.read_of_some index rest inner accepted] at run
        cases run
        exact ⟨[token], rest, rfl, rfl, token.kind, rfl, accepted⟩
  complete := by
    rintro index front back value _ ⟨kind, split, accepted⟩ _
    obtain ⟨token, rfl, rfl⟩ := List.map_eq_singleton_iff.mp split
    have inner := Rule.inner_of_accepted noEnd accepted
    exact ⟨[], Rule.read_of_some index back inner accepted⟩
  blames := by
    intro index tokens failure _ ended failed
    cases accepted : accept (nextKind tokens) with
    | some read =>
        obtain ⟨token, rest, rfl, inner, accepted⟩ := Rule.next_of_accepted noEnd accepted
        simp [Rule.read_of_some index rest inner accepted, Outcome.failures] at failed
    | none =>
        rw [Rule.read_of_none index accepted, Outcome.failures_error] at failed
        cases tokens with
        | nil => cases ended
        | cons token rest =>
            obtain rfl := List.mem_singleton.mp failed
            refine ⟨[], token, rest, expected, rfl, rfl, inhabited, ?_⟩
            intro kind admitted
            obtain ⟨value, hvalue⟩ := Option.isSome_iff_exists.mp (admits kind admitted)
            exact ⟨[], value, kind, by simp, hvalue⟩
  stable := stable_read noEnd

theorem keyword (word : Keyword) :
    Recognizes bound (Rule.keyword word)
      (Language.single (Rule.ofKeyword word)) [] := by
  refine read rfl ⟨.keyword word, rfl⟩ ?_
  rintro _ rfl
  simp [Rule.ofKeyword, Rule.ofKind]

theorem symbol {kind : Token.Kind} (inner : kind ≠ .eof) :
    Recognizes bound (Rule.symbol kind) (Language.single (Rule.ofKind kind)) [] := by
  refine read (by simp [Rule.ofKind, Ne.symm inner]) ⟨kind, rfl⟩ ?_
  rintro _ rfl
  simp [Rule.ofKind]

theorem unambiguous {row row' rest rest' : List Token.Kind} {value value' : α}
    (h : ∀ bound, Recognizes bound rule language extending) (member : language row value)
    (member' : language row' value') (split : row ++ rest = row' ++ rest')
    (closed : rest.headD .eof ∉ extending) (closed' : rest'.headD .eof ∉ extending) :
    value = value' := by
  rw [← kinds_unplaced row] at member
  rw [← kinds_unplaced row'] at member'
  rw [← nextKind_unplaced] at closed closed'
  obtain ⟨trail, run⟩ := (h _).complete 0 _ _ (Nat.lt_succ_self _) member closed
  obtain ⟨trail', run'⟩ := (h _).complete 0 _ _ (Nat.lt_succ_self _) member' closed'
  rw [← unplaced_append, split, unplaced_append] at run
  rw [run'] at run
  simp only [Outcome.mk.injEq, Except.ok.injEq, Prod.mk.injEq] at run
  exact run.2.1.symm

end Recognizes

end CompactSql.Grammar
