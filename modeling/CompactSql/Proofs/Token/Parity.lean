import CompactSql.Proofs.Token.Partition

/-!
# Quotes in pairs

A string that is closed has an even number of quotes, those inside it written twice, and
no token but a string has any.  So the quotes of a text pair up unless its last string is
left open, which is the one token with an odd number of them.
-/

namespace CompactSql

open Token (Kind)
open Token.Lexeme (longest)

namespace Text

private theorem count_quote_double (text : List Char) :
    (double text).count '\'' = 2 * text.count '\'' := by
  induction text with
  | nil => rfl
  | cons c text ih =>
      by_cases quote : c = '\''
      · simp [double, quote, ih]
        omega
      · simp [double, quote, ih]

private theorem count_quote_of_open {text : List Char} (h : close? text = none) :
    text.count '\'' % 2 = 0 := by
  fun_induction close? text with
  | case1 => rfl
  | case2 text ih =>
      have even := ih (Option.map_eq_none_iff.mp h)
      simp only [List.count_cons_self]
      omega
  | case3 => cases h
  | case4 c text _ other ih =>
      have different : c ≠ '\'' := other
      rw [List.count_cons_of_ne different]
      exact ih (Option.map_eq_none_iff.mp h)

private theorem ne_of_start {front back whole : String} {n : Nat} (inside : n ≤ front.toList.length)
    (other : front.toList.take n ≠ whole.toList.take n) : front ++ back ≠ whole := by
  intro eq
  have letters := congrArg (fun text => text.toList.take n) eq
  simp only [String.toList_append, List.take_append_of_le_length inside] at letters
  exact other letters

end Text

namespace Token.Lexeme

variable {kind : Kind} {first : Char} {more : List Char}

private theorem quote_notMem (other : first ≠ '\'')
    (alone : longest first more = ⟨kind, first :: more, []⟩) : '\'' ∉ first :: more := by
  have wordless {p : Char → Bool} (word : ∀ c, p c = true → isWordChar c = true)
      (inside : ∀ c ∈ more, p c = true) : '\'' ∉ more := fun member =>
    (not_sign_of_isWordChar (word _ (inside _ member))).2.2.2 rfl
  have behind : '\'' ∉ more := by
    revert alone
    apply longest_cases (P := fun lexeme =>
      lexeme = ⟨kind, first :: more, []⟩ → '\'' ∉ more)
    · rintro _ _ ⟨⟩
      exact List.not_mem_nil
    · rintro rfl alone
      obtain ⟨-, rfl⟩ | ⟨-, rfl⟩ := comparison_alone alone <;> simp
    · rintro rfl alone
      obtain ⟨-, rfl⟩ | ⟨-, rfl⟩ := comparison_alone alone <;> simp
    · exact fun quote => absurd quote other
    · exact fun _ alone => wordless (fun _ => isWordChar_of_isDigit) (run_alone alone).1
    · exact fun _ alone => wordless (fun _ => id) (run_alone alone).1
    · rintro ⟨⟩
      exact List.not_mem_nil
  exact fun member => (List.mem_cons.mp member).elim (fun eq => other eq.symm) behind

end Token.Lexeme

def Token.Kind.isOpen (kind : Kind) : Bool := kind = .fault .unterminatedString

def Token.Reports (token : Token) (message : String) : Prop :=
  ∃ cause, token.kind = .fault cause ∧ cause.message = message

namespace Token.Kind.Covers

variable {kind : Kind} {piece : List Char}

theorem quote_of_isOpen (h : kind.Covers piece) (isOpen : kind.isOpen = true) :
    ∃ inside, piece = '\'' :: inside := by
  obtain ⟨-, -, alone⟩ := h
  next first more =>
  have fault : (longest first more).kind = .fault .unterminatedString := by
    rw [alone]
    exact of_decide_eq_true isOpen
  obtain ⟨rfl, -⟩ := Lexeme.open_of_unterminated fault
  exact ⟨more, rfl⟩

private theorem count_quote (h : kind.Covers piece) :
    piece.count '\'' % 2 = if kind.isOpen then 1 else 0 := by
  cases h with
  | @piece first more _ _ alone =>
      by_cases quote : first = '\''
      · subst quote
        have chosen : longest '\'' more = Lexeme.quoted more := rfl
        rw [chosen, Lexeme.quoted] at alone
        split at alone
        · next raw after close =>
            obtain ⟨inner, rfl⟩ := Lexeme.doubled_of_close? close
            cases alone
            simp [isOpen, Text.count_quote_double]
            omega
        · next unclosed =>
            have even := Text.count_quote_of_open unclosed
            cases alone
            simp [isOpen]
            omega
      -- only a string has quotes, and an open one begins with a quote
      · have closed : kind.isOpen = false := by
          refine Bool.eq_false_iff.mpr fun isOpen => ?_
          obtain ⟨inside, split⟩ := quote_of_isOpen (.piece ‹_› ‹_› alone) isOpen
          exact quote (List.cons.inj split).1
        rw [List.count_eq_zero_of_not_mem (Lexeme.quote_notMem quote alone), closed]
        rfl

private theorem reports_iff (h : kind.Covers piece) (span : Span) :
    Token.Reports ⟨kind, span⟩ "Unterminated string literal" ↔ kind.isOpen = true := by
  constructor
  · rintro ⟨cause, fault, message⟩
    obtain ⟨-, -, alone⟩ := h
    next first more =>
    have found : (longest first more).kind = .fault cause := by
      rw [alone]
      exact fault
    rcases Lexeme.fault_cases found with rfl | ⟨digits, rfl⟩ | ⟨rfl, -, -⟩
    · exact absurd message (Text.ne_of_start (n := 3) (by decide) (by decide))
    · have split : (Fault.integerTooLarge digits).message = "Invalid integer " ++
          (String.ofList digits ++ ": number too large to fit in target type") :=
        String.append_assoc
      rw [split] at message
      exact absurd message (Text.ne_of_start (n := 3) (by decide) (by decide))
    · exact decide_eq_true fault
  · intro isOpen
    exact ⟨.unterminatedString, of_decide_eq_true isOpen, rfl⟩

end Token.Kind.Covers

namespace Tiled

variable {offset : Nat} {text : List Char} {tokens : List Token}

private theorem count_quote (h : Tiled offset text tokens) :
    text.count '\'' % 2 = tokens.countP (·.kind.isOpen) % 2 := by
  have blank_quote {gap : List Char} (blank : ∀ c ∈ gap, Text.isBlank c = true) :
      gap.count '\'' = 0 :=
    List.count_eq_zero_of_not_mem fun member => absurd (blank _ member) (by decide)
  induction h with
  | blank blank => rw [blank_quote blank, List.countP_nil]
  | @piece _ _ _ gap piece rest kind tokens blank covers _ _ _ ih =>
      have inside := covers.count_quote
      rw [List.count_append, List.count_append, blank_quote blank, List.countP_cons]
      simp only
      omega

private theorem start_lt (h : Tiled offset text tokens) :
    ∀ token ∈ tokens, token.span.start < offset + Text.byteLength text := by
  intro token member
  obtain ⟨before, piece, after, rfl, span, covers⟩ := h.covers token member
  cases covers with
  | @piece first more =>
      have positive := first.utf8Size_pos
      rw [span]
      simp only [Text.byteLength_append, Text.byteLength_cons]
      omega

end Tiled

namespace Lexer

variable {lexer : Lexer} {tokens : List Token}

private theorem closed_before (whole : lexer.stream = tokens ++ [lexer.ending])
    (tiled : Tiled lexer.offset lexer.rest tokens) :
    tokens.Pairwise fun first _ => first.kind.isOpen = false := by
  refine tiled.pairwise.imp_of_mem fun {first second} member member' apart => ?_
  refine Bool.eq_false_iff.mpr fun isOpen => ?_
  have stop := lexer.stop_of_unterminated first (by simp [whole, member])
    (of_decide_eq_true isOpen)
  have start := tiled.start_lt second member'
  simp only [ending, Span.point] at stop
  omega

theorem open_last (whole : lexer.stream = tokens ++ [lexer.ending])
    (tiled : Tiled lexer.offset lexer.rest tokens) {token : Token} (member : token ∈ tokens)
    (isOpen : token.kind.isOpen = true) :
    ∃ front, tokens = front ++ [token] ∧ ∀ other ∈ front, other.kind.isOpen = false := by
  have closed := closed_before whole tiled
  obtain ⟨front, back, rfl⟩ := List.append_of_mem member
  rw [List.pairwise_append, List.pairwise_cons] at closed
  obtain ⟨-, ⟨behind, -⟩, before⟩ := closed
  have none : back = [] := List.eq_nil_iff_forall_not_mem.mpr fun other member => by
    simpa [isOpen] using behind other member
  subst none
  exact ⟨front, rfl, fun other member' => before other member' token List.mem_cons_self⟩

theorem odd_iff_open (whole : lexer.stream = tokens ++ [lexer.ending])
    (tiled : Tiled lexer.offset lexer.rest tokens) :
    lexer.rest.count '\'' % 2 = 1 ↔ ∃ token ∈ tokens, token.kind.isOpen = true := by
  rw [tiled.count_quote]
  constructor
  · intro odd
    refine List.countP_pos_iff.mp ?_
    omega
  -- one that is found is the only one, so it is counted once
  · rintro ⟨token, member, isOpen⟩
    obtain ⟨front, rfl, closed⟩ := open_last whole tiled member isOpen
    have none : front.countP (·.kind.isOpen) = 0 :=
      List.countP_eq_zero.mpr fun other member => by simp [closed other member]
    simp [none, isOpen]

end Lexer

section Text

variable {text : String} {tokens : List Token}

theorem Tiled.reports_iff {offset : Nat} {text : List Char} (tiled : Tiled offset text tokens) :
    ∀ token ∈ tokens, token.Reports "Unterminated string literal" ↔ token.kind.isOpen = true := by
  intro token member
  obtain ⟨_, _, _, -, -, covers⟩ := tiled.covers token member
  exact covers.reports_iff token.span

/-- The last token before the end is a string that goes from its quote to the end of the
text without being closed, and it is the only token of the sort. -/
def EndsOpen (text : String) : Prop :=
  ∃ front token before inside,
    (Lexer.ofText text).stream =
      front ++ [token, ⟨.eof, .point (Text.byteLength text.toList)⟩] ∧
    token.Reports "Unterminated string literal" ∧
    (∀ other ∈ front, ¬ other.Reports "Unterminated string literal") ∧
    text.toList = before ++ '\'' :: inside ∧
    token.span = ⟨Text.byteLength before, Text.byteLength text.toList⟩

private theorem endsOpen_of_isOpen (whole : (Lexer.ofText text).stream =
      tokens ++ [(Lexer.ofText text).ending])
    (tiled : Tiled 0 text.toList tokens) {token : Token} (member : token ∈ tokens)
    (isOpen : token.kind.isOpen = true) : EndsOpen text := by
  obtain ⟨front, rfl, closed⟩ := Lexer.open_last whole tiled member isOpen
  obtain ⟨before, piece, after, split, span, covers⟩ := tiled.covers token member
  obtain ⟨inside, rfl⟩ := covers.quote_of_isOpen isOpen
  have stop := (Lexer.ofText text).stop_of_unterminated token (by simp [whole])
    (of_decide_eq_true isOpen)
  rw [Lexer.ending_ofText] at whole stop
  refine ⟨front, token, before, inside ++ after, ?_, (tiled.reports_iff token member).mpr isOpen,
    ?_, split, ?_⟩
  · rw [whole, List.append_assoc, List.singleton_append]
  · intro other member'
    rw [tiled.reports_iff other (List.mem_append_left _ member'), closed other member']
    exact Bool.false_ne_true
  · rw [span, Nat.zero_add] at stop ⊢
    exact congrArg _ stop

/-- A text has an open string if and only if the number of its quotes is odd; the string
then takes up the end of the text, and the text is not cut into tokens. -/
theorem open_string_iff_odd (text : String) :
    ((∃ token ∈ (Lexer.ofText text).stream, token.Reports "Unterminated string literal") ↔
        text.toList.count '\'' % 2 = 1) ∧
      (text.toList.count '\'' % 2 = 1 → EndsOpen text ∧
        ∃ failure, tokenize text = .error failure ∧ failure.isLexical = true) := by
  obtain ⟨tokens, whole, tiled, -⟩ := (Lexer.ofText text).stream_tiled
  have found : text.toList.count '\'' % 2 = 1 ↔ ∃ token ∈ tokens, token.kind.isOpen = true :=
    Lexer.odd_iff_open whole tiled
  refine ⟨?_, fun odd => ?_⟩
  · rw [found, whole]
    constructor
    · rintro ⟨token, member, told⟩
      rcases List.mem_append.mp member with inner | last
      · exact ⟨token, inner, (tiled.reports_iff token inner).mp told⟩
      · obtain rfl := List.mem_singleton.mp last
        obtain ⟨cause, fault, -⟩ := told
        cases fault
    · rintro ⟨token, member, isOpen⟩
      exact ⟨token, List.mem_append_left _ member, (tiled.reports_iff token member).mpr isOpen⟩
  · obtain ⟨token, member, isOpen⟩ := found.mp odd
    refine ⟨endsOpen_of_isOpen whole tiled member isOpen, ?_⟩
    rcases (Lexer.ofText text).tokenize_stream with ⟨sound, -⟩ | ⟨_, _, _, cause, _, _, _, failed⟩
    · exact absurd (of_decide_eq_true isOpen) (sound token (by simp [whole, member]) _)
    · exact ⟨_, failed, rfl⟩

/-- Behind a character that no token begins with and a string with a quote in it, the last
quote stays open. -/
theorem open_string_iff_odd_last :
    "?'it''s' 'x".toList.count '\'' % 2 = 1 ∧ EndsOpen "?'it''s' 'x" ∧
      ∃ failure, tokenize "?'it''s' 'x" = .error failure ∧ failure.isLexical = true :=
  ⟨by decide, (open_string_iff_odd "?'it''s' 'x").2 (by decide)⟩

end Text

end CompactSql
