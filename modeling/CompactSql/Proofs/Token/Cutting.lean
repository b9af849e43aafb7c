import CompactSql.Token.Lexer
import CompactSql.Proofs.Grammar.Run

/-!
# Cutting a text

Which kinds a text is cut into does not depend on where the text stands, and the
tokens of a text stand one behind the other.
-/

namespace CompactSql

open Grammar (kinds kinds_cons Terminated)

namespace Token.Lexeme

private theorem ofDigits_ne_eof (digits : List Char) : Kind.ofDigits digits ≠ .eof := by
  simp only [Kind.ofDigits]
  split <;> simp

private theorem ofWord_ne_eof (word : List Char) : Kind.ofWord word ≠ .eof := by
  unfold Kind.ofWord
  split <;> simp

private theorem ofSymbol?_ne_eof {c : Char} {kind : Kind} (h : Kind.ofSymbol? c = some kind) :
    kind ≠ .eof := by
  unfold Kind.ofSymbol? at h
  split at h <;> first | cases h; simp | cases h

theorem comparison_kind {P : Kind → Prop} {strict orEqual : Kind} (h : P strict)
    (h' : P orEqual) (sign : Char) (rest : List Char) :
    P (comparison strict orEqual sign rest).kind := by
  unfold comparison
  split
  · exact h'
  · exact h

/-- What holds of each way to read on from a character holds of the way that is taken.
Unlike a lexeme, a way can be followed through more than one text. -/
theorem longest_ways {P : (List Char → Lexeme) → Prop} {first : Char}
    (symbol : ∀ kind, Kind.ofSymbol? first = some kind → P fun rest => ⟨kind, [first], rest⟩)
    (less : first = '<' → P (comparison .lt .ltEq first))
    (greater : first = '>' → P (comparison .gt .gtEq first))
    (quote : first = '\'' → P quoted)
    (digit : first.isDigit → P (run Char.isDigit .ofDigits first))
    (word : isWordStart first → P (run isWordChar .ofWord first))
    (other : P fun rest => ⟨.fault (.unexpectedCharacter first), [first], rest⟩) :
    P (longest first) := by
  unfold longest
  cases sign : Kind.ofSymbol? first with
  | some kind => exact symbol kind sign
  | none =>
      by_cases isLess : first = '<'
      · simpa [isLess] using less isLess
      · by_cases isGreater : first = '>'
        · simpa [isGreater] using greater isGreater
        · by_cases isQuote : first = '\''
          · simpa [isQuote] using quote isQuote
          · by_cases isDigit : first.isDigit
            · simpa [isLess, isGreater, isQuote, isDigit] using digit isDigit
            · by_cases isStart : isWordStart first
              · simpa [isLess, isGreater, isQuote, isDigit, isStart] using word isStart
              · simpa [isLess, isGreater, isQuote, isDigit, isStart] using other

theorem longest_cases {P : Lexeme → Prop} {first : Char} {rest : List Char}
    (symbol : ∀ kind, Kind.ofSymbol? first = some kind → P ⟨kind, [first], rest⟩)
    (less : first = '<' → P (comparison .lt .ltEq first rest))
    (greater : first = '>' → P (comparison .gt .gtEq first rest))
    (quote : first = '\'' → P (quoted rest))
    (digit : first.isDigit → P (run Char.isDigit .ofDigits first rest))
    (word : isWordStart first → P (run isWordChar .ofWord first rest))
    (other : P ⟨.fault (.unexpectedCharacter first), [first], rest⟩) :
    P (longest first rest) :=
  longest_ways (P := fun read => P (read rest)) symbol less greater quote digit word other

theorem longest_ne_eof (first : Char) (rest : List Char) :
    (longest first rest).kind ≠ .eof := by
  apply longest_cases (P := fun lexeme => lexeme.kind ≠ .eof)
  · exact fun kind symbol => ofSymbol?_ne_eof symbol
  · exact fun _ => comparison_kind (P := (· ≠ .eof)) (by decide) (by decide) _ _
  · exact fun _ => comparison_kind (P := (· ≠ .eof)) (by decide) (by decide) _ _
  · intro _
    unfold quoted
    split <;> simp
  · exact fun _ => ofDigits_ne_eof _
  · exact fun _ => ofWord_ne_eof _
  · simp

private theorem byteLength_longest_pos (first : Char) (rest : List Char) :
    0 < Text.byteLength (longest first rest).text := by
  have begins : ∃ more, (longest first rest).text = first :: more := by
    have compared (strict orEqual : Kind) :
        ∃ more, (comparison strict orEqual first rest).text = first :: more := by
      unfold comparison
      split <;> exact ⟨_, rfl⟩
    apply longest_cases (P := fun lexeme => ∃ more, lexeme.text = first :: more)
    · exact fun _ _ => ⟨_, rfl⟩
    · exact fun _ => compared _ _
    · exact fun _ => compared _ _
    · rintro rfl
      unfold quoted
      split <;> exact ⟨_, rfl⟩
    · exact fun _ => ⟨_, rfl⟩
    · exact fun _ => ⟨_, rfl⟩
    · exact ⟨_, rfl⟩
  obtain ⟨more, text⟩ := begins
  rw [text, Text.byteLength_cons]
  exact Nat.add_pos_left first.utf8Size_pos _

end Token.Lexeme

open Token.Lexeme (longest)

/-- The kinds that a text is cut into, none of them a fault. -/
inductive Cut : List Char → List Token.Kind → Prop
  | blank {text : List Char} : text.dropWhile Text.isBlank = [] → Cut text []
  | token {text rest : List Char} {first : Char} {row : List Token.Kind} :
      text.dropWhile Text.isBlank = first :: rest →
      (∀ cause, (longest first rest).kind ≠ .fault cause) →
      Cut (longest first rest).rest row →
      Cut text ((longest first rest).kind :: row)

/-- Tokens in a row, the first not before the offset and none before the end of the
one before it; the last is the end token, which covers nothing. -/
inductive Placed : Nat → List Token → Prop
  | last {offset : Nat} {token : Token} :
      token.kind = .eof → offset ≤ token.span.start →
      token.span.stop = token.span.start → Placed offset [token]
  | cons {offset : Nat} {token : Token} {tokens : List Token} :
      token.kind ≠ .eof → offset ≤ token.span.start →
      token.span.start < token.span.stop → Placed token.span.stop tokens →
      Placed offset (token :: tokens)

namespace Placed

theorem terminated {offset : Nat} {tokens : List Token} (h : Placed offset tokens) :
    Terminated tokens := by
  induction h with
  | last final => exact .last final
  | cons inner _ _ _ ih => exact .cons inner ih

theorem le_start {offset : Nat} {tokens : List Token} (h : Placed offset tokens) :
    ∀ token ∈ tokens, offset ≤ token.span.start ∧ token.span.start ≤ token.span.stop := by
  induction h with
  | last _ low covers =>
      intro token member
      obtain rfl := List.mem_singleton.mp member
      exact ⟨low, Nat.le_of_eq covers.symm⟩
  | cons _ low covers _ ih =>
      intro token member
      rcases List.mem_cons.mp member with rfl | later
      · exact ⟨low, Nat.le_of_lt covers⟩
      · have := ih token later
        omega

theorem pairwise {offset : Nat} {tokens : List Token} (h : Placed offset tokens) :
    tokens.Pairwise fun first second => first.span.start < second.span.start ∧
      first.span.stop ≤ second.span.start := by
  induction h with
  | last => exact List.pairwise_singleton _ _
  | cons _ _ covers later ih =>
      refine List.pairwise_cons.mpr ⟨?_, ih⟩
      intro token member
      have := later.le_start token member
      omega

end Placed

namespace Lexer

theorem tokenize_of_nil {lexer : Lexer} (h : lexer.skipBlanks.rest = []) :
    lexer.tokenize.1 = .ok [⟨.eof, .point lexer.skipBlanks.offset⟩] := by
  rw [tokenize, next_of_nil h]
  rfl

private theorem tokenize_of_fault {lexer : Lexer} {first : Char} {rest : List Char}
    {cause : Token.Fault} (h : lexer.skipBlanks.rest = first :: rest)
    (fault : (longest first rest).kind = .fault cause) :
    ∃ failure, lexer.tokenize.1 = .error failure := by
  rw [tokenize, next_of_cons h]
  simp [Token.isEof, fault]

theorem tokenize_of_cons {lexer : Lexer} {first : Char} {rest : List Char}
    (h : lexer.skipBlanks.rest = first :: rest)
    (sound : ∀ cause, (longest first rest).kind ≠ .fault cause) :
    lexer.tokenize.1 = lexer.next.2.tokenize.1.map (lexer.next.1 :: ·) := by
  have inner := Token.Lexeme.longest_ne_eof first rest
  have kind : lexer.next.1.kind = (longest first rest).kind := by rw [next_of_cons h]
  rw [tokenize, dif_neg (by simp [Token.isEof, kind, inner])]
  rw [← kind] at sound
  split
  · next cause fault => exact absurd fault (sound cause)
  · rfl

theorem tokenize_induction {motive : Lexer → List Token → Prop}
    (blank : ∀ lexer : Lexer, lexer.skipBlanks.rest = [] →
      motive lexer [⟨.eof, .point lexer.skipBlanks.offset⟩])
    (token : ∀ (lexer : Lexer) (first : Char) (rest : List Char) (tokens : List Token),
      lexer.skipBlanks.rest = first :: rest →
      (∀ cause, (longest first rest).kind ≠ .fault cause) →
      motive lexer.next.2 tokens → motive lexer (lexer.next.1 :: tokens))
    {lexer : Lexer} {tokens : List Token} (h : lexer.tokenize.1 = .ok tokens) :
    motive lexer tokens := by
  -- on what is left of the text, of which each token takes a character
  induction size : lexer.rest.length using Nat.strongRecOn generalizing lexer tokens with
  | ind size ih =>
      subst size
      cases left : lexer.skipBlanks.rest with
      | nil =>
          rw [tokenize_of_nil left] at h
          cases h
          exact blank lexer left
      | cons first rest =>
          by_cases fault : ∃ cause, (longest first rest).kind = .fault cause
          · obtain ⟨cause, fault⟩ := fault
            obtain ⟨failure, failed⟩ := tokenize_of_fault left fault
            rw [h] at failed
            cases failed
          · have sound : ∀ cause, (longest first rest).kind ≠ .fault cause :=
              fun cause eq => fault ⟨cause, eq⟩
            have inner := Token.Lexeme.longest_ne_eof first rest
            have shorter : lexer.next.2.rest.length < lexer.rest.length :=
              next_rest_length (by simp [Token.isEof, next_of_cons left, inner])
            rw [tokenize_of_cons left sound] at h
            cases more : lexer.next.2.tokenize.1 with
            | error failure =>
                rw [more] at h
                cases h
            | ok others =>
                rw [more] at h
                cases h
                exact token lexer first rest others left sound (ih _ shorter more rfl)

theorem tokenize_ok {lexer : Lexer} {tokens : List Token}
    (h : lexer.tokenize.1 = .ok tokens) :
    Placed lexer.offset tokens ∧
      ∃ row, kinds tokens = row ++ [.eof] ∧ Cut lexer.rest row := by
  have skipped (lexer : Lexer) : lexer.offset ≤ lexer.skipBlanks.offset :=
    Nat.le_add_right _ _
  refine tokenize_induction (motive := fun lexer tokens => Placed lexer.offset tokens ∧
    ∃ row, kinds tokens = row ++ [.eof] ∧ Cut lexer.rest row) ?blank ?token h
  case blank =>
    intro lexer left
    exact ⟨.last rfl (skipped lexer) rfl, [], rfl, .blank left⟩
  case token =>
    rintro lexer first rest tokens left sound ⟨placed, row, split, cut⟩
    have inner := Token.Lexeme.longest_ne_eof first rest
    have covers := Token.Lexeme.byteLength_longest_pos first rest
    rw [next_of_cons left] at placed cut ⊢
    refine ⟨.cons inner (skipped lexer) ?_ placed, _, ?_, .token left sound cut⟩
    · exact Nat.lt_add_of_pos_right covers
    · rw [kinds_cons, split, List.cons_append]

theorem tokenize_of_cut {text : List Char} {row : List Token.Kind} (h : Cut text row)
    (offset : Nat) :
    ∃ tokens, (Lexer.mk offset text).tokenize.1 = .ok tokens ∧
      kinds tokens = row ++ [.eof] := by
  induction h generalizing offset with
  | blank left => exact ⟨_, tokenize_of_nil left, rfl⟩
  | @token text rest first row left sound _ ih =>
      have skipped : (Lexer.mk offset text).skipBlanks.rest = first :: rest := left
      obtain ⟨tokens, more, split⟩ := ih (Lexer.mk offset text).next.2.offset
      refine ⟨(Lexer.mk offset text).next.1 :: tokens, ?_, ?_⟩
      · rw [tokenize_of_cons skipped sound]
        rw [next_of_cons skipped] at more ⊢
        simp only at more ⊢
        rw [more]
        rfl
      · rw [kinds_cons, split, next_of_cons skipped, List.cons_append]

end Lexer

theorem tokenize_placed {text : String} {tokens : List Token}
    (h : tokenize text = .ok tokens) : Placed 0 tokens :=
  (Lexer.tokenize_ok h).1

theorem cut_of_tokenize {text : String} {tokens : List Token}
    (h : tokenize text = .ok tokens) :
    ∃ row, kinds tokens = row ++ [.eof] ∧ Cut text.toList row :=
  (Lexer.tokenize_ok h).2

theorem tokenize_of_cut {text : String} {row : List Token.Kind} (h : Cut text.toList row) :
    ∃ tokens, tokenize text = .ok tokens ∧ kinds tokens = row ++ [.eof] :=
  Lexer.tokenize_of_cut h 0

end CompactSql
