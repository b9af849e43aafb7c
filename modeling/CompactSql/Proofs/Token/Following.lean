import CompactSql.Proofs.Token.Spelling

/-!
# Texts behind written tokens

How a text is cut does not depend on where it begins: its tokens, or the fault in it, only
move with it.  Behind tokens that are written with a space after each, the tokens of the
text follow these.
-/

namespace CompactSql

open Grammar (kinds)
open Token (Kind)
open Token.Lexeme (longest longest_ne_eof longest_of_spelling)

def Span.later (count : Nat) (span : Span) : Span := ⟨span.start + count, span.stop + count⟩

def Token.later (count : Nat) (token : Token) : Token := ⟨token.kind, token.span.later count⟩

def Failure.later (count : Nat) (failure : Failure) : Failure :=
  ⟨failure.complaint, failure.span.later count⟩

theorem kinds_later (count : Nat) (tokens : List Token) :
    kinds (tokens.map (Token.later count)) = kinds tokens := by
  simp [kinds, Token.later, Function.comp_def]

theorem Placed.later {offset offset' count : Nat} {tokens : List Token}
    (h : Placed offset tokens) (le : offset' ≤ offset + count) :
    Placed offset' (tokens.map (Token.later count)) := by
  induction h generalizing offset' with
  | last final low covers =>
      refine .last final ?_ ?_
      · exact Nat.le_trans le (Nat.add_le_add_right low count)
      · exact congrArg (· + count) covers
  | cons inner low covers _ ih =>
      refine .cons inner ?_ ?_ (ih (Nat.le_refl _))
      · exact Nat.le_trans le (Nat.add_le_add_right low count)
      · exact Nat.add_lt_add_right covers count

namespace Lexer

def later (count : Nat) (lexer : Lexer) : Lexer := ⟨lexer.offset + count, lexer.rest⟩

private theorem next_later (count : Nat) (lexer : Lexer) :
    (lexer.later count).next = (lexer.next.1.later count, lexer.next.2.later count) := by
  have skipped : (lexer.later count).skipBlanks = lexer.skipBlanks.later count := by
    simp [skipBlanks, later, Nat.add_right_comm]
  cases left : lexer.skipBlanks.rest with
  | nil =>
      have left' : (lexer.later count).skipBlanks.rest = [] := by rw [skipped]; exact left
      rw [next_of_nil left, next_of_nil left', skipped]
      rfl
  | cons first rest =>
      have left' : (lexer.later count).skipBlanks.rest = first :: rest := by
        rw [skipped]
        exact left
      rw [next_of_cons left, next_of_cons left', skipped]
      simp [later, Token.later, Span.later, Nat.add_right_comm]

theorem tokenize_turn (lexer : Lexer) : lexer.tokenize.1 =
    if lexer.next.1.isEof then .ok [lexer.next.1]
    else
      match lexer.next.1.kind with
      | .fault cause => .error ⟨.lexical cause, lexer.next.1.span⟩
      | _ => lexer.next.2.tokenize.1.map (lexer.next.1 :: ·) := by
  rw [Lexer.tokenize]
  split
  · rfl
  · cases kind : lexer.next.1.kind with
    | fault cause => rfl
    | _ => rfl

theorem tokenize_later (count : Nat) (lexer : Lexer) :
    (lexer.later count).tokenize.1 =
      (lexer.tokenize.1.map (List.map (Token.later count))).mapError (Failure.later count) := by
  induction size : lexer.rest.length using Nat.strongRecOn generalizing lexer with
  | ind size ih =>
      subst size
      have kind : (lexer.next.1.later count).kind = lexer.next.1.kind := rfl
      have ends : (lexer.next.1.later count).isEof = lexer.next.1.isEof := rfl
      rw [tokenize_turn, tokenize_turn lexer, next_later]
      simp only [ends, kind]
      by_cases ended : lexer.next.1.isEof = true
      · rw [if_pos ended, if_pos ended]
        rfl
      -- a token that is not the end takes at least one character
      · have behind := ih _ (next_rest_length (by simpa using ended)) lexer.next.2 rfl
        rw [if_neg ended, if_neg ended, behind]
        split
        · rfl
        · cases lexer.next.2.tokenize.1 with
          | error failure => rfl
          | ok tokens => rfl

private theorem tokenize_congr {lexer lexer' : Lexer} (h : lexer.next = lexer'.next) :
    lexer.tokenize.1 = lexer'.tokenize.1 := by
  rw [tokenize_turn, tokenize_turn lexer', h]

private theorem next_skip {c : Char} (blank : Text.isBlank c = true) (offset : Nat)
    (rest : List Char) :
    (Lexer.mk offset (c :: rest)).next = (Lexer.mk (offset + c.utf8Size) rest).next := by
  have skipped : (Lexer.mk offset (c :: rest)).skipBlanks =
      (Lexer.mk (offset + c.utf8Size) rest).skipBlanks := by
    simp [skipBlanks, blank, Nat.add_assoc]
  rw [next, next, skipped]

private theorem tokenize_written {kind : Kind} (written : kind.Written) (offset : Nat)
    (rest : List Char) :
    (Lexer.mk offset (kind.spelling.toList ++ ' ' :: rest)).tokenize.1 =
      (Lexer.mk (offset + Text.byteLength kind.spelling.toList + 1) rest).tokenize.1.map
        (⟨kind, ⟨offset, offset + Text.byteLength kind.spelling.toList⟩⟩ :: ·) := by
  have ends : kind.EndsAt (' ' :: rest) :=
    Fresh.endsAt (Fresh.cons.mpr ⟨rfl, by decide, by decide⟩) kind
  obtain ⟨first, more, text, solid, taken⟩ := longest_of_spelling written ends
  have placed : (Lexer.mk offset (first :: (more ++ ' ' :: rest))).skipBlanks =
      ⟨offset, first :: (more ++ ' ' :: rest)⟩ := by
    simp [skipBlanks, solid]
  have sound : ∀ cause, (longest first (more ++ ' ' :: rest)).kind ≠ .fault cause := by
    rw [taken]
    rintro cause rfl
    exact written
  have left := congrArg Lexer.rest placed
  have space : (Lexer.mk (offset + Text.byteLength (first :: more)) (' ' :: rest)).next =
      (Lexer.mk (offset + Text.byteLength (first :: more) + 1) rest).next :=
    next_skip rfl _ rest
  rw [text, List.cons_append, tokenize_of_cons left sound, next_of_cons left, placed]
  simp only [taken]
  rw [tokenize_congr space]

end Lexer

def spaced (words : List Kind) : List Char :=
  words.flatMap fun kind => kind.spelling.toList ++ [' ']

theorem byteLength_spaced_pos (kind : Kind) (words : List Kind) :
    0 < Text.byteLength (spaced (kind :: words)) := by
  have split : Text.byteLength (spaced (kind :: words)) =
      Text.byteLength kind.spelling.toList + (1 + Text.byteLength (spaced words)) := by
    have space : (' ').utf8Size = 1 := rfl
    simp [spaced, space]
  omega

def spacedTokens : Nat → List Kind → List Token
  | _, [] => []
  | offset, kind :: words =>
      let stop := offset + Text.byteLength kind.spelling.toList
      ⟨kind, ⟨offset, stop⟩⟩ :: spacedTokens (stop + 1) words

theorem kinds_spacedTokens (offset : Nat) (words : List Kind) :
    kinds (spacedTokens offset words) = words := by
  induction words generalizing offset with
  | nil => rfl
  | cons kind words ih => exact congrArg (kind :: ·) (ih _)

theorem Lexer.tokenize_spaced {words : List Kind} (written : Writable words) (offset : Nat)
    (rest : List Char) :
    (Lexer.mk offset (spaced words ++ rest)).tokenize.1 =
      (Lexer.mk (offset + Text.byteLength (spaced words)) rest).tokenize.1.map
        (spacedTokens offset words ++ ·) := by
  induction words generalizing offset with
  | nil =>
      have same : (Lexer.mk offset rest).tokenize.1 =
          (Lexer.mk offset rest).tokenize.1.map ([] ++ ·) := by
        cases (Lexer.mk offset rest).tokenize.1 <;> rfl
      exact same
  | cons kind words ih =>
      rw [Writable.cons] at written
      have split : spaced (kind :: words) ++ rest =
          kind.spelling.toList ++ ' ' :: (spaced words ++ rest) := by
        simp [spaced]
      have length : offset + Text.byteLength (spaced (kind :: words)) =
          offset + Text.byteLength kind.spelling.toList + 1 + Text.byteLength (spaced words) := by
        have space : (' ').utf8Size = 1 := rfl
        simp [spaced, space, Nat.add_assoc]
      rw [split, tokenize_written written.1, ih written.2, length]
      cases (Lexer.mk (offset + Text.byteLength kind.spelling.toList + 1 +
        Text.byteLength (spaced words)) rest).tokenize.1 <;> rfl

theorem tokenize_behind {words : List Kind} (written : Writable words) {text whole : String}
    (split : whole.toList = spaced words ++ text.toList) :
    tokenize whole =
      ((tokenize text).map fun tokens => spacedTokens 0 words ++
        tokens.map (Token.later (Text.byteLength (spaced words)))).mapError
          (Failure.later (Text.byteLength (spaced words))) := by
  have behind : Lexer.mk (0 + Text.byteLength (spaced words)) text.toList =
      (Lexer.ofText text).later (Text.byteLength (spaced words)) := rfl
  rw [tokenize, Lexer.ofText, split, Lexer.tokenize_spaced written, behind,
    Lexer.tokenize_later, tokenize]
  cases (Lexer.ofText text).tokenize.1 <;> rfl

end CompactSql
