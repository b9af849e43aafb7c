import CompactSql.Expr.Sql
import CompactSql.Proofs.Token.Partition
import Mathlib.Data.Set.Function

/-!
# Quotation

Writing a string doubles its quotes, the lexer steps over quotes in pairs, and reading a raw
text puts each pair, from the left, back to one quote.  The three agree on runs of quotes of
every length, because what stands between the outer quotes of a token is a doubled text.
-/

namespace CompactSql

open Token (Kind)

/-- The text is one token from its first byte to its last. -/
def IsToken (text : String) (kind : Kind) : Prop :=
  tokenize text = .ok [⟨kind, ⟨0, Text.byteLength text.toList⟩⟩,
    ⟨.eof, .point (Text.byteLength text.toList)⟩]

theorem Token.Kind.Covers.isToken {kind : Kind} {text : String}
    (h : kind.Covers text.toList)
    (sound : ∀ cause, kind ≠ .fault cause) : IsToken text kind := by
  generalize chars : text.toList = whole at h
  obtain ⟨solid, -, alone⟩ := h
  next first more =>
  have left : (Lexer.ofText text).skipBlanks = ⟨0, first :: more⟩ := by
    simp [Lexer.ofText, Lexer.skipBlanks, chars, solid]
  have next : (Lexer.ofText text).next =
      (⟨kind, ⟨0, Text.byteLength (first :: more)⟩⟩, ⟨Text.byteLength (first :: more), []⟩) := by
    rw [Lexer.next_of_cons (by rw [left]), left, alone]
    simp
  have behind : (Lexer.mk (Text.byteLength (first :: more)) []).tokenize.1 =
      .ok [⟨.eof, .point (Text.byteLength (first :: more))⟩] := Lexer.tokenize_of_nil rfl
  rw [IsToken, chars, tokenize, Lexer.tokenize_of_cons (by rw [left]) (by rwa [alone]), next,
    behind]
  rfl

theorem IsToken.covers {kind : Kind} {text : String} (h : IsToken text kind) :
    kind.Covers text.toList := by
  obtain ⟨pieces, whole, tiled, -⟩ := tokenize_tiled h
  obtain rfl : [⟨kind, ⟨0, Text.byteLength text.toList⟩⟩] = pieces :=
    (List.append_left_inj [_]).mp whole
  obtain ⟨before, piece, after, split, span, covers⟩ := tiled.covers _ List.mem_cons_self
  obtain ⟨start, stop⟩ := Span.mk.inj span
  rw [split, Text.byteLength_append, Text.byteLength_append] at stop
  obtain rfl : before = [] := Text.eq_nil_of_byteLength (by omega)
  obtain rfl : after = [] := Text.eq_nil_of_byteLength (by omega)
  rw [split]
  simpa using covers

theorem IsToken.unique {kind kind' : Kind} {text : String} (h : IsToken text kind)
    (h' : IsToken text kind') : kind = kind' := by
  have same := Except.ok.inj (h.symm.trans h')
  exact congrArg Token.kind (List.cons.inj same).1

theorem Token.Kind.covers_string {raw : String} {text : List Char} :
    (Kind.string raw).Covers text ↔
      ∃ inner, raw = String.ofList (Text.double inner) ∧ text = Text.quote inner := by
  constructor
  · rintro ⟨-, -, alone⟩
    next first more =>
    obtain ⟨inner, after, rfl, rfl, close⟩ := Token.Lexeme.quoted_of_string
      (congrArg Token.Lexeme.kind alone)
    obtain rfl : [] = after := by
      have chosen : Token.Lexeme.longest '\'' more = Token.Lexeme.quoted more := rfl
      rw [chosen, Token.Lexeme.quoted, close] at alone
      exact (Token.Lexeme.mk.inj alone).2.2.symm
    exact ⟨inner, rfl, by rw [Text.eq_append_of_close? close]; rfl⟩
  · rintro ⟨inner, rfl, rfl⟩
    exact .piece rfl (by simp) (Token.Lexeme.longest_of_string inner rfl)

theorem isToken_string {text raw : String} : IsToken text (.string raw) ↔
    ∃ value : String, raw = String.ofList (Text.double value.toList) ∧
      text = (Literal.string value).toSql := by
  constructor
  · intro h
    obtain ⟨inner, rfl, whole⟩ := Kind.covers_string.mp h.covers
    refine ⟨String.ofList inner, by rw [String.toList_ofList], ?_⟩
    rw [Literal.toSql, String.toList_ofList, ← whole, String.ofList_toList]
  · rintro ⟨value, rfl, rfl⟩
    refine Kind.Covers.isToken (Kind.covers_string.mpr ⟨value.toList, rfl, ?_⟩) (by simp)
    rw [Literal.toSql, String.toList_ofList]

def stringTexts : Set String := {text | ∃ raw, IsToken text (.string raw)}

/-- Strings and string tokens are in bijection: a string is written as one token whose raw
text stands for it again, and a text that is one string token is how the string that its raw
text stands for is written. -/
theorem quotation_bijective :
    (∀ value, ∃ raw, IsToken (Literal.string value).toSql (.string raw) ∧
      Literal.ofRaw raw = .string value) ∧
    (∀ text raw, IsToken text (.string raw) → (Literal.ofRaw raw).toSql = text) ∧
    Set.BijOn (fun value => (Literal.string value).toSql) Set.univ stringTexts := by
  have reads (value : String) :
      Literal.ofRaw (String.ofList (Text.double value.toList)) = .string value := by
    rw [Literal.ofRaw, String.toList_ofList, Text.collapse_double, String.ofList_toList]
  have writes (value : String) : IsToken (Literal.string value).toSql
      (.string (String.ofList (Text.double value.toList))) := isToken_string.mpr ⟨value, rfl, rfl⟩
  refine ⟨fun value => ⟨_, writes value, reads value⟩, ?_, fun value _ => ⟨_, writes value⟩, ?_, ?_⟩
  · intro text raw token
    obtain ⟨value, rfl, rfl⟩ := isToken_string.mp token
    rw [reads]
  · intro value _ value' _ same
    have token : IsToken (Literal.string value').toSql
        (.string (String.ofList (Text.double value.toList))) := by
      rw [← show (Literal.string value).toSql = (Literal.string value').toSql from same]
      exact writes value
    have raw := Kind.string.inj (token.unique (writes value'))
    have read := reads value
    rw [raw, reads] at read
    exact (Literal.string.inj read).symm
  · rintro text ⟨raw, token⟩
    obtain ⟨value, -, rfl⟩ := isToken_string.mp token
    exact ⟨value, trivial, rfl⟩

/-- Runs of three, two and one quotes, at the start, in the middle and at the end. -/
theorem quotation_bijective_runs :
    IsToken "'''''''é'''' '''" (.string "''''''é'''' ''") ∧
      (Literal.ofRaw "''''''é'''' ''").toSql = "'''''''é'''' '''" := by
  have token : IsToken "'''''''é'''' '''" (.string "''''''é'''' ''") := by
    unfold IsToken
    decide +kernel
  exact ⟨token, quotation_bijective.2.1 _ _ token⟩

end CompactSql
