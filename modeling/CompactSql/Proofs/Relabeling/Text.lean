import CompactSql.Proofs.Printing.Legible
import CompactSql.Proofs.Relabeling.Tree

/-!
# Texts with other leaves

The slices of names, integers and strings are replaced where they stand, by the other
name, by the digits of the other integer and by the other string in quotes; every other
character is kept.  Whatever the leaves are, the new text is cut at the same places: a
leaf begins and ends like the one that it replaces.
-/

namespace CompactSql

open Grammar (kinds kinds_cons)
open Token (Kind isWordStart isWordChar)
open Token.Lexeme (longest longest_cases Bounded longest_bounded)

namespace Relabeling

variable (σ : Relabeling)

def replacement? : Kind → Option String
  | .identifier name => some (σ.name name)
  | .integer value => some (toString (σ.integer value).toInt)
  | .string raw => some (σ.literal (.ofRaw raw)).toSql
  | _ => none

def piece? (text : List Char) (token : Token) : Option (List Char) :=
  match σ.replacement? token.kind with
  | some new => some new.toList
  | none => Text.slice? text token.span.start token.span.stop

/-- The text from a byte on, with the slices of the leaves replaced; what stands before,
between and behind the tokens is kept. -/
def rewriteFrom (text : List Char) : Nat → List Token → Option (List Char)
  | offset, [] => Text.slice? text offset (Text.byteLength text)
  | offset, token :: tokens => do
      let gap ← Text.slice? text offset token.span.start
      let piece ← σ.piece? text token
      let rest ← rewriteFrom text token.span.stop tokens
      return gap ++ (piece ++ rest)

def rewrite (text : String) (tokens : List Token) : Option String :=
  (σ.rewriteFrom text.toList 0 tokens).map String.ofList

theorem rewriteFrom_cons {text gap piece rest : List Char} {offset : Nat} {token : Token}
    {tokens : List Token} (hgap : Text.slice? text offset token.span.start = some gap)
    (hpiece : σ.piece? text token = some piece)
    (hrest : σ.rewriteFrom text token.span.stop tokens = some rest) :
    σ.rewriteFrom text offset (token :: tokens) = some (gap ++ (piece ++ rest)) := by
  rw [rewriteFrom, hgap, hpiece, hrest]
  rfl

private theorem replacement?_of_leaf {kind : Kind} (h : kind.isLeaf = true) :
    σ.replacement? kind = some (σ.kind kind).spelling := by
  cases kind with
  | identifier | integer => rfl
  | string raw => rw [replacement?, Literal.toSql_eq, Relabeling.kind]
  | _ => cases h

theorem replacement?_of_not_leaf {kind : Kind} (h : kind.isLeaf = false) :
    σ.replacement? kind = none ∧ σ.kind kind = kind := by
  cases kind with
  | identifier | integer | string => cases h
  | _ => exact ⟨rfl, rfl⟩

theorem kind_written {kind : Kind} (h : kind.Written) : (σ.kind kind).Written := by
  cases kind with
  | identifier name => exact isName_iff.mp (σ.isName_name name (isName_iff.mpr h))
  | integer value => exact σ.unsigned_integer value h
  | string raw => exact ⟨_, String.toList_ofList⟩
  | _ => exact h

private theorem endsAt_kind {kind : Kind} {rest : List Char} :
    (σ.kind kind).EndsAt rest ↔ kind.EndsAt rest := by
  have same : (σ.kind kind).glues = kind.glues := by cases kind <;> rfl
  rw [Kind.EndsAt, Kind.EndsAt, same]

end Relabeling

def Token.Kind.opens : Kind → Char → Bool
  | identifier _, c => isWordStart c
  | integer _, c => c.isDigit
  | string _, c => c == '\''
  | _, _ => false

private theorem Token.Lexeme.opens_longest {first : Char} {rest : List Char} :
    (longest first rest).kind.isLeaf = true →
      (longest first rest).kind.opens first = true := by
  have noLeaf {strict orEqual : Kind} (h : strict.isLeaf = false)
      (h' : orEqual.isLeaf = false) :
      (comparison strict orEqual first rest).kind.isLeaf ≠ true :=
    Bool.eq_false_iff.mp (comparison_kind (P := (·.isLeaf = false)) h h' first rest)
  apply longest_cases (P := fun lexeme =>
    lexeme.kind.isLeaf = true → lexeme.kind.opens first = true)
  · intro kind symbol leaf
    unfold Kind.ofSymbol? at symbol
    split at symbol <;> cases symbol <;> cases leaf
  · exact fun _ leaf => absurd leaf (noLeaf rfl rfl)
  · exact fun _ leaf => absurd leaf (noLeaf rfl rfl)
  · rintro rfl leaf
    unfold quoted at leaf ⊢
    split
    · rfl
    · next unclosed =>
        rw [unclosed] at leaf
        cases leaf
  · intro digit leaf
    simp only [run, Kind.ofDigits] at leaf ⊢
    split
    · exact digit
    · next large =>
        rw [if_neg large] at leaf
        cases leaf
  · intro start leaf
    simp only [run, Kind.ofWord] at leaf ⊢
    split
    · next reserved =>
        rw [reserved] at leaf
        cases leaf
    · exact start
  · exact fun leaf => absurd leaf Bool.false_ne_true

namespace Token.Kind

private theorem glues_of_isWordChar {before : Kind} {c c' : Char} (word : isWordChar c = true)
    (word' : isWordChar c' = true) (digit : c'.isDigit = c.isDigit) :
    before.glues c' = before.glues c := by
  obtain ⟨noQuote, noEqual⟩ := Lexeme.no_sign_of_isWordChar word
  obtain ⟨noQuote', noEqual'⟩ := Lexeme.no_sign_of_isWordChar word'
  cases before with
  | identifier | keyword => exact word'.trans word.symm
  | integer => exact digit
  | string => exact noQuote'.trans noQuote.symm
  | lt | gt => exact noEqual'.trans noEqual.symm
  | _ => rfl

theorem glues_of_opens {leaf before : Kind} {c c' : Char} (h : leaf.opens c = true)
    (h' : leaf.opens c' = true) : before.glues c' = before.glues c := by
  cases leaf with
  | identifier =>
      have noDigit := Lexeme.not_isDigit_of_isWordStart h
      have noDigit' := Lexeme.not_isDigit_of_isWordStart h'
      exact glues_of_isWordChar (Lexeme.isWordChar_of_isWordStart h)
        (Lexeme.isWordChar_of_isWordStart h') (noDigit'.trans noDigit.symm)
  | integer =>
      exact glues_of_isWordChar (Lexeme.isWordChar_of_isDigit h)
        (Lexeme.isWordChar_of_isDigit h') (Eq.trans h' h.symm)
  | string => rw [beq_iff_eq.mp h, beq_iff_eq.mp h']
  | _ => cases h

end Token.Kind

namespace Relabeling

variable {σ : Relabeling}

private theorem opens_kind (kind : Kind) : (σ.kind kind).opens = kind.opens := by
  cases kind <;> rfl

private theorem isLeaf_kind (kind : Kind) : (σ.kind kind).isLeaf = kind.isLeaf := by
  cases kind <;> rfl

/-! ## Pieces in place of lexemes -/

/-- The piece can stand where a lexeme of the kind begins with `first`: it is cut off as
the relabeled kind before all that the lexeme ends at, and a token before it goes on with
its first character as with `first`. -/
def Replaces (σ : Relabeling) (kind : Kind) (first : Char) (piece : List Char) : Prop :=
  ∃ front back, piece = front :: back ∧ Text.isBlank front = false ∧
    (∀ before : Kind, before.glues front = before.glues first) ∧
    ∀ after, kind.EndsAt after →
      longest front (back ++ after) = ⟨σ.kind kind, front :: back, after⟩

variable {first : Char} {rest more : List Char}

private theorem replaces_leaf (sound : ∀ cause, (longest first rest).kind ≠ .fault cause)
    (leaf : (longest first rest).kind.isLeaf = true) :
    σ.Replaces (longest first rest).kind first
      (σ.kind (longest first rest).kind).spelling.toList := by
  have opens := Token.Lexeme.opens_longest leaf
  have written := σ.kind_written (Token.Lexeme.written_longest sound)
  generalize (longest first rest).kind = kind at leaf opens written ⊢
  obtain ⟨front, back, text, solid, -⟩ :=
    Token.Lexeme.longest_of_spelling written (show (σ.kind kind).EndsAt [] from rfl)
  have resumes (after : List Char) (ends : kind.EndsAt after) :
      longest front (back ++ after) = ⟨σ.kind kind, front :: back, after⟩ := by
    obtain ⟨front', back', text', -, taken⟩ :=
      Token.Lexeme.longest_of_spelling written (σ.endsAt_kind.mpr ends)
    obtain ⟨rfl, rfl⟩ := List.cons.inj (text.symm.trans text')
    exact taken
  refine ⟨front, back, text, solid, fun before => ?_, resumes⟩
  have taken := resumes [] rfl
  have opens' : (σ.kind kind).opens front = true := by
    have leaf' : (longest front (back ++ [])).kind.isLeaf = true := by
      rw [taken]
      exact (isLeaf_kind kind).trans leaf
    have := Token.Lexeme.opens_longest leaf'
    rwa [taken] at this
  rw [opens_kind] at opens'
  exact Kind.glues_of_opens opens opens'

private theorem replaces_other (solid : Text.isBlank first = false)
    (bounded : Bounded first rest (longest first rest) more)
    (other : (longest first rest).kind.isLeaf = false) :
    σ.Replaces (longest first rest).kind first (first :: more) := by
  refine ⟨first, more, rfl, solid, fun _ => rfl, fun after ends => ?_⟩
  rw [(σ.replacement?_of_not_leaf other).2]
  exact bounded.resumes after ends

private theorem piece?_replaces {text : List Char} {token : Token}
    (sound : ∀ cause, (longest first rest).kind ≠ .fault cause)
    (solid : Text.isBlank first = false)
    (bounded : Bounded first rest (longest first rest) more)
    (kind : token.kind = (longest first rest).kind)
    (slice : Text.slice? text token.span.start token.span.stop = some (first :: more)) :
    ∃ piece, σ.piece? text token = some piece ∧
      σ.Replaces (longest first rest).kind first piece := by
  cases leaf : (longest first rest).kind.isLeaf with
  | true =>
      refine ⟨_, ?_, replaces_leaf sound leaf⟩
      rw [piece?, kind, σ.replacement?_of_leaf leaf]
  | false =>
      refine ⟨_, ?_, replaces_other solid bounded leaf⟩
      rw [piece?, kind, (σ.replacement?_of_not_leaf leaf).1]
      exact slice

end Relabeling

/-! ## Whole texts -/

theorem Lexer.pieces_of_cons {lexer : Lexer} {first : Char} {rest : List Char}
    (left : lexer.skipBlanks.rest = first :: rest)
    (sound : ∀ cause, (longest first rest).kind ≠ .fault cause) :
    ∃ gap more, lexer.rest = gap ++ (first :: more ++ (longest first rest).rest) ∧
      (∀ c ∈ gap, Text.isBlank c = true) ∧ Text.isBlank first = false ∧
      lexer.skipBlanks.offset = lexer.offset + Text.byteLength gap ∧
      Bounded first rest (longest first rest) more := by
  obtain ⟨more, bounded⟩ := longest_bounded sound
  obtain ⟨gap, split, blank, moved, solid⟩ := lexer.skipBlanks_split
  rw [left, Stops.cons] at solid
  refine ⟨gap, more, ?_, blank, solid, moved, bounded⟩
  rw [split, left, List.cons_append, ← bounded.split]

namespace Relabeling

variable {σ : Relabeling}

/-- From a place in a text on, the leaves can be replaced: the new text is cut into the
relabeled kinds, and no token goes on with it that does not go on with the old one. -/
def Rewritable (σ : Relabeling) (lexer : Lexer) (tokens : List Token) : Prop :=
  ∀ before, lexer.offset = Text.byteLength before →
    ∃ rewritten row,
      σ.rewriteFrom (before ++ lexer.rest) lexer.offset tokens = some rewritten ∧
      kinds tokens = row ++ [.eof] ∧ Cut rewritten (row.map σ.kind) ∧
      ∀ kind : Kind, kind.EndsAt lexer.rest → kind.EndsAt rewritten

private theorem rewritable_blank {lexer : Lexer} (left : lexer.skipBlanks.rest = []) :
    σ.Rewritable lexer [⟨.eof, .point lexer.skipBlanks.offset⟩] := by
  intro before offset
  have stop : lexer.skipBlanks.offset = Text.byteLength (before ++ lexer.rest) := by
    obtain ⟨gap, split, -, moved, -⟩ := lexer.skipBlanks_split
    rw [left, List.append_nil] at split
    rw [moved, split, Text.byteLength_append, offset]
  have rest : σ.rewriteFrom (before ++ lexer.rest) lexer.skipBlanks.offset [] = some [] :=
    Text.slice?_of_append (before ++ lexer.rest) [] [] (by simp) stop (by simp)
  have piece : σ.piece? (before ++ lexer.rest) ⟨.eof, .point lexer.skipBlanks.offset⟩ =
      some [] :=
    Text.slice?_of_append (before ++ lexer.rest) [] [] (by simp) stop
      (by simpa [Span.point] using stop)
  have gap : Text.slice? (before ++ lexer.rest) lexer.offset lexer.skipBlanks.offset =
      some lexer.rest :=
    Text.slice?_of_append before lexer.rest [] (by simp) offset (by simpa using stop)
  refine ⟨lexer.rest ++ ([] ++ []), [], σ.rewriteFrom_cons gap piece rest, rfl, ?_, ?_⟩
  · simpa using Cut.blank left
  · simp

private theorem rewritable_token {lexer : Lexer} {first : Char} {rest : List Char}
    {tokens : List Token} (left : lexer.skipBlanks.rest = first :: rest)
    (sound : ∀ cause, (longest first rest).kind ≠ .fault cause)
    (behind : σ.Rewritable lexer.next.2 tokens) :
    σ.Rewritable lexer (lexer.next.1 :: tokens) := by
  intro before offset
  obtain ⟨gap, more, whole, blank, solid, moved, bounded⟩ := Lexer.pieces_of_cons left sound
  have next := Lexer.next_of_cons left
  simp only [bounded.text] at next
  rw [next] at behind ⊢
  have start : lexer.skipBlanks.offset = Text.byteLength (before ++ gap) := by
    rw [moved, offset, Text.byteLength_append]
  have gapped : Text.slice? (before ++ lexer.rest) lexer.offset lexer.skipBlanks.offset =
      some gap :=
    Text.slice?_of_append before gap _ (by rw [whole]) offset (by simpa using start)
  have sliced : Text.slice? (before ++ lexer.rest) lexer.skipBlanks.offset
      (lexer.skipBlanks.offset + Text.byteLength (first :: more)) = some (first :: more) :=
    Text.slice?_of_append (before ++ gap) (first :: more) _ (by rw [whole, List.append_assoc])
      start (by rw [start])
  -- the text behind is rewritten already, and the new token ends at it like the old one
  obtain ⟨tail, row, rewritten, ended, cut, ends⟩ :=
    behind (before ++ gap ++ first :: more) (by simp [start, Nat.add_assoc])
  have later : σ.rewriteFrom (before ++ lexer.rest)
      (lexer.skipBlanks.offset + Text.byteLength (first :: more)) tokens = some tail := by
    rw [whole]
    simpa using rewritten
  obtain ⟨piece, placed, replaces⟩ : ∃ piece, σ.piece? (before ++ lexer.rest)
      ⟨(longest first rest).kind, ⟨lexer.skipBlanks.offset,
        lexer.skipBlanks.offset + Text.byteLength (first :: more)⟩⟩ = some piece ∧
      σ.Replaces (longest first rest).kind first piece :=
    piece?_replaces sound solid bounded rfl sliced
  obtain ⟨front, back, rfl, solid', glued, resumes⟩ := replaces
  refine ⟨gap ++ (front :: back ++ tail), (longest first rest).kind :: row,
    σ.rewriteFrom_cons gapped placed later, ?_, ?_, ?_⟩
  · rw [kinds_cons, ended, List.cons_append]
  · exact .blanks blank (.lexeme solid' (resumes tail (ends _ bounded.ends))
      (σ.kind_written (Token.Lexeme.written_longest sound)) cut)
  -- a token before this place sees the gap or, without one, the first new character
  · intro kind stops
    rw [whole] at stops
    cases gap with
    | nil => exact Stops.cons.mpr ((glued kind).trans (Stops.cons.mp stops))
    | cons c gap => exact Stops.cons.mpr (Stops.cons.mp stops)

theorem rewriteFrom_cut {lexer : Lexer} {tokens : List Token}
    (h : lexer.tokenize.1 = .ok tokens) : σ.Rewritable lexer tokens :=
  Lexer.tokenize_induction (motive := σ.Rewritable)
    (fun _ left => rewritable_blank left)
    (fun _ _ _ _ left sound behind => rewritable_token left sound behind) h

end Relabeling

end CompactSql
