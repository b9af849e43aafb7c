import CompactSql.Proofs.Token.Cutting

/-!
# Where a lexeme ends

A word, a number and a string go on for as long as they can, and so does a comparison
sign.  What follows a lexeme matters to it by its first character alone: the lexeme
stays what it is in front of every text that it does not go on with.
-/

namespace CompactSql

open Token (Kind isWordStart isWordChar)
open Token.Lexeme (longest)

def Stops (p : Char → Bool) (rest : List Char) : Prop := rest.head?.any p = false

namespace Stops

variable {p : Char → Bool}

theorem cons {c : Char} {rest : List Char} : Stops p (c :: rest) ↔ p c = false := by
  simp [Stops]

theorem dropWhile (text : List Char) : Stops p (text.dropWhile p) := by
  cases left : text.dropWhile p with
  | nil => rfl
  | cons c rest =>
      have stopped := List.head?_dropWhile_not p text
      rw [left] at stopped
      simpa [Stops] using stopped

theorem run {front back : List Char} (inside : ∀ c ∈ front, p c = true) (h : Stops p back) :
    (front ++ back).takeWhile p = front ∧ (front ++ back).dropWhile p = back := by
  rw [List.takeWhile_append_of_pos inside, List.dropWhile_append_of_pos inside]
  cases back with
  | nil => simp
  | cons c back => simp [cons.mp h]

end Stops

namespace Token.Kind

/-- The characters that a token of the kind takes in when they follow it. -/
def glues : Kind → Char → Bool
  | identifier _, c => isWordChar c
  | keyword _, c => isWordChar c
  | integer _, c => c.isDigit
  | string _, c => c == '\''
  | lt, c => c == '='
  | gt, c => c == '='
  | _, _ => false

def EndsAt (kind : Kind) (rest : List Char) : Prop := Stops kind.glues rest

theorem glues_ofWord (word : List Char) : (Kind.ofWord word).glues = isWordChar := by
  unfold Kind.ofWord
  split <;> rfl

private theorem endsAt_of_symbol {c : Char} {kind : Kind} (h : Kind.ofSymbol? c = some kind)
    (rest : List Char) : kind.EndsAt rest := by
  have never : kind.glues = fun _ => false := by
    unfold Kind.ofSymbol? at h
    split at h <;> first | cases h; rfl | cases h
  rw [EndsAt, never]
  cases rest <;> rfl

theorem isBlank_of_symbol {c : Char} {kind : Kind} (h : ofSymbol? c = some kind) :
    Text.isBlank c = false := by
  unfold ofSymbol? at h
  split at h <;> first | rfl | cases h

end Token.Kind

namespace Token.Lexeme

/-! ## Characters -/

theorem isWordStart_iff {c : Char} : isWordStart c = true ↔
    (65 ≤ c.toNat ∧ c.toNat ≤ 90) ∨ (97 ≤ c.toNat ∧ c.toNat ≤ 122) ∨ c.toNat = 95 := by
  have underscore : c = '_' ↔ c.toNat = 95 := Char.toNat_inj.symm
  unfold isWordStart Char.isAlpha Char.isUpper Char.isLower
  simp only [Bool.or_eq_true, Bool.and_eq_true, decide_eq_true_eq, beq_iff_eq, or_assoc,
    underscore]
  rfl

theorem isDigit_iff {c : Char} : c.isDigit = true ↔ 48 ≤ c.toNat ∧ c.toNat ≤ 57 := by
  unfold Char.isDigit
  simp only [Bool.and_eq_true, decide_eq_true_eq]
  rfl

theorem isWordChar_iff {c : Char} :
    isWordChar c = true ↔ isWordStart c = true ∨ c.isDigit = true := by
  simp only [isWordChar, isWordStart, Char.isAlphanum, Bool.or_eq_true]
  exact or_right_comm

theorem isWordChar_of_isDigit {c : Char} (h : c.isDigit = true) : isWordChar c = true := by
  simp [isWordChar, Char.isAlphanum, h]

theorem isWordChar_of_isWordStart {c : Char} (h : isWordStart c = true) :
    isWordChar c = true := by
  simp only [isWordStart, Bool.or_eq_true] at h
  simp only [isWordChar, Char.isAlphanum, Bool.or_eq_true]
  exact h.imp_left .inl

theorem isBlank_of_isWordChar {c : Char} (h : isWordChar c = true) :
    Text.isBlank c = false := by
  rw [isWordChar_iff, isWordStart_iff, isDigit_iff] at h
  simp only [Text.isBlank, Bool.or_eq_false_iff, Bool.and_eq_false_iff, decide_eq_false_iff_not,
    beq_eq_false_iff_ne]
  omega

theorem not_sign_of_isWordChar {c : Char} (h : isWordChar c = true) :
    Kind.ofSymbol? c = none ∧ c ≠ '<' ∧ c ≠ '>' ∧ c ≠ '\'' := by
  refine ⟨?_, ?_, ?_, ?_⟩
  · unfold Kind.ofSymbol?
    split <;> first | rfl | exact absurd h (by decide)
  all_goals
    rintro rfl
    exact absurd h (by decide)

theorem no_sign_of_isWordChar {c : Char} (word : isWordChar c = true) :
    (c == '\'') = false ∧ (c == '=') = false := by
  constructor <;>
    · refine beq_eq_false_iff_ne.mpr ?_
      rintro rfl
      exact absurd word (by decide)

theorem not_isDigit_of_isWordStart {c : Char} (h : isWordStart c = true) :
    c.isDigit = false := by
  rw [isWordStart_iff] at h
  refine Bool.eq_false_iff.mpr fun digit => ?_
  rw [isDigit_iff] at digit
  omega

theorem longest_of_symbol {c : Char} {kind : Kind} (h : Kind.ofSymbol? c = some kind)
    (rest : List Char) : longest c rest = ⟨kind, [c], rest⟩ := by
  simp only [longest, h]

theorem longest_of_wordStart {first : Char} (start : isWordStart first = true)
    (rest : List Char) : longest first rest = run isWordChar .ofWord first rest := by
  obtain ⟨noSymbol, notLess, notGreater, noQuote⟩ :=
    not_sign_of_isWordChar (isWordChar_of_isWordStart start)
  simp [longest, noSymbol, notLess, notGreater, noQuote, start,
    not_isDigit_of_isWordStart start]

theorem longest_of_isDigit {first : Char} (digit : first.isDigit = true)
    (rest : List Char) : longest first rest = run Char.isDigit .ofDigits first rest := by
  obtain ⟨noSymbol, notLess, notGreater, noQuote⟩ :=
    not_sign_of_isWordChar (isWordChar_of_isDigit digit)
  simp [longest, noSymbol, notLess, notGreater, noQuote, digit]

theorem run_of_stops {p : Char → Bool} (ofText : List Char → Kind) (first : Char)
    {more rest : List Char} (inside : ∀ c ∈ more, p c = true) (stops : Stops p rest) :
    run p ofText first (more ++ rest) = ⟨ofText (first :: more), first :: more, rest⟩ := by
  obtain ⟨taken, left⟩ := stops.run inside
  simp only [run, taken, left]

theorem longest_of_word {first : Char} {more rest : List Char}
    (start : isWordStart first = true) (inside : ∀ c ∈ more, isWordChar c = true)
    (stops : Stops isWordChar rest) :
    longest first (more ++ rest) = ⟨Kind.ofWord (first :: more), first :: more, rest⟩ := by
  rw [longest_of_wordStart start, run_of_stops _ _ inside stops]

theorem longest_of_digits {first : Char} {more rest : List Char}
    (digit : first.isDigit = true) (inside : ∀ c ∈ more, c.isDigit = true)
    (stops : Stops Char.isDigit rest) :
    longest first (more ++ rest) = ⟨Kind.ofDigits (first :: more), first :: more, rest⟩ := by
  rw [longest_of_isDigit digit, run_of_stops _ _ inside stops]

theorem close?_double (inner : List Char) {rest : List Char} (stops : Stops (· == '\'') rest) :
    Text.close? (Text.double inner ++ '\'' :: rest) = some (Text.double inner, rest) := by
  induction inner with
  | nil =>
      cases rest with
      | nil => rfl
      | cons c rest =>
          have other : c ≠ '\'' := by simpa using Stops.cons.mp stops
          simp [Text.double, Text.close?, other]
  | cons c inner ih =>
      by_cases quote : c = '\''
      · simp [Text.double, Text.close?, quote, ih]
      · simp [Text.double, Text.close?, quote, ih]

theorem longest_of_string (inner : List Char) {rest : List Char}
    (stops : Stops (· == '\'') rest) :
    longest '\'' (Text.double inner ++ '\'' :: rest) =
      ⟨.string (String.ofList (Text.double inner)),
        '\'' :: Text.double inner ++ ['\''], rest⟩ := by
  have chosen (rest : List Char) : longest '\'' rest = quoted rest := rfl
  rw [chosen, quoted, close?_double inner stops]

theorem comparison_of_stops (strict orEqual : Kind) (sign : Char) {rest : List Char}
    (stops : Stops (· == '=') rest) :
    comparison strict orEqual sign rest = ⟨strict, [sign], rest⟩ := by
  cases rest with
  | nil => rfl
  | cons c rest =>
      have other : c ≠ '=' := by simpa using Stops.cons.mp stops
      rw [comparison]
      intro after eq
      exact other (List.cons.inj eq).1

/-! ## The longest lexeme and its end -/

theorem doubled_of_close? {text raw rest : List Char}
    (h : Text.close? text = some (raw, rest)) : ∃ inner, raw = Text.double inner := by
  fun_induction Text.close? text generalizing raw rest with
  | case1 => cases h
  | case2 text ih =>
      obtain ⟨⟨raw', rest'⟩, close, eq⟩ := Option.map_eq_some_iff.mp h
      cases eq
      obtain ⟨inner, rfl⟩ := ih close
      exact ⟨'\'' :: inner, by simp [Text.double]⟩
  | case3 text _ =>
      cases h
      exact ⟨[], rfl⟩
  | case4 c text _ other ih =>
      obtain ⟨⟨raw', rest'⟩, close, eq⟩ := Option.map_eq_some_iff.mp h
      cases eq
      obtain ⟨inner, rfl⟩ := ih close
      exact ⟨c :: inner, by rw [Text.double, if_neg other]⟩

private theorem stops_of_close? {text raw rest : List Char}
    (h : Text.close? text = some (raw, rest)) : Stops (· == '\'') rest := by
  fun_induction Text.close? text generalizing raw rest with
  | case1 => cases h
  | case2 text ih | case4 c text _ _ ih =>
      obtain ⟨⟨raw', rest'⟩, close, eq⟩ := Option.map_eq_some_iff.mp h
      cases eq
      exact ih close
  | case3 text other =>
      cases h
      cases text with
      | nil => rfl
      | cons c text => exact Stops.cons.mpr (by simpa using other)

theorem quoted_of_string {first : Char} {rest : List Char} {raw : String} :
    (longest first rest).kind = .string raw →
      ∃ inner after, first = '\'' ∧ raw = String.ofList (Text.double inner) ∧
        Text.close? rest = some (Text.double inner, after) := by
  have noString {strict orEqual : Kind} (h : strict ≠ .string raw) (h' : orEqual ≠ .string raw) :
      (comparison strict orEqual first rest).kind ≠ .string raw :=
    comparison_kind (P := (· ≠ .string raw)) h h' first rest
  apply longest_cases (P := fun lexeme => lexeme.kind = .string raw →
    ∃ inner after, first = '\'' ∧ raw = String.ofList (Text.double inner) ∧
      Text.close? rest = some (Text.double inner, after))
  · rintro kind symbol rfl
    unfold Kind.ofSymbol? at symbol
    split at symbol <;> cases symbol
  · exact fun _ string => absurd string (noString (by simp) (by simp))
  · exact fun _ string => absurd string (noString (by simp) (by simp))
  · intro quote string
    unfold quoted at string
    split at string
    · next inner after close =>
        cases string
        obtain ⟨inner, rfl⟩ := doubled_of_close? close
        exact ⟨inner, after, quote, rfl, close⟩
    · cases string
  · intro _ string
    simp only [run, Kind.ofDigits] at string
    split at string <;> cases string
  · intro _ string
    simp only [run, Kind.ofWord] at string
    split at string <;> cases string
  · intro string
    cases string

/-- The lexeme is a piece at the front of the text, it ends at what is left, and it is
also the longest before every other text that it ends at. -/
structure Bounded (first : Char) (rest : List Char) (lexeme : Lexeme) (more : List Char) :
    Prop where
  text : lexeme.text = first :: more
  split : rest = more ++ lexeme.rest
  ends : lexeme.kind.EndsAt lexeme.rest
  resumes : ∀ after, lexeme.kind.EndsAt after →
    longest first (more ++ after) = ⟨lexeme.kind, first :: more, after⟩

private theorem run_bounded {p : Char → Bool} {ofText : List Char → Kind} {first : Char}
    {rest : List Char} (chosen : ∀ rest, longest first rest = run p ofText first rest)
    (glues : (ofText (first :: rest.takeWhile p)).glues = p) :
    Bounded first rest (run p ofText first rest) (rest.takeWhile p) := by
  have inside : ∀ c ∈ rest.takeWhile p, p c = true := List.all_eq_true.mp List.all_takeWhile
  refine ⟨rfl, List.takeWhile_append_dropWhile.symm, ?_, ?_⟩
  · simp only [run, Kind.EndsAt, glues]
    exact Stops.dropWhile rest
  · intro after ends
    simp only [run, Kind.EndsAt, glues] at ends ⊢
    rw [chosen, run_of_stops _ _ inside ends]

private theorem comparison_bounded {strict orEqual : Kind} {sign : Char} {rest : List Char}
    (chosen : ∀ rest, longest sign rest = comparison strict orEqual sign rest)
    (glues : strict.glues = (· == '=')) (never : orEqual.glues = fun _ => false) :
    ∃ more, Bounded sign rest (comparison strict orEqual sign rest) more := by
  by_cases stops : Stops (· == '=') rest
  · rw [comparison_of_stops _ _ _ stops]
    refine ⟨[], rfl, rfl, ?_, ?_⟩
    · rwa [Kind.EndsAt, glues]
    · intro after ends
      rw [Kind.EndsAt, glues] at ends
      rw [List.nil_append, chosen, comparison_of_stops _ _ _ ends]
  · obtain ⟨back, rfl⟩ : ∃ back, rest = '=' :: back := by
      cases rest with
      | nil => exact absurd rfl stops
      | cons c back =>
          rw [Stops.cons, beq_eq_false_iff_ne, ne_eq, Classical.not_not] at stops
          exact ⟨back, by rw [stops]⟩
    refine ⟨['='], rfl, rfl, ?_, fun after _ => chosen ('=' :: after)⟩
    simp only [comparison, Kind.EndsAt, never]
    cases back <;> rfl

theorem longest_bounded {first : Char} {rest : List Char} :
    (∀ cause, (longest first rest).kind ≠ .fault cause) →
      ∃ more, Bounded first rest (longest first rest) more := by
  -- one case for each sort of lexeme, with what it stops at
  apply longest_cases (P := fun lexeme =>
    (∀ cause, lexeme.kind ≠ .fault cause) → ∃ more, Bounded first rest lexeme more)
  · intro kind symbol _
    exact ⟨[], rfl, rfl, Kind.endsAt_of_symbol symbol rest,
      fun after _ => longest_of_symbol symbol after⟩
  · rintro rfl _
    exact comparison_bounded (fun _ => rfl) rfl rfl
  · rintro rfl _
    exact comparison_bounded (fun _ => rfl) rfl rfl
  · rintro rfl sound
    unfold quoted at sound ⊢
    split
    · next raw after close =>
        obtain ⟨inner, rfl⟩ := doubled_of_close? close
        refine ⟨Text.double inner ++ ['\''], rfl, ?_, stops_of_close? close, ?_⟩
        · simpa using Text.eq_append_of_close? close
        · intro other ends
          simpa using longest_of_string inner ends
    · next unclosed =>
        rw [unclosed] at sound
        exact absurd rfl (sound _)
  · intro digit sound
    refine ⟨_, run_bounded (longest_of_isDigit digit) ?_⟩
    simp only [run, Kind.ofDigits] at sound ⊢
    split
    · rfl
    · next large =>
        rw [if_neg large] at sound
        exact absurd rfl (sound _)
  · exact fun start _ => ⟨_, run_bounded (longest_of_wordStart start) (Kind.glues_ofWord _)⟩
  · exact fun sound => absurd rfl (sound _)

end Token.Lexeme

theorem Lexer.skipBlanks_split (lexer : Lexer) :
    ∃ gap, lexer.rest = gap ++ lexer.skipBlanks.rest ∧
      (∀ c ∈ gap, Text.isBlank c = true) ∧
      lexer.skipBlanks.offset = lexer.offset + Text.byteLength gap ∧
      Stops Text.isBlank lexer.skipBlanks.rest :=
  ⟨lexer.rest.takeWhile Text.isBlank, List.takeWhile_append_dropWhile.symm,
    List.all_eq_true.mp List.all_takeWhile, rfl, Stops.dropWhile lexer.rest⟩

end CompactSql
