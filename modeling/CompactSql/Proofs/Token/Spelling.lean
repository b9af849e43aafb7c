import CompactSql.Proofs.Token.Boundary

/-!
# Spelling tokens

How a kind is written, and when a text that is put together from written kinds is
cut back into them.  A word, a number and a string go on for as long as they can, so
what follows must not be glued to them; behind a blank or a sign anything can follow.
-/

namespace CompactSql

open Token (Kind isWordStart isWordChar)
open Token.Lexeme (longest)

namespace Token.Kind

def spelling : Kind → String
  | integer value => toString value.toInt
  | string raw => "'" ++ raw ++ "'"
  | identifier name => name
  | keyword word => word.text
  | plus => "+"
  | minus => "-"
  | star => "*"
  | slash => "/"
  | eq => "="
  | lt => "<"
  | ltEq => "<="
  | gt => ">"
  | gtEq => ">="
  | leftParen => "("
  | rightParen => ")"
  | comma => ","
  | dot => "."
  | eof => ""
  | fault _ => ""

/-- A name starts like a word, goes on like one and is no keyword; a number has no
sign, and the quotes of a string are doubled. -/
def Written : Kind → Prop
  | integer value => 0 ≤ value.toInt
  | string raw => ∃ text, raw.toList = Text.double text
  | identifier name => ∃ first rest, name.toList = first :: rest ∧
      isWordStart first = true ∧ (∀ c ∈ rest, isWordChar c = true) ∧
      Keyword.ofWord? name.toList = none
  | eof => False
  | fault _ => False
  | _ => True

theorem written_integer (value : Int64) : (integer value).Written ↔ 0 ≤ value.toInt :=
  Iff.rfl

theorem written_identifier (name : String) :
    (identifier name).Written ↔ ∃ first rest, name.toList = first :: rest ∧
      isWordStart first = true ∧ (∀ c ∈ rest, isWordChar c = true) ∧
      Keyword.ofWord? name.toList = none :=
  Iff.rfl

@[simp] theorem written_keyword (word : Keyword) : (keyword word).Written := trivial

@[simp] theorem written_star : star.Written := trivial

@[simp] theorem written_eq : eq.Written := trivial

@[simp] theorem written_dot : dot.Written := trivial

@[simp] theorem written_comma : comma.Written := trivial

@[simp] theorem written_leftParen : leftParen.Written := trivial

@[simp] theorem written_rightParen : rightParen.Written := trivial

end Token.Kind

def Writable (row : List Kind) : Prop := ∀ kind ∈ row, kind.Written

namespace Writable

@[simp] theorem nil : Writable [] := by simp [Writable]

@[simp] theorem cons {kind : Kind} {row : List Kind} :
    Writable (kind :: row) ↔ kind.Written ∧ Writable row := by
  simp [Writable]

@[simp] theorem append {row others : List Kind} :
    Writable (row ++ others) ↔ Writable row ∧ Writable others := by
  simp [Writable, or_imp, forall_and]

end Writable

namespace Token.Lexeme

theorem written_ofDigits {digits : List Char}
    (sound : ∀ cause, Kind.ofDigits digits ≠ .fault cause) :
    (Kind.ofDigits digits).Written := by
  unfold Kind.ofDigits at sound ⊢
  simp only at sound ⊢
  split
  · next small =>
      have value := Int64.toInt_ofNat_of_lt small
      change 0 ≤ (Int64.ofNat _).toInt
      rw [value]
      exact Int.natCast_nonneg _
  · next large =>
      rw [if_neg large] at sound
      exact absurd rfl (sound _)

theorem written_ofWord {first : Char} {rest : List Char} (start : isWordStart first = true)
    (inside : ∀ c ∈ rest, isWordChar c = true) : (Kind.ofWord (first :: rest)).Written := by
  unfold Kind.ofWord
  split
  · trivial
  · next free =>
      refine ⟨first, rest, String.toList_ofList, start, inside, ?_⟩
      rw [String.toList_ofList, free]

theorem written_ofSymbol {c : Char} {kind : Kind} (h : Kind.ofSymbol? c = some kind) :
    kind.Written := by
  unfold Kind.ofSymbol? at h
  split at h <;> first | cases h; trivial | cases h

theorem written_longest {first : Char} {rest : List Char} :
    (∀ cause, (longest first rest).kind ≠ .fault cause) →
      (longest first rest).kind.Written := by
  apply longest_cases (P := fun lexeme =>
    (∀ cause, lexeme.kind ≠ .fault cause) → lexeme.kind.Written)
  · exact fun _ symbol _ => written_ofSymbol symbol
  · exact fun _ _ => comparison_kind (P := Kind.Written) (by trivial) (by trivial) _ _
  · exact fun _ _ => comparison_kind (P := Kind.Written) (by trivial) (by trivial) _ _
  · intro _
    unfold quoted
    split
    · next raw after close =>
        intro _
        obtain ⟨inner, rfl⟩ := doubled_of_close? close
        exact ⟨inner, String.toList_ofList⟩
    · exact fun sound => absurd rfl (sound _)
  · exact fun _ sound => written_ofDigits sound
  · exact fun start _ => written_ofWord start
      (List.all_eq_true.mp List.all_takeWhile)
  · exact fun sound => absurd rfl (sound _)

end Token.Lexeme

theorem Cut.writable {text : List Char} {row : List Kind} (h : Cut text row) :
    Writable row := by
  induction h with
  | blank => exact .nil
  | token _ sound _ ih => exact Writable.cons.mpr ⟨Token.Lexeme.written_longest sound, ih⟩

/-! ## The longest lexeme of a spelling -/

def isFresh (c : Char) : Bool := !isWordChar c && c != '=' && c != '\''

def Fresh (rest : List Char) : Prop := rest.head?.all isFresh = true

namespace Fresh

theorem cons {c : Char} {rest : List Char} :
    Fresh (c :: rest) ↔ isWordChar c = false ∧ c ≠ '=' ∧ c ≠ '\'' := by
  simp [Fresh, isFresh, and_assoc]

theorem append {front back : List Char} (h : Fresh front) (h' : Fresh back) :
    Fresh (front ++ back) := by
  cases front with
  | nil => exact h'
  | cons c front => exact h

theorem of_blank {text : List Char} (h : ∀ c ∈ text, Text.isBlank c = true) :
    Fresh text := by
  cases text with
  | nil => rfl
  | cons c rest =>
      have blank := h c List.mem_cons_self
      refine cons.mpr ⟨?_, ?_, ?_⟩
      · apply Bool.eq_false_iff.mpr
        intro word
        rw [Token.Lexeme.isBlank_of_isWordChar word] at blank
        cases blank
      · rintro rfl
        cases blank
      · rintro rfl
        cases blank

theorem endsAt {rest : List Char} (h : Fresh rest) (kind : Kind) : kind.EndsAt rest := by
  cases rest with
  | nil => rfl
  | cons c rest =>
      obtain ⟨noWord, notEqual, notQuote⟩ := cons.mp h
      have noDigit : c.isDigit = false := by
        refine Bool.eq_false_iff.mpr fun digit => ?_
        have word := Token.Lexeme.isWordChar_of_isDigit digit
        exact absurd word (by simp [noWord])
      rw [Kind.EndsAt, Stops.cons]
      cases kind with
      | identifier | keyword => exact noWord
      | integer => exact noDigit
      | string => exact beq_eq_false_iff_ne.mpr notQuote
      | lt | gt => exact beq_eq_false_iff_ne.mpr notEqual
      | _ => rfl

end Fresh

namespace Token.Lexeme

theorem toList_toString {value : Int64} (h : 0 ≤ value.toInt) :
    ∃ n : Nat, (toString value.toInt).toList = Nat.toDigits 10 n ∧ n < 0x8000000000000000 ∧
      Int64.ofNat n = value := by
  obtain ⟨n, eq⟩ := Int.eq_ofNat_of_zero_le h
  have small : n < 0x8000000000000000 := by
    have := value.toInt_lt
    omega
  refine ⟨n, ?_, small, ?_⟩
  · rw [eq]
    simp [Int.toString_eq_repr, Int.repr_eq_if]
  · rw [← Int64.toInt_inj, Int64.toInt_ofNat_of_lt small, eq]

theorem longest_of_spelling {kind : Kind} (written : kind.Written) {rest : List Char}
    (ends : kind.EndsAt rest) :
    ∃ first more, kind.spelling.toList = first :: more ∧ Text.isBlank first = false ∧
      longest first (more ++ rest) = ⟨kind, first :: more, rest⟩ := by
  cases kind with
  | integer value =>
      obtain ⟨n, text, small, eq⟩ := toList_toString written
      have digits : ∀ c ∈ Nat.toDigits 10 n, c.isDigit = true := fun c =>
        Nat.isDigit_of_mem_toDigits (by decide) (by decide)
      obtain ⟨first, more, split⟩ := List.exists_cons_of_ne_nil
        (Nat.toDigits_ne_nil : Nat.toDigits 10 n ≠ [])
      rw [split, List.forall_mem_cons] at digits
      refine ⟨first, more, text.trans split,
        isBlank_of_isWordChar (isWordChar_of_isDigit digits.1), ?_⟩
      rw [longest_of_digits digits.1 digits.2 ends, ← split, Kind.ofDigits,
        Nat.ofDigitChars_ten_toDigits, if_pos small, eq]
  | string raw =>
      obtain ⟨inner, doubled⟩ := written
      refine ⟨'\'', Text.double inner ++ ['\''], ?_, rfl, ?_⟩
      · simp [Kind.spelling, doubled]
      · rw [List.append_assoc, List.singleton_append, longest_of_string inner ends,
          ← doubled, String.ofList_toList, List.cons_append]
  | identifier name =>
      obtain ⟨first, more, text, start, inside, free⟩ := written
      refine ⟨first, more, text,
        isBlank_of_isWordChar (isWordChar_of_isWordStart start), ?_⟩
      rw [longest_of_word start inside ends, ← text, Kind.ofWord, free,
        String.ofList_toList]
  | keyword word =>
      have letters : ∃ first more, word.text.toList = first :: more ∧
          isWordStart first = true ∧ ∀ c ∈ more, isWordChar c = true := by
        cases word <;> exact ⟨_, _, rfl, rfl, List.all_eq_true.mp rfl⟩
      obtain ⟨first, more, text, start, inside⟩ := letters
      refine ⟨first, more, text,
        isBlank_of_isWordChar (isWordChar_of_isWordStart start), ?_⟩
      rw [longest_of_word start inside ends, ← text, Kind.ofWord, Keyword.ofWord?_text]
  | lt => exact ⟨'<', [], rfl, rfl, comparison_of_stops _ _ _ ends⟩
  | gt => exact ⟨'>', [], rfl, rfl, comparison_of_stops _ _ _ ends⟩
  | ltEq => exact ⟨'<', ['='], rfl, rfl, rfl⟩
  | gtEq => exact ⟨'>', ['='], rfl, rfl, rfl⟩
  | eof | fault => cases written
  | plus | minus | star | slash | eq | leftParen | rightParen | comma | dot =>
      exact ⟨_, [], rfl, rfl, longest_of_symbol rfl _⟩

end Token.Lexeme

/-! ## Texts that are cut into given kinds -/

theorem Cut.skip {c : Char} {text : List Char} {row : List Kind}
    (h : Text.isBlank c = true) : Cut (c :: text) row ↔ Cut text row := by
  have skipped : (c :: text).dropWhile Text.isBlank = text.dropWhile Text.isBlank := by
    simp [h]
  constructor
  · intro cut
    cases cut with
    | blank left => exact .blank (skipped ▸ left)
    | token left sound more => exact .token (skipped ▸ left) sound more
  · intro cut
    cases cut with
    | blank left => exact .blank (skipped.trans left)
    | token left sound more => exact .token (skipped.trans left) sound more

theorem Cut.blanks {gap text : List Char} {row : List Kind}
    (blank : ∀ c ∈ gap, Text.isBlank c = true) (h : Cut text row) : Cut (gap ++ text) row := by
  induction gap with
  | nil => exact h
  | cons c gap ih =>
      rw [List.forall_mem_cons] at blank
      exact (Cut.skip blank.1).mpr (ih blank.2)

theorem Cut.of_blank {gap : List Char} (blank : ∀ c ∈ gap, Text.isBlank c = true) :
    Cut gap [] := by
  have skipped : Cut (gap ++ []) [] := .blanks blank (.blank rfl)
  rwa [List.append_nil] at skipped

theorem Cut.lexeme {first : Char} {more rest : List Char} {kind : Kind} {row : List Kind}
    (solid : Text.isBlank first = false)
    (taken : longest first (more ++ rest) = ⟨kind, first :: more, rest⟩)
    (written : kind.Written) (h : Cut rest row) :
    Cut (first :: more ++ rest) (kind :: row) := by
  have left : (first :: more ++ rest).dropWhile Text.isBlank = first :: (more ++ rest) := by
    simp [solid]
  have sound : ∀ cause, (longest first (more ++ rest)).kind ≠ .fault cause := by
    rintro cause fault
    rw [taken] at fault
    subst fault
    exact written
  have behind : Cut (longest first (more ++ rest)).rest row := by
    rw [taken]
    exact h
  have cut := Cut.token left sound behind
  rwa [taken] at cut

/-- The text is the spellings of the row, with spaces among them. -/
inductive Typeset : List Char → List Kind → Prop
  | nil : Typeset [] []
  | kind (kind : Kind) {text : List Char} {row : List Kind} : Typeset text row →
      Typeset (kind.spelling.toList ++ text) (kind :: row)
  | space {text : List Char} {row : List Kind} : Typeset text row →
      Typeset (' ' :: text) row

theorem Typeset.append {text others : List Char} {row more : List Kind}
    (h : Typeset text row) (h' : Typeset others more) :
    Typeset (text ++ others) (row ++ more) := by
  induction h with
  | nil => exact h'
  | kind kind _ ih =>
      rw [List.append_assoc]
      exact .kind kind ih
  | space _ ih => exact .space ih

theorem Typeset.single (kind : Kind) : Typeset kind.spelling.toList [kind] := by
  simpa using Typeset.kind kind .nil

/-- The text is set in the row, and it is cut into the row whatever fresh text stands
behind it. -/
structure Spells (text : String) (row : List Kind) : Prop where
  typeset : Typeset text.toList row
  cuts : ∀ rest tail, Fresh rest → Cut rest tail → Cut (text.toList ++ rest) (row ++ tail)

/-- The text is set in the row, and it is cut into the row whatever stands behind it. -/
structure Sealed (text : String) (row : List Kind) : Prop where
  typeset : Typeset text.toList row
  cuts : ∀ rest tail, Cut rest tail → Cut (text.toList ++ rest) (row ++ tail)

theorem Typeset.join {text others : String} {row more : List Kind}
    (h : Typeset text.toList row) (h' : Typeset others.toList more) :
    Typeset (text ++ others).toList (row ++ more) := by
  rw [String.toList_append]
  exact h.append h'

theorem Sealed.spells {text : String} {row : List Kind} (h : Sealed text row) :
    Spells text row :=
  ⟨h.typeset, fun rest tail _ => h.cuts rest tail⟩

namespace Spells

theorem cut {text : String} {row : List Kind} (h : Spells text row) :
    Cut text.toList row := by
  have := h.cuts [] [] rfl (.blank rfl)
  simpa using this

theorem nil : Spells "" [] := ⟨.nil, fun _ _ _ cut => cut⟩

theorem kind (kind : Kind) (written : kind.Written) : Spells kind.spelling [kind] := by
  refine ⟨.single kind, ?_⟩
  intro rest tail fresh cut
  obtain ⟨first, more, text, solid, taken⟩ :=
    Token.Lexeme.longest_of_spelling written (fresh.endsAt kind)
  rw [text]
  exact .lexeme solid taken written cut

theorem name {name : String} (written : (Kind.identifier name).Written) :
    Spells name [.identifier name] := kind (.identifier name) written

theorem append {text others : String} {row more : List Kind} (h : Spells text row)
    (h' : Spells others more) (fresh : Fresh others.toList) :
    Spells (text ++ others) (row ++ more) := by
  refine ⟨h.typeset.join h'.typeset, ?_⟩
  intro rest tail behind cut
  rw [String.toList_append, List.append_assoc, List.append_assoc]
  exact h.cuts _ _ (fresh.append behind) (h'.cuts _ _ behind cut)

theorem sealedBy {text others : String} {row more : List Kind} (h : Spells text row)
    (h' : Sealed others more) (fresh : others.toList.head?.any isFresh = true) :
    Sealed (text ++ others) (row ++ more) := by
  refine ⟨h.typeset.join h'.typeset, ?_⟩
  intro rest tail cut
  rw [String.toList_append, List.append_assoc, List.append_assoc]
  refine h.cuts _ _ ?_ (h'.cuts _ _ cut)
  cases chars : others.toList with
  | nil => simp [chars] at fresh
  | cons c front => simpa [chars, Fresh] using fresh

end Spells

namespace Sealed

theorem nil : Sealed "" [] := ⟨.nil, fun _ _ cut => cut⟩

theorem append {text others : String} {row more : List Kind} (h : Sealed text row)
    (h' : Sealed others more) : Sealed (text ++ others) (row ++ more) := by
  refine ⟨h.typeset.join h'.typeset, ?_⟩
  intro rest tail cut
  rw [String.toList_append, List.append_assoc, List.append_assoc]
  exact h.cuts _ _ (h'.cuts _ _ cut)

theorem andSpells {text others : String} {row more : List Kind} (h : Sealed text row)
    (h' : Spells others more) : Spells (text ++ others) (row ++ more) := by
  refine ⟨h.typeset.join h'.typeset, ?_⟩
  intro rest tail fresh cut
  rw [String.toList_append, List.append_assoc, List.append_assoc]
  exact h.cuts _ _ (h'.cuts _ _ fresh cut)

theorem space : Sealed " " [] :=
  ⟨.space .nil, fun _ _ cut => (Cut.skip rfl).mpr cut⟩

theorem symbol (c : Char) {kind : Kind} (h : Kind.ofSymbol? c = some kind) :
    Sealed c.toString [kind] := by
  have spelling : kind.spelling = c.toString := by
    unfold Kind.ofSymbol? at h
    split at h <;> cases h <;> rfl
  refine ⟨spelling ▸ .single kind, ?_⟩
  intro rest tail cut
  have taken := Token.Lexeme.longest_of_symbol h rest
  have written := Token.Lexeme.written_ofSymbol h
  have front : Cut ([c] ++ rest) (kind :: tail) :=
    .lexeme (Kind.isBlank_of_symbol h) taken written cut
  simpa using front

theorem keyword (word : Keyword) : Sealed (word.text ++ " ") [.keyword word] :=
  (Spells.kind (.keyword word) trivial).sealedBy space rfl

end Sealed

end CompactSql
