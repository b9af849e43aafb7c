import CompactSql.Proofs.Token.Partition
import CompactSql.Proofs.Token.Spelling
import Mathlib.Data.List.Chain

/-!
# Tokens set side by side

Which tokens run together when nothing stands between them.  A slice of a text is written
as its kind demands, so the kind alone tells how it begins and which characters it would
go on with: whether two tokens need a blank between them depends on their kinds only.
-/

namespace CompactSql

open Token (isWordStart isWordChar)
open Token.Lexeme (longest)

namespace Text

open Token.Lexeme (isWordStart_iff isDigit_iff isWordChar_iff)

def SameLetters (word word' : List Char) : Prop :=
  word'.map Char.toUpper = word.map Char.toUpper

theorem toNat_toUpper (c : Char) :
    c.toUpper.toNat = if 97 ≤ c.toNat ∧ c.toNat ≤ 122 then c.toNat - 32 else c.toNat := by
  unfold Char.toUpper
  by_cases small : 'a'.val ≤ c.val ∧ c.val ≤ 'z'.val
  · have range : 97 ≤ c.toNat ∧ c.toNat ≤ 122 := small
    rw [dif_pos small, if_pos range]
    change (c.val + 4294967264).toNat = c.toNat - 32
    rw [UInt32.toNat_add]
    change (c.toNat + 4294967264) % 4294967296 = c.toNat - 32
    omega
  · have outside : ¬ (97 ≤ c.toNat ∧ c.toNat ≤ 122) := small
    rw [dif_neg small, if_neg outside]

theorem isWordStart_toUpper (c : Char) :
    isWordStart c.toUpper = true ↔ isWordStart c = true := by
  rw [isWordStart_iff, isWordStart_iff, toNat_toUpper]
  split <;> omega

private theorem isWordChar_toUpper (c : Char) :
    isWordChar c.toUpper = true ↔ isWordChar c = true := by
  rw [isWordChar_iff, isWordChar_iff, isWordStart_toUpper, isWordStart_iff, isDigit_iff,
    isDigit_iff, toNat_toUpper]
  split <;> omega

namespace SameLetters

theorem exists_cons {first : Char} {more word' : List Char}
    (h : SameLetters (first :: more) word') :
    ∃ first' more', word' = first' :: more' ∧ first'.toUpper = first.toUpper ∧
      SameLetters more more' := by
  obtain ⟨first', more', rfl, front, back⟩ := List.map_eq_cons_iff.mp h
  exact ⟨first', more', rfl, front, back⟩

private theorem isWordChar {word word' : List Char} (h : SameLetters word word')
    (inside : ∀ c ∈ word, isWordChar c = true) : ∀ c ∈ word', isWordChar c = true := by
  intro c' member'
  have upper : c'.toUpper ∈ word.map Char.toUpper := h ▸ List.mem_map_of_mem member'
  obtain ⟨c, member, same⟩ := List.mem_map.mp upper
  rw [← isWordChar_toUpper, ← same, isWordChar_toUpper]
  exact inside c member

private theorem ofWord?_eq {word word' : List Char} (h : SameLetters word word') :
    Keyword.ofWord? word' = Keyword.ofWord? word := by
  unfold Keyword.ofWord?
  rw [h]

end SameLetters

theorem double_append (front back : List Char) :
    double (front ++ back) = double front ++ double back := by
  induction front with
  | nil => rfl
  | cons c front ih =>
      by_cases quote : c = '\''
      · simp [double, quote, ih]
      · simp [double, quote, ih]

end Text

/-! ## How slices are written -/

namespace Token.Kind

def isWord : Kind → Bool
  | identifier _ | keyword _ => true
  | _ => false

def isInteger : Kind → Bool
  | integer _ => true
  | _ => false

def isString : Kind → Bool
  | string _ => true
  | _ => false

/-- Side by side the two tokens run together: words and numbers, strings, and the signs
that an equals sign extends. -/
def merges : Kind → Kind → Bool
  | identifier _, next => next.isWord || next.isInteger
  | keyword _, next => next.isWord || next.isInteger
  | integer _, next => next.isInteger
  | string _, next => next.isString
  | lt, next => next = eq
  | gt, next => next = eq
  | _, _ => false

theorem class_ofWord (word : List Char) : (ofWord word).isWord = true ∧
    (ofWord word).isInteger = false ∧ (ofWord word).isString = false ∧ ofWord word ≠ eq := by
  unfold ofWord
  split <;> exact ⟨rfl, rfl, rfl, nofun⟩

inductive Shaped : Kind → List Char → Prop
  | word {first : Char} {more : List Char} : isWordStart first = true →
      (∀ c ∈ more, isWordChar c = true) → Shaped (ofWord (first :: more)) (first :: more)
  | digits {first : Char} {more : List Char} {value : Int64} : first.isDigit = true →
      (∀ c ∈ more, c.isDigit = true) → ofDigits (first :: more) = integer value →
      Shaped (integer value) (first :: more)
  | string (inner : List Char) :
      Shaped (string (String.ofList (Text.double inner)))
        ('\'' :: (Text.double inner ++ ['\'']))
  | symbol {c : Char} {kind : Kind} : ofSymbol? c = some kind → Shaped kind [c]
  | lt : Shaped lt ['<']
  | ltEq : Shaped ltEq ['<', '=']
  | gt : Shaped gt ['>']
  | gtEq : Shaped gtEq ['>', '=']

end Token.Kind

namespace Token.Lexeme

open Token.Kind (Shaped)

variable {kind : Kind}

private theorem quoted_alone {more : List Char} (sound : ∀ cause, kind ≠ .fault cause)
    (h : quoted more = ⟨kind, '\'' :: more, []⟩) : kind.Shaped ('\'' :: more) := by
  unfold quoted at h
  split at h
  · next raw rest close =>
      obtain ⟨inner, rfl⟩ := doubled_of_close? close
      cases h
      exact .string inner
  · cases h
    exact absurd rfl (sound _)

end Token.Lexeme

namespace Token.Kind

variable {kind next : Kind} {piece : List Char}

theorem Covers.shaped (h : kind.Covers piece) (sound : ∀ cause, kind ≠ .fault cause) :
    kind.Shaped piece := by
  obtain ⟨-, -, alone⟩ := h
  next first more =>
  revert alone
  apply Lexeme.longest_cases (P := fun lexeme =>
    lexeme = ⟨kind, first :: more, []⟩ → kind.Shaped (first :: more))
  · rintro _ symbol ⟨⟩
    exact .symbol symbol
  · rintro rfl alone
    obtain ⟨rfl, rfl⟩ | ⟨rfl, rfl⟩ := Lexeme.comparison_alone alone
    · exact .lt
    · exact .ltEq
  · rintro rfl alone
    obtain ⟨rfl, rfl⟩ | ⟨rfl, rfl⟩ := Lexeme.comparison_alone alone
    · exact .gt
    · exact .gtEq
  · rintro rfl alone
    exact Lexeme.quoted_alone sound alone
  · intro digit alone
    obtain ⟨inside, eq⟩ := Lexeme.run_alone alone
    -- digits that are no fault are small enough for a value
    have value : ∃ value, ofDigits (first :: more) = integer value := by
      simp only [ofDigits] at eq ⊢
      split
      · exact ⟨_, rfl⟩
      · next large =>
          rw [if_neg large] at eq
          exact absurd eq (sound _)
    obtain ⟨value, eq'⟩ := value
    rw [eq, eq']
    exact .digits digit inside eq'
  · intro start alone
    obtain ⟨inside, rfl⟩ := Lexeme.run_alone alone
    exact .word start inside
  · rintro ⟨⟩
    exact absurd rfl (sound _)

namespace Shaped

theorem longest_eq (h : kind.Shaped piece) :
    ∃ first more, piece = first :: more ∧ Text.isBlank first = false ∧
      ∀ rest, kind.EndsAt rest → longest first (more ++ rest) = ⟨kind, piece, rest⟩ := by
  cases h with
  | word start inside =>
      refine ⟨_, _, rfl, Lexeme.isBlank_of_isWordChar (Lexeme.isWordChar_of_isWordStart start), ?_⟩
      intro rest ends
      rw [EndsAt, glues_ofWord] at ends
      exact Lexeme.longest_of_word start inside ends
  | digits digit inside value =>
      refine ⟨_, _, rfl, Lexeme.isBlank_of_isWordChar (Lexeme.isWordChar_of_isDigit digit), ?_⟩
      intro rest ends
      rw [← value]
      exact Lexeme.longest_of_digits digit inside ends
  | string inner =>
      refine ⟨_, _, rfl, rfl, ?_⟩
      intro rest ends
      simpa using Lexeme.longest_of_string inner ends
  | symbol symbol =>
      exact ⟨_, _, rfl, isBlank_of_symbol symbol, fun rest _ =>
        Lexeme.longest_of_symbol symbol rest⟩
  | lt => exact ⟨_, _, rfl, rfl, fun _ ends => Lexeme.comparison_of_stops _ _ _ ends⟩
  | gt => exact ⟨_, _, rfl, rfl, fun _ ends => Lexeme.comparison_of_stops _ _ _ ends⟩
  | ltEq => exact ⟨_, _, rfl, rfl, fun _ _ => rfl⟩
  | gtEq => exact ⟨_, _, rfl, rfl, fun _ _ => rfl⟩

private theorem written (h : kind.Shaped piece) : kind.Written := by
  cases h with
  | word start inside => exact Lexeme.written_ofWord start inside
  | digits _ _ value =>
      rw [← value]
      exact Lexeme.written_ofDigits (by rw [value]; exact fun _ => nofun)
  | string inner => exact ⟨inner, String.toList_ofList⟩
  | symbol symbol => exact Lexeme.written_ofSymbol symbol
  | lt | ltEq | gt | gtEq => trivial

private theorem opening {first : Char} {more : List Char} (h : kind.Shaped (first :: more)) :
    isWordChar first = (kind.isWord || kind.isInteger) ∧ first.isDigit = kind.isInteger ∧
      (first == '\'') = kind.isString ∧ (first == '=') = decide (kind = eq) := by
  have ofWordChar {c : Char} (word : isWordChar c = true) :
      (c == '\'') = false ∧ (c == '=') = false := Lexeme.no_sign_of_isWordChar word
  cases h with
  | word start inside =>
      have word := Lexeme.isWordChar_of_isWordStart start
      obtain ⟨isWord, noInteger, noString, notEqual⟩ := class_ofWord (first :: more)
      simp [isWord, noInteger, noString, notEqual, word, ofWordChar word,
        Lexeme.not_isDigit_of_isWordStart start]
  | digits digit inside value =>
      have word := Lexeme.isWordChar_of_isDigit digit
      simp [isWord, isInteger, isString, word, digit, ofWordChar word]
  | symbol symbol =>
      unfold ofSymbol? at symbol
      split at symbol <;> first | cases symbol; decide | cases symbol
  | string | lt | ltEq | gt | gtEq => exact ⟨rfl, rfl, rfl, rfl⟩

private theorem glues_eq {before : Kind} {first : Char} {more : List Char}
    (h : kind.Shaped (first :: more)) : before.glues first = before.merges kind := by
  obtain ⟨word, digit, quote, equal⟩ := h.opening
  cases before with
  | identifier | keyword => exact word
  | integer => exact digit
  | string => exact quote
  | lt | gt => exact equal
  | _ => rfl

private theorem of_isWord (h : kind.Shaped piece) (word : kind.isWord = true) :
    ∃ first more, piece = first :: more ∧ isWordStart first = true ∧
      ∀ c ∈ more, isWordChar c = true := by
  cases h with
  | word start inside => exact ⟨_, _, rfl, start, inside⟩
  | symbol symbol =>
      unfold ofSymbol? at symbol
      split at symbol <;> cases symbol <;> cases word
  | _ => cases word

theorem of_isInteger (h : kind.Shaped piece) (integer : kind.isInteger = true) :
    ∃ first more, piece = first :: more ∧ first.isDigit = true ∧
      ∀ c ∈ more, c.isDigit = true := by
  cases h with
  | digits digit inside => exact ⟨_, _, rfl, digit, inside⟩
  | word =>
      rw [(class_ofWord _).2.1] at integer
      cases integer
  | symbol symbol =>
      unfold ofSymbol? at symbol
      split at symbol <;> cases symbol <;> cases integer
  | _ => cases integer

private theorem of_isString (h : kind.Shaped piece) (string : kind.isString = true) :
    ∃ inner, piece = '\'' :: (Text.double inner ++ ['\'']) := by
  cases h with
  | string inner => exact ⟨inner, rfl⟩
  | word =>
      rw [(class_ofWord _).2.2.1] at string
      cases string
  | symbol symbol =>
      unfold ofSymbol? at symbol
      split at symbol <;> cases symbol <;> cases string
  | _ => cases string

private theorem of_sign (h : kind.Shaped piece) (noWord : kind.isWord = false)
    (noInteger : kind.isInteger = false) (noString : kind.isString = false) :
    piece = kind.spelling.toList := by
  cases h with
  | word =>
      rw [(class_ofWord _).1] at noWord
      cases noWord
  | symbol symbol =>
      unfold ofSymbol? at symbol
      split at symbol <;> cases symbol <;> rfl
  | digits => cases noInteger
  | string => cases noString
  | lt | ltEq | gt | gtEq => rfl

private theorem fused_word {piece' rest : List Char} (h : kind.Shaped piece)
    (word : kind.isWord = true)
    (h' : next.Shaped piece') (follows : (next.isWord || next.isInteger) = true)
    (fresh : Fresh rest) : ∃ first more, piece = first :: more ∧
      (longest first (more ++ (piece' ++ rest))).rest = rest := by
  obtain ⟨first, more, rfl, start, inside⟩ := h.of_isWord word
  have inside' : ∀ c ∈ piece', isWordChar c = true := by
    rcases Bool.or_eq_true_iff.mp follows with word' | integer'
    · obtain ⟨first', more', rfl, start', inside'⟩ := h'.of_isWord word'
      exact List.forall_mem_cons.mpr ⟨Lexeme.isWordChar_of_isWordStart start', inside'⟩
    · obtain ⟨first', more', rfl, digit', inside'⟩ := h'.of_isInteger integer'
      exact List.forall_mem_cons.mpr ⟨Lexeme.isWordChar_of_isDigit digit',
        fun c member => Lexeme.isWordChar_of_isDigit (inside' c member)⟩
  have joined := Lexeme.longest_of_word start (List.forall_mem_append.mpr ⟨inside, inside'⟩)
    (fresh.endsAt (.identifier ""))
  refine ⟨first, more, rfl, ?_⟩
  rw [← List.append_assoc, joined]

private theorem fused {piece' rest : List Char} (h : kind.Shaped piece) (h' : next.Shaped piece')
    (merge : kind.merges next = true) (fresh : Fresh rest) :
    ∃ first more, piece = first :: more ∧
      (longest first (more ++ (piece' ++ rest))).rest = rest := by
  cases kind with
  | identifier | keyword => exact h.fused_word rfl h' merge fresh
  | integer =>
      obtain ⟨first, more, rfl, digit, inside⟩ := h.of_isInteger rfl
      obtain ⟨first', more', rfl, digit', inside'⟩ := h'.of_isInteger merge
      have joined := Lexeme.longest_of_digits digit (List.forall_mem_append.mpr
        ⟨inside, List.forall_mem_cons.mpr ⟨digit', inside'⟩⟩) (fresh.endsAt (.integer 0))
      refine ⟨first, more, rfl, ?_⟩
      rw [← List.append_assoc, joined]
  | string =>
      obtain ⟨inner, rfl⟩ := h.of_isString rfl
      obtain ⟨inner', rfl⟩ := h'.of_isString merge
      -- The quotes that meet are one quote of the joined string.
      have joined := Lexeme.longest_of_string (inner ++ '\'' :: inner') (fresh.endsAt (.string ""))
      rw [Text.double_append, Text.double, if_pos rfl] at joined
      refine ⟨'\'', _, rfl, ?_⟩
      simp only [List.append_assoc, List.cons_append, List.nil_append] at joined ⊢
      rw [joined]
  | lt | gt =>
      obtain rfl := of_decide_eq_true merge
      obtain rfl := h.of_sign rfl rfl rfl
      obtain rfl := h'.of_sign rfl rfl rfl
      exact ⟨_, _, rfl, rfl⟩
  | _ => cases merge

theorem recase {word : Keyword} {slice : List Char} (h : (keyword word).Shaped piece)
    (same : Text.SameLetters piece slice) : (keyword word).Shaped slice := by
  generalize reserved : keyword word = kind at h
  cases h with
  | @word first more start inside =>
      obtain ⟨first', more', rfl, front, back⟩ := same.exists_cons
      have start' : isWordStart first' = true := by
        rwa [← Text.isWordStart_toUpper, front, Text.isWordStart_toUpper]
      have unchanged : ofWord (first' :: more') = ofWord (first :: more) := by
        unfold ofWord at reserved ⊢
        rw [same.ofWord?_eq]
        split at reserved <;> simp_all
      rw [← unchanged]
      exact .word start' (back.isWordChar inside)
  | symbol symbol =>
      subst reserved
      unfold ofSymbol? at symbol
      split at symbol <;> cases symbol
  | _ => cases reserved

end Shaped

end Token.Kind

/-! ## What a text is cut into -/

namespace Cut

variable {text rest : List Char} {row row' : List Token.Kind}

theorem of_blanks {gap : List Char} (blank : ∀ c ∈ gap, Text.isBlank c = true)
    (h : Cut (gap ++ text) row) : Cut text row := by
  induction gap with
  | nil => exact h
  | cons c gap ih =>
      rw [List.forall_mem_cons] at blank
      exact ih blank.2 ((Cut.skip blank.1).mp h)

theorem longest_cons {first : Char} (h : Cut (first :: rest) row)
    (solid : Text.isBlank first = false) :
    ∃ back, row = (longest first rest).kind :: back ∧ Cut (longest first rest).rest back := by
  have left : (first :: rest).dropWhile Text.isBlank = first :: rest := by simp [solid]
  cases h with
  | blank none => cases left.symm.trans none
  | token split _ behind =>
      obtain ⟨rfl, rfl⟩ := List.cons.inj (left.symm.trans split)
      exact ⟨_, rfl, behind⟩

theorem unique (h : Cut text row) (h' : Cut text row') : row = row' := by
  obtain ⟨tokens, cut, split⟩ := Lexer.tokenize_of_cut h 0
  obtain ⟨tokens', cut', split'⟩ := Lexer.tokenize_of_cut h' 0
  obtain rfl : tokens = tokens' := Except.ok.inj (cut.symm.trans cut')
  exact List.append_cancel_right (split.symm.trans split')

end Cut

/-! ## Rows of slices -/

/-- A token as it is set in a text: its kind, its slice and the blanks behind it. -/
structure Setting where
  kind : Token.Kind
  slice : List Char
  gap : List Char

namespace Setting

structure Sound (setting : Setting) : Prop where
  shaped : setting.kind.Shaped setting.slice
  blank : ∀ c ∈ setting.gap, Text.isBlank c = true

def layOut (settings : List Setting) : List Char :=
  settings.flatMap fun setting => setting.slice ++ setting.gap

@[simp] theorem layOut_nil : layOut [] = [] := rfl

@[simp] theorem layOut_cons (setting : Setting) (settings : List Setting) :
    layOut (setting :: settings) = setting.slice ++ (setting.gap ++ layOut settings) := by
  simp [layOut]

@[simp] theorem layOut_append (front back : List Setting) :
    layOut (front ++ back) = layOut front ++ layOut back := by
  simp [layOut]

/-- Tokens that would run together have blanks between them. -/
def Parted : List Setting → Prop :=
  List.IsChain fun setting next => setting.kind.merges next.kind = true → setting.gap ≠ []

variable {setting : Setting} {settings : List Setting}

theorem Sound.fresh (sound : setting.Sound) (h : setting.gap ≠ []) (text : List Char) :
    Fresh (setting.gap ++ text) := by
  obtain ⟨c, gap, split⟩ := List.exists_cons_of_ne_nil h
  have fresh := Fresh.of_blank sound.blank
  rw [split] at fresh ⊢
  exact fresh

theorem Parted.endsAt (parted : Parted (setting :: settings)) (sound : setting.Sound)
    (sounds : ∀ other ∈ settings, other.Sound) :
    setting.kind.EndsAt (setting.gap ++ layOut settings) := by
  by_cases gap : setting.gap = []
  · cases settings with
    | nil => rw [gap]; rfl
    | cons next settings =>
        have next_shaped := (sounds next List.mem_cons_self).shaped
        obtain ⟨first, more, slice, -⟩ := next_shaped.longest_eq
        rw [slice] at next_shaped
        have apart : setting.kind.merges next.kind ≠ true := fun merges =>
          (List.isChain_cons_cons.mp parted).1 merges gap
        rw [gap, layOut_cons, slice]
        refine Stops.cons.mpr ?_
        rw [next_shaped.glues_eq]
        exact Bool.eq_false_iff.mpr apart
  · exact (sound.fresh gap _).endsAt _

theorem Sound.cut_iff (sound : setting.Sound) {rest : List Char} {row : List Token.Kind}
    (ends : setting.kind.EndsAt rest) :
    Cut (setting.slice ++ rest) row ↔ ∃ back, row = setting.kind :: back ∧ Cut rest back := by
  obtain ⟨first, more, slice, solid, taken⟩ := sound.shaped.longest_eq
  have taken := taken rest ends
  rw [slice] at taken ⊢
  constructor
  · intro cut
    obtain ⟨back, split, behind⟩ := cut.longest_cons solid
    rw [List.append_eq, taken] at split behind
    exact ⟨back, split, behind⟩
  · rintro ⟨back, rfl, behind⟩
    exact .lexeme solid taken sound.shaped.written behind

theorem Parted.cut (parted : Parted settings) (sounds : ∀ setting ∈ settings, setting.Sound) :
    Cut (layOut settings) (settings.map Setting.kind) := by
  induction settings with
  | nil => exact .blank rfl
  | cons setting settings ih =>
      rw [List.forall_mem_cons] at sounds
      have behind := ih parted.tail sounds.2
      rw [layOut_cons, sounds.1.cut_iff (parted.endsAt sounds.1 sounds.2)]
      exact ⟨_, rfl, .blanks sounds.1.blank behind⟩

theorem cut_append {front : List Setting} {text : List Char} {row : List Token.Kind}
    (sounds : ∀ setting ∈ front, setting.Sound) (gaps : ∀ setting ∈ front, setting.gap ≠ [])
    (cut : Cut (layOut front ++ text) row) :
    ∃ back, row = front.map Setting.kind ++ back ∧ Cut text back := by
  induction front generalizing row with
  | nil => exact ⟨row, rfl, cut⟩
  | cons setting front ih =>
      rw [List.forall_mem_cons] at sounds gaps
      rw [layOut_cons, List.append_assoc, List.append_assoc, sounds.1.cut_iff
        ((sounds.1.fresh gaps.1 _).endsAt _)] at cut
      obtain ⟨others, split, behind⟩ := cut
      obtain ⟨back, rfl, rest⟩ := ih sounds.2 gaps.2 (behind.of_blanks sounds.1.blank)
      exact ⟨back, split, rest⟩

private theorem parted_of_gaps (gaps : ∀ setting ∈ settings.dropLast, setting.gap ≠ []) :
    Parted settings := by
  induction settings with
  | nil => exact .nil
  | cons setting settings ih =>
      cases settings with
      | nil => exact .singleton _
      | cons next settings =>
          rw [List.dropLast_cons_cons, List.forall_mem_cons] at gaps
          exact .cons_cons (fun _ => gaps.1) (ih gaps.2)

/-- Two tokens that run together stand side by side, and no others do. -/
def Joined (settings : List Setting) : Prop :=
  ∃ front first second back, settings = front ++ first :: second :: back ∧
    first.kind.merges second.kind = true ∧ first.gap = [] ∧
    (∀ setting ∈ front, setting.gap ≠ []) ∧
    ∀ setting ∈ (second :: back).dropLast, setting.gap ≠ []

theorem Joined.length_lt (joined : Joined settings)
    (sounds : ∀ setting ∈ settings, setting.Sound) {row : List Token.Kind}
    (cut : Cut (layOut settings) row) : row.length < settings.length := by
  -- up to the two that run together the text is cut as before, and there a piece is lost
  obtain ⟨front, first, second, back, rfl, merges, gap, before, behind⟩ := joined
  simp only [List.forall_mem_append, List.forall_mem_cons] at sounds
  obtain ⟨soundFront, soundFirst, soundSecond, soundBack⟩ := sounds
  rw [layOut_append] at cut
  obtain ⟨joint, rfl, jointCut⟩ := cut_append soundFront before cut
  have fresh : Fresh (second.gap ++ layOut back) := by
    cases back with
    | nil => simpa using Fresh.of_blank soundSecond.blank
    | cons next back =>
        exact soundSecond.fresh (behind second List.mem_cons_self) _
  obtain ⟨c, more, slice, rest⟩ := soundFirst.shaped.fused soundSecond.shaped merges fresh
  obtain ⟨_, _, slice', solid, -⟩ := soundFirst.shaped.longest_eq
  obtain ⟨rfl, rfl⟩ := List.cons.inj (slice.symm.trans slice')
  rw [layOut_cons, layOut_cons, slice, gap, List.nil_append] at jointCut
  obtain ⟨others, rfl, backCut⟩ := jointCut.longest_cons solid
  rw [List.append_eq, rest] at backCut
  have parted : Parted back := (parted_of_gaps behind).tail
  obtain rfl := (backCut.of_blanks soundSecond.blank).unique (parted.cut soundBack)
  simp

end Setting

end CompactSql
