import CompactSql.Proofs.Batch.Composition
import CompactSql.Proofs.Token.Partition
import Mathlib.Data.Finset.Card

/-!
# What lines and chunks cover

A line of a text is told by where it stands: behind whole lines, with no line feed inside,
and up to what ends it.  The split into lines gives these lines in order, and a batch of lines
has a chunk for each of them that the lexer finds a token on.
-/

namespace CompactSql

namespace Text

/-- What ends a line that says this: a carriage return and a line feed, a line feed alone, or
the end of the text if the line is not empty. -/
inductive Ending (content : List Char) : List Char → List Char → Prop
  | crlf (after : List Char) : Ending content ['\r', '\n'] after
  | feed (after : List Char) : content.getLast? ≠ some '\r' → Ending content ['\n'] after
  | last : content ≠ [] → Ending content [] []

/-- A line of the text: the whole lines before it, what it says, and what is left from its
ending on. -/
structure IsLine (text before content : List Char) : Prop where
  starts : EndsLine before
  noFeed : '\n' ∉ content
  split : ∃ ending after, text = before ++ (content ++ (ending ++ after)) ∧
    Ending content ending after

variable {text before content : List Char}

theorem chomp_return (content : List Char) : chomp (content ++ ['\r']) = content := by
  simp [chomp]

private theorem head?_lines {ending after : List Char} (noFeed : '\n' ∉ content)
    (ended : Ending content ending after) :
    (lines (content ++ (ending ++ after))).head? = some content := by
  cases ended with
  | crlf =>
      have feedless : '\n' ∉ content ++ ['\r'] := by simp [noFeed]
      have split := lines_append_feed feedless after
      rw [List.append_assoc, chomp_return] at split
      exact congrArg List.head? split
  | feed _ noReturn =>
      have split := lines_append_feed noFeed after
      rw [chomp_eq noReturn] at split
      exact congrArg List.head? split
  | last nonempty => simp [lines_of_noFeed noFeed nonempty]

theorem ending_of_chomp (line after : List Char) :
    ∃ ending, line ++ '\n' :: after = chomp line ++ (ending ++ after) ∧
      Ending (chomp line) ending after := by
  by_cases last : line.getLast? = some '\r'
  · obtain ⟨front, rfl⟩ := List.getLast?_eq_some_iff.mp last
    rw [chomp_return]
    exact ⟨['\r', '\n'], by simp, .crlf after⟩
  · rw [chomp_eq last]
    exact ⟨['\n'], rfl, .feed after last⟩

theorem getElem?_lines_iff {index : Nat} : (lines text)[index]? = some content ↔
    ∃ before, IsLine text before content ∧ before.count '\n' = index := by
  constructor
  · intro found
    -- line by line; the ending of a line is what `chomp` takes off it
    induction text using lines_induction generalizing index with
    | nil => cases found
    | last line noFeed nonempty =>
        rw [lines_of_noFeed noFeed nonempty, List.getElem?_singleton] at found
        split at found
        · next first =>
            cases found
            exact ⟨[], ⟨.inl rfl, noFeed, [], [], by simp, .last nonempty⟩, first.symm⟩
        · cases found
    | row line rest noFeed ih =>
        rw [lines_append_feed noFeed] at found
        cases index with
        | zero =>
            cases found
            obtain ⟨ending, split, ended⟩ := ending_of_chomp line rest
            exact ⟨[], ⟨.inl rfl, fun feed => noFeed (chomp_subset line _ feed), ending, rest,
              split, ended⟩, rfl⟩
        | succ index =>
            obtain ⟨before, ⟨starts, inner, ending, after, rfl, ended⟩, rfl⟩ := ih found
            refine ⟨line ++ '\n' :: before,
              ⟨starts.cons line, inner, ending, after, by simp, ended⟩, ?_⟩
            simp [List.count_eq_zero_of_not_mem noFeed]
  · rintro ⟨before, ⟨starts, noFeed, ending, after, rfl, ended⟩, rfl⟩
    rw [starts.lines_append, ← starts.length_lines, List.getElem?_append_right (Nat.le_refl _),
      Nat.sub_self, ← List.head?_eq_getElem?, head?_lines noFeed ended]

theorem EndsLine.unique {start start' inside inside' : List Char} (ends : EndsLine start)
    (ends' : EndsLine start') (noFeed : '\n' ∉ inside) (noFeed' : '\n' ∉ inside')
    (same : start ++ inside = start' ++ inside') : start = start' := by
  have shorter {front back tail : List Char} (ends : EndsLine (front ++ back))
      (noFeed : '\n' ∉ back ++ tail) : back = [] := by
    by_contra nonempty
    have last := (ends.of_append nonempty).resolve_left nonempty
    exact noFeed (List.mem_append_left _ (List.mem_of_getLast? last))
  rcases List.append_eq_append_iff.mp same with ⟨back, rfl, rfl⟩ | ⟨back, rfl, rfl⟩
  · rw [shorter ends' noFeed, List.append_nil]
  · rw [shorter ends noFeed', List.append_nil]

private theorem exists_isLine {after : List Char} {c : Char} (place : text = before ++ c :: after)
    (noFeed : c ≠ '\n') (noReturn : c ≠ '\r') :
    ∃ start inside behind, before = start ++ inside ∧
      IsLine text start (inside ++ c :: behind) := by
  obtain ⟨start, inside, rfl, starts, feedless⟩ := exists_endsLine before
  by_cases feed : '\n' ∈ after
  · obtain ⟨front, rest, rfl, first⟩ := List.eq_append_cons_of_mem feed
    have kept : chomp (inside ++ c :: front) = inside ++ c :: chomp front := by
      rw [chomp_append _ (List.cons_ne_nil _ _), chomp_cons (.inl noReturn)]
    obtain ⟨ending, split, ended⟩ := ending_of_chomp (inside ++ c :: front) rest
    have inner : '\n' ∉ inside ++ c :: chomp front := by
      have later : '\n' ∉ chomp front := fun member => first (chomp_subset front _ member)
      simp [feedless, noFeed.symm, later]
    rw [kept] at split ended
    refine ⟨start, inside, chomp front, rfl, starts, inner, ending, rest, ?_, ended⟩
    rw [place, ← split]
    simp
  · refine ⟨start, inside, after, rfl, starts, ?_, [], [], by simp [place], .last (by simp)⟩
    simp [feedless, noFeed.symm, feed]

end Text

/-- The lexer gives nothing but the end token on the text. -/
def Lexer.Silent (content : List Char) : Prop :=
  ∀ n, ((ofText (String.ofList content)).call n).isEof = true

theorem Lexer.silent_iff {content : List Char} :
    Silent content ↔ Text.isBlankText content = true := by
  obtain ⟨tokens, -, tiled, calls⟩ := (ofText (String.ofList content)).stream_tiled
  simp only [ofText, String.toList_ofList] at tiled
  rw [Text.isBlankText, List.all_eq_true]
  constructor
  · intro silent
    have none : tokens = [] := by
      cases tokens with
      | nil => rfl
      | cons token others =>
          have first := silent 0
          rw [calls, List.getD_cons_zero, tiled.isEof_eq token List.mem_cons_self] at first
          cases first
    subst none
    cases tiled with
    | blank blank => exact blank
  · intro blank n
    have none : tokens = [] := by
      have solid := tiled.length_le
      rw [List.countP_eq_zero.mpr fun c member => by simp [blank c member]] at solid
      exact List.eq_nil_of_length_eq_zero (Nat.le_zero.mp solid)
    rw [calls, none]
    rfl

namespace Batch

open Text (EndsLine IsLine)
open Lexer (Silent)

/-! ## Chunks of lines -/

namespace Chunk

variable {chunk : Chunk} {number : Nat}

theorem mem_ofLines_iff {rows : List (List Char)} : chunk ∈ ofLines number rows ↔
    ∃ index line, rows[index]? = some line ∧ Text.isBlankText line = false ∧
      chunk = ⟨number + index, String.ofList line⟩ := by
  induction rows generalizing number with
  | nil => simp [ofLines]
  | cons row rows ih =>
      rw [mem_ofLines_cons, ih]
      constructor
      · rintro (⟨solid, rfl⟩ | ⟨index, line, found, solid, rfl⟩)
        · exact ⟨0, row, rfl, solid, rfl⟩
        · refine ⟨index + 1, line, found, solid, ?_⟩
          rw [Nat.add_assoc, Nat.add_comm 1]
      · rintro ⟨_ | index, line, found, solid, rfl⟩
        · cases found
          exact .inl ⟨solid, rfl⟩
        · refine .inr ⟨index, line, found, solid, ?_⟩
          rw [Nat.add_assoc, Nat.add_comm 1]

private theorem pairwise_ofLines (number : Nat) (rows : List (List Char)) :
    (ofLines number rows).Pairwise fun first second => first.line < second.line := by
  induction rows generalizing number with
  | nil => exact .nil
  | cons row rows ih =>
      rw [ofLines]
      split
      · exact ih _
      · refine .cons ?_ (ih _)
        intro chunk later
        obtain ⟨index, line, -, -, rfl⟩ := mem_ofLines_iff.mp later
        change number < number + 1 + index
        omega

theorem mem_ofText_iff {text : String} : chunk ∈ ofText true text ↔
    ∃ before content, IsLine text.toList before content ∧ ¬ Silent content ∧
      chunk = ⟨1 + before.count '\n', String.ofList content⟩ := by
  have chunks : ofText true text = ofLines 1 (Text.lines text.toList) := rfl
  rw [chunks, mem_ofLines_iff]
  simp only [Text.getElem?_lines_iff, Lexer.silent_iff, Bool.not_eq_true]
  constructor
  · rintro ⟨-, content, ⟨before, line, rfl⟩, solid, rfl⟩
    exact ⟨before, content, line, solid, rfl⟩
  · rintro ⟨before, content, line, solid, rfl⟩
    exact ⟨_, content, ⟨before, line, rfl⟩, solid, rfl⟩

private theorem stands_of_isLine {text start content : List Char} (h : IsLine text start content) :
    ∃ after, Stands ⟨1 + start.count '\n', String.ofList content⟩ text start after := by
  obtain ⟨ending, after, split, -⟩ := h.split
  refine ⟨ending ++ after, ?_, h.starts, rfl⟩
  rw [String.toList_ofList, split]

private theorem eq_of_line {text : String} {other : Chunk} (member : chunk ∈ ofText true text)
    (member' : other ∈ ofText true text) (same : chunk.line = other.line) : chunk = other := by
  obtain ⟨before, content, line, -, rfl⟩ := mem_ofText_iff.mp member
  obtain ⟨before', content', line', -, rfl⟩ := mem_ofText_iff.mp member'
  have counted : before.count '\n' = before'.count '\n' := Nat.add_left_cancel same
  have found := Text.getElem?_lines_iff.mpr ⟨before, line, counted⟩
  have found' := Text.getElem?_lines_iff.mpr ⟨before', line', rfl⟩
  rw [Option.some.inj (found.symm.trans found'), counted]

private theorem newline_notMem_ofText {text : String} (member : chunk ∈ ofText true text) :
    '\n' ∉ chunk.text.toList := by
  obtain ⟨before, content, line, -, rfl⟩ := mem_ofText_iff.mp member
  rw [String.toList_ofList]
  exact line.noFeed

def Holds (chunk : Chunk) (text before : List Char) (c : Char) : Prop :=
  ∃ start inside behind after, chunk.Stands text start after ∧ before = start ++ inside ∧
    chunk.text.toList = inside ++ c :: behind

private theorem existsUnique_holds {text : String} {before after : List Char} {c : Char}
    (place : text.toList = before ++ c :: after) (solid : Text.isBlank c = false) :
    ∃! chunk, chunk ∈ ofText true text ∧ chunk.Holds text.toList before c := by
  have noBlank {other : Char} (blank : Text.isBlank other = true) : c ≠ other := by
    rintro rfl
    rw [solid] at blank
    cases blank
  obtain ⟨start, inside, behind, rfl, line⟩ :=
    Text.exists_isLine place (noBlank rfl) (noBlank rfl)
  have spoken : ¬ Silent (inside ++ c :: behind) := by
    rw [Lexer.silent_iff]
    simp [Text.isBlankText, solid]
  have member := mem_ofText_iff.mpr ⟨start, _, line, spoken, rfl⟩
  obtain ⟨rest, stands⟩ := stands_of_isLine line
  refine ⟨_, ⟨member, start, inside, behind, rest, stands, rfl, String.toList_ofList⟩, ?_⟩
  rintro other ⟨member', start', inside', behind', rest', stands', same, inner⟩
  have feedless : '\n' ∉ inside := fun feed => line.noFeed (List.mem_append_left _ feed)
  have feedless' : '\n' ∉ inside' := fun feed =>
    newline_notMem_ofText member' (by rw [inner]; exact List.mem_append_left _ feed)
  obtain rfl : start = start' := line.starts.unique stands'.ends feedless feedless' same
  exact eq_of_line member' member stands'.line

end Chunk

/-- The chunks are the lines of the text that the lexer finds a token on, each where it stands
in the text, in order and with all that is no blank. -/
structure Coverage (text : String) (chunks : List Chunk) : Prop where
  ordered : chunks.Pairwise fun first second => first.line < second.line
  whole : ∀ chunk ∈ chunks, ∃ before, IsLine text.toList before chunk.text.toList ∧
    chunk.line = 1 + before.count '\n'
  covered : ∀ before c after, text.toList = before ++ c :: after → Text.isBlank c = false →
    ∃! chunk, chunk ∈ chunks ∧ chunk.Holds text.toList before c
  left : ∀ before content, IsLine text.toList before content →
    (⟨1 + before.count '\n', String.ofList content⟩ ∉ chunks ↔ Silent content)

theorem ofText_coverage (text : String) : Coverage text (Chunk.ofText true text) := by
  refine ⟨Chunk.pairwise_ofLines 1 _, ?_, fun _ _ _ => Chunk.existsUnique_holds, ?_⟩
  · intro chunk member
    obtain ⟨before, content, line, -, rfl⟩ := Chunk.mem_ofText_iff.mp member
    exact ⟨before, by rwa [String.toList_ofList], rfl⟩
  · intro before content line
    refine not_iff_comm.mp ⟨fun spoken => ?_, fun member => ?_⟩
    · exact Chunk.mem_ofText_iff.mpr ⟨before, content, line, spoken, rfl⟩
    · obtain ⟨before', content', line', spoken, same⟩ := Chunk.mem_ofText_iff.mp member
      obtain ⟨-, text⟩ := Chunk.mk.inj same
      rwa [String.ofList_injective text]

def IsSpoken (text : String) (number : Nat) : Prop :=
  ∃ before content, IsLine text.toList before content ∧ number = 1 + before.count '\n' ∧
    ∃ n, ((Lexer.ofText (String.ofList content)).call n).isEof = false

theorem exists_spoken (text : String) : ∃ numbers : Finset Nat,
    (∀ number, number ∈ numbers ↔ IsSpoken text number) ∧
      numbers.card = (Chunk.ofText true text).length := by
  have ordered := (ofText_coverage text).ordered
  refine ⟨((Chunk.ofText true text).map Chunk.line).toFinset, ?_, ?_⟩
  · intro number
    simp only [List.mem_toFinset, List.mem_map, Chunk.mem_ofText_iff, IsSpoken, Silent,
      Classical.not_forall, Bool.not_eq_true]
    constructor
    · rintro ⟨-, ⟨before, content, line, spoken, rfl⟩, rfl⟩
      exact ⟨before, content, line, rfl, spoken⟩
    · rintro ⟨before, content, line, rfl, spoken⟩
      exact ⟨_, ⟨before, content, line, spoken, rfl⟩, rfl⟩
  · have distinct : ((Chunk.ofText true text).map Chunk.line).Nodup :=
      List.pairwise_map.mpr (ordered.imp Nat.ne_of_lt)
    rw [List.toFinset_card_of_nodup distinct, List.length_map]

/-- Splitting a text into lines loses nothing but blanks and what ends the lines, and the
number of chunks that a run tells is the number of lines with a token. -/
theorem lines_cover (text : String) :
    Coverage text (Chunk.ofText true text) ∧
    ∃ numbers : Finset Nat, (∀ number, number ∈ numbers ↔ IsSpoken text number) ∧
      ∀ format tokens source content, Source.text content source = .ok text →
        ∃ failed, (run ⟨format, tokens, true⟩ source content).Counts failed numbers.card := by
  obtain ⟨numbers, spoken, card⟩ := exists_spoken text
  refine ⟨ofText_coverage text, numbers, spoken, ?_⟩
  intro format tokens source content readable
  rw [card]
  exact ⟨_, run_counts format tokens readable⟩

def unevenLines : String := "a\r\n\u3000\r\n\n\rb $\n' c"

theorem lines_cover_uneven :
    Coverage unevenLines [⟨1, "a"⟩, ⟨4, "\rb $"⟩, ⟨5, "' c"⟩] ∧
      (run ⟨.sql, false, true⟩ (.inline unevenLines) (.ok .empty)).Counts 3 3 := by
  have chunks : Chunk.ofText true unevenLines = [⟨1, "a"⟩, ⟨4, "\rb $"⟩, ⟨5, "' c"⟩] := by
    decide +kernel
  obtain ⟨coverage, numbers, -, counts⟩ := lines_cover unevenLines
  obtain ⟨failed, counts⟩ := counts .sql false (.inline unevenLines) (.ok .empty) rfl
  have told : (run ⟨.sql, false, true⟩ (.inline unevenLines) (.ok .empty)).effects.getLast? =
      some (.log (.checkedStatements 3 3)) := by decide +kernel
  have same := counts.summary.symm.trans told
  simp only [Option.some.injEq, Effect.log.injEq, Log.Event.checkedStatements.injEq] at same
  obtain ⟨total, rfl⟩ := same
  rw [total] at counts
  exact ⟨chunks ▸ coverage, counts⟩

end Batch

end CompactSql
