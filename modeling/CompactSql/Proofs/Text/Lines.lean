import CompactSql.Diagnostic

/-!
# Lines and what ends them

A text is a number of lines that are ended by line feeds and then a line that is not
ended.  How it is split follows from one equation for a line in front of a line feed;
a line that was ended loses the carriage return it may have before the feed.
-/

namespace CompactSql

namespace Text

/-- A line without the carriage return that belongs to its ending. -/
def chomp (line : List Char) : List Char :=
  if line.getLast? = some '\r' then line.dropLast else line

theorem chomp_cons {c : Char} {line : List Char} (h : c ≠ '\r' ∨ line ≠ []) :
    chomp (c :: line) = c :: chomp line := by
  cases line with
  | nil =>
      have other : c ≠ '\r' := h.resolve_right fun empty => empty rfl
      simp [chomp, other]
  | cons d line => simp [chomp, apply_ite (c :: ·)]

theorem chomp_split (line : List Char) :
    ∃ ending, line = chomp line ++ ending ∧ (ending = [] ∨ ending = ['\r']) := by
  unfold chomp
  split
  · next last =>
      obtain ⟨front, rfl⟩ := List.getLast?_eq_some_iff.mp last
      exact ⟨['\r'], by simp, .inr rfl⟩
  · exact ⟨[], by simp, .inl rfl⟩

theorem chomp_append (front : List Char) {line : List Char} (nonempty : line ≠ []) :
    chomp (front ++ line) = front ++ chomp line := by
  induction front with
  | nil => rfl
  | cons c front ih =>
      rw [List.cons_append, chomp_cons (.inr (by simp [nonempty])), ih, List.cons_append]

theorem chomp_eq {line : List Char} (h : line.getLast? ≠ some '\r') : chomp line = line :=
  if_neg h

theorem chomp_subset (line : List Char) : ∀ c ∈ chomp line, c ∈ line := by
  obtain ⟨ending, split, -⟩ := chomp_split line
  intro c member
  rw [split]
  exact List.mem_append_left _ member

theorem lines_append_feed {line : List Char} (h : '\n' ∉ line) (rest : List Char) :
    lines (line ++ '\n' :: rest) = chomp line :: lines rest := by
  induction line with
  | nil => rfl
  | cons c line ih =>
      rw [List.mem_cons, not_or] at h
      by_cases ending : c = '\r' ∧ line = []
      · obtain ⟨rfl, rfl⟩ := ending
        rfl
      · have other : c ≠ '\r' ∨ line ≠ [] := Decidable.not_and_iff_not_or_not.mp ending
        rw [List.cons_append, lines, ih h.2, chomp_cons other]
        · rintro more rfl split
          rcases other with other | other
          · exact other rfl
          · obtain ⟨d, line, rfl⟩ := List.exists_cons_of_ne_nil other
            obtain ⟨rfl, -⟩ := List.cons.inj split
            exact h.2 List.mem_cons_self
        · exact fun eq => h.1 eq.symm

theorem lines_of_noFeed {line : List Char} (h : '\n' ∉ line) (nonempty : line ≠ []) :
    lines line = [line] := by
  induction line with
  | nil => exact absurd rfl nonempty
  | cons c line ih =>
      rw [List.mem_cons, not_or] at h
      have split : lines line = [] ∧ line = [] ∨ lines line = [line] := by
        cases line with
        | nil => exact .inl ⟨rfl, rfl⟩
        | cons d line => exact .inr (ih h.2 (List.cons_ne_nil _ _))
      rw [lines]
      · rcases split with ⟨none, rfl⟩ | one
        · rw [none]
        · rw [one]
      · rintro more rfl rfl
        exact h.2 List.mem_cons_self
      · exact fun eq => h.1 eq.symm

theorem lineAt_append_feed {line : List Char} (h : '\n' ∉ line) (rest : List Char) :
    lineAt (line ++ '\n' :: rest) 1 = chomp line := by
  rw [lineAt, lines_append_feed h]
  rfl

theorem lineAt_of_noFeed {line : List Char} (h : '\n' ∉ line) : lineAt line 1 = line := by
  by_cases empty : line = []
  · rw [empty]
    rfl
  · rw [lineAt, lines_of_noFeed h empty]
    rfl

theorem lines_induction {motive : List Char → Prop} (nil : motive [])
    (last : ∀ line, '\n' ∉ line → line ≠ [] → motive line)
    (row : ∀ line rest, '\n' ∉ line → motive rest → motive (line ++ '\n' :: rest))
    (text : List Char) : motive text := by
  induction size : text.length using Nat.strongRecOn generalizing text with
  | ind size ih =>
      subst size
      by_cases feed : '\n' ∈ text
      · obtain ⟨line, rest, rfl, first⟩ := List.eq_append_cons_of_mem feed
        exact row line rest first (ih rest.length (by simp; omega) rest rfl)
      · by_cases empty : text = []
        · exact empty ▸ nil
        · exact last text feed empty

/-- The text is empty, or its last line is ended. -/
def EndsLine (text : List Char) : Prop := text = [] ∨ text.getLast? = some '\n'

theorem EndsLine.of_append {front back : List Char} (h : EndsLine (front ++ back))
    (nonempty : back ≠ []) : EndsLine back := by
  right
  rcases h with empty | last
  · exact absurd (List.append_eq_nil_iff.mp empty).2 nonempty
  · obtain ⟨c, final⟩ := List.getLast?_isSome.mpr nonempty |> Option.isSome_iff_exists.mp
    rw [List.getLast?_append, final] at last
    exact final.trans last

theorem EndsLine.cons {rest : List Char} (h : EndsLine rest) (line : List Char) :
    EndsLine (line ++ '\n' :: rest) := by
  right
  rcases h with rfl | last
  · simp
  · simp [List.getLast?_append, List.getLast?_cons, last]

theorem EndsLine.induction {motive : (text : List Char) → EndsLine text → Prop}
    (nil : motive [] (.inl rfl))
    (row : ∀ line rest (ends : EndsLine rest), '\n' ∉ line → motive rest ends →
      motive (line ++ '\n' :: rest) (ends.cons line))
    {text : List Char} (h : EndsLine text) : motive text h := by
  induction text using lines_induction with
  | nil => exact nil
  | last line noFeed nonempty =>
      rcases h with empty | last
      · exact absurd empty nonempty
      · exact absurd (List.mem_of_getLast? last) noFeed
  | row line before noFeed ih =>
      have ends : EndsLine before := by
        by_cases empty : before = []
        · exact .inl empty
        · rw [List.append_cons] at h
          exact h.of_append empty
      exact row line before ends noFeed (ih ends)

theorem EndsLine.lines_append {before : List Char} (h : EndsLine before) (rest : List Char) :
    lines (before ++ rest) = lines before ++ lines rest := by
  induction h using EndsLine.induction with
  | nil => rfl
  | row line before _ noFeed ih =>
      rw [List.append_assoc, List.cons_append, lines_append_feed noFeed, ih,
        lines_append_feed noFeed, List.cons_append]

theorem EndsLine.length_lines {text : List Char} (h : EndsLine text) :
    (lines text).length = text.count '\n' := by
  induction h using EndsLine.induction with
  | nil => rfl
  | row line rest _ noFeed ih =>
      simp [lines_append_feed noFeed, ih, List.count_eq_zero_of_not_mem noFeed]

theorem EndsLine.lineAt {before : List Char} (h : EndsLine before) (rest : List Char)
    {number : Nat} (positive : 0 < number) :
    lineAt (before ++ rest) (before.count '\n' + number) = CompactSql.lineAt rest number := by
  have shifted : before.count '\n' + number - 1 = (lines before).length + (number - 1) := by
    rw [h.length_lines]
    omega
  simp [CompactSql.lineAt, h.lines_append, shifted, List.getElem?_append_right]

theorem exists_endsLine (text : List Char) :
    ∃ before tail, text = before ++ tail ∧ EndsLine before ∧ '\n' ∉ tail := by
  induction text using lines_induction with
  | nil => exact ⟨[], [], rfl, .inl rfl, List.not_mem_nil⟩
  | last line noFeed => exact ⟨[], line, rfl, .inl rfl, noFeed⟩
  | row line rest noFeed ih =>
      obtain ⟨before, tail, rfl, ends, noFeed'⟩ := ih
      exact ⟨line ++ '\n' :: before, tail, by simp, ends.cons line, noFeed'⟩

end Text

end CompactSql
