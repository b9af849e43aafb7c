import CompactSql.Proofs.Printing.Statement

/-!
# Characters of a written text

Between the tokens of a text that is written for a tree stand single spaces alone.
Any other blank in it stands inside a string, and the strings are those of the text
that was read.
-/

namespace CompactSql

open Token (Kind isWordChar)
open Token.Lexeme

namespace Token.Kind

theorem Written.solid {kind : Kind} (h : kind.Written) :
    (∃ raw, kind = .string raw) ∨
      ∀ c ∈ kind.spelling.toList, Text.isBlank c = false := by
  cases kind with
  | string raw => exact .inl ⟨raw, rfl⟩
  | eof | fault => cases h
  | integer value =>
      obtain ⟨n, digits, -, -⟩ := toList_toString h
      refine .inr fun c inside => ?_
      rw [spelling, digits] at inside
      have digit := Nat.isDigit_of_mem_toDigits (by decide) (by decide) inside
      exact isBlank_of_isWordChar (isWordChar_of_isDigit digit)
  | identifier name =>
      obtain ⟨first, rest, text, start, inside, -⟩ := h
      refine .inr ?_
      rw [spelling, text, List.forall_mem_cons]
      exact ⟨isBlank_of_isWordChar (isWordChar_of_isWordStart start),
        fun c mem => isBlank_of_isWordChar (inside c mem)⟩
  | keyword word =>
      have letters : word.text.toList.all isWordChar = true := by cases word <;> rfl
      exact .inr fun c mem => isBlank_of_isWordChar (List.all_eq_true.mp letters c mem)
  | _ => exact .inr (by simp [spelling, Text.isBlank])

private theorem Written.blank_inside {kind : Kind} (h : kind.Written) {c : Char}
    (blank : Text.isBlank c = true) (inside : c ∈ kind.spelling.toList) :
    ∃ raw, kind = .string raw ∧ c ∈ raw.toList := by
  rcases h.solid with ⟨raw, rfl⟩ | solid
  · have quoted : c = '\'' ∨ c ∈ raw.toList ∨ c = '\'' := by
      simpa [spelling] using inside
    have noQuote : c ≠ '\'' := by
      rintro rfl
      cases blank
    exact ⟨raw, rfl, by simpa [noQuote] using quoted⟩
  · rw [solid c inside] at blank
    cases blank

private theorem Written.last_solid {kind : Kind} (h : kind.Written) {c : Char}
    (last : kind.spelling.toList.getLast? = some c) : Text.isBlank c = false := by
  rcases h.solid with ⟨raw, rfl⟩ | solid
  · have closing : (string raw).spelling.toList.getLast? = some '\'' := by
      rw [spelling, String.toList_append, List.getLast?_append]
      rfl
    rw [closing] at last
    cases last
    rfl
  · exact solid c (List.mem_of_getLast? last)

end Token.Kind

namespace Typeset

variable {text : List Char} {row : List Kind} {c : Char}

theorem mem (h : Typeset text row) (inside : c ∈ text) :
    c = ' ' ∨ ∃ kind ∈ row, c ∈ kind.spelling.toList := by
  induction h with
  | nil => cases inside
  | kind kind _ ih =>
      rcases List.mem_append.mp inside with inside | later
      · exact .inr ⟨kind, List.mem_cons_self, inside⟩
      · rcases ih later with space | ⟨other, member, inside⟩
        · exact .inl space
        · exact .inr ⟨other, List.mem_cons_of_mem _ member, inside⟩
  | space _ ih =>
      rcases List.mem_cons.mp inside with rfl | later
      · exact .inl rfl
      · exact ih later

theorem last (h : Typeset text row) (last : text.getLast? = some c) :
    c = ' ' ∨ ∃ kind ∈ row, kind.spelling.toList.getLast? = some c := by
  induction h with
  | nil => cases last
  | @kind kind text _ _ ih =>
      cases behind : text.getLast? with
      | none =>
          rw [List.getLast?_append, behind, Option.none_or] at last
          exact .inr ⟨kind, List.mem_cons_self, last⟩
      | some d =>
          rw [List.getLast?_append, behind, Option.some_or] at last
          cases last
          rcases ih behind with space | ⟨other, member, last⟩
          · exact .inl space
          · exact .inr ⟨other, List.mem_cons_of_mem _ member, last⟩
  | @space text _ _ ih =>
      cases behind : text.getLast? with
      | none =>
          rw [List.getLast?_cons, behind] at last
          cases last
          exact .inl rfl
      | some d =>
          rw [List.getLast?_cons, behind] at last
          cases last
          exact ih behind

theorem blank_inside (h : Typeset text row) (written : Writable row)
    (blank : Text.isBlank c = true) (inside : c ∈ text) :
    c = ' ' ∨ ∃ raw, .string raw ∈ row ∧ c ∈ raw.toList := by
  rcases h.mem inside with space | ⟨kind, member, inside⟩
  · exact .inl space
  · obtain ⟨raw, rfl, mem⟩ := (written kind member).blank_inside blank inside
    exact .inr ⟨raw, member, mem⟩

theorem blank_last (h : Typeset text row) (written : Writable row)
    (blank : Text.isBlank c = true) (last : text.getLast? = some c) : c = ' ' := by
  rcases h.last last with space | ⟨kind, member, last⟩
  · exact space
  · rw [(written kind member).last_solid last] at blank
    cases blank

end Typeset

private theorem Token.Lexeme.raw_subset {first : Char} {rest : List Char} {raw : String}
    (string : (longest first rest).kind = .string raw) : raw.toList ⊆ first :: rest := by
  obtain ⟨inner, after, -, rfl, close⟩ := quoted_of_string string
  rw [String.toList_ofList, Text.eq_append_of_close? close]
  exact fun c mem => List.mem_cons_of_mem _ (List.mem_append_left _ mem)

theorem Cut.raw_subset {text : List Char} {row : List Kind} {raw : String}
    (h : Cut text row) (member : .string raw ∈ row) : raw.toList ⊆ text := by
  induction h with
  | blank => cases member
  | @token text rest first row left sound _ ih =>
      have piece : first :: rest ⊆ text := by
        rw [← left]
        exact List.dropWhile_subset Text.isBlank
      rcases List.mem_cons.mp member with string | later
      · exact List.Subset.trans (Token.Lexeme.raw_subset string.symm) piece
      · obtain ⟨more, bounded⟩ := longest_bounded sound
        have behind : (longest first rest).rest ⊆ first :: rest := by
          intro c mem
          rw [bounded.split]
          exact List.mem_cons_of_mem _ (List.mem_append_right _ mem)
        calc
          raw.toList ⊆ (longest first rest).rest := ih later
          _ ⊆ first :: rest := behind
          _ ⊆ text := piece

end CompactSql
