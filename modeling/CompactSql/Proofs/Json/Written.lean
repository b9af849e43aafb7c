import CompactSql.Proofs.Json.Grammar

/-!
# Written JSON

What is written for a value is a text that stands for it, with white space where a text may
have it.
-/

namespace CompactSql.Json

private theorem hex?_digitChar {digit : Nat} (h : digit < 16) :
    hex? (Nat.digitChar digit) = some digit := by
  have all : ∀ digit < 16, hex? (Nat.digitChar digit) = some digit := by decide
  exact all digit h

private theorem letter_escapeChar (c : Char) : Letter c (escapeChar c) := by
  unfold escapeChar
  split
  iterate 7 exact .short rfl
  next noQuote noEscape _ _ _ _ _ =>
  split
  · next control =>
      have high := hex?_digitChar (show c.toNat / 16 < 16 by omega)
      have low := hex?_digitChar (show c.toNat % 16 < 16 by omega)
      have zero : hex? '0' = some 0 := rfl
      refine .unit ⟨rfl, ?_⟩
      simp only [unit?, zero, high, low, Option.bind_eq_bind, Option.bind_some, Option.pure_def]
      congr 2
      omega
  · next printable => exact .plain (Nat.le_of_not_lt printable) noQuote noEscape

private theorem letters_escaped (chars : List Char) : Letters chars (chars.flatMap escapeChar) := by
  induction chars with
  | nil => exact .nil
  | cons c chars ih => exact .cons (letter_escapeChar c) ih

theorem quoted_quote (string : String) : Quoted string (quote string).toList :=
  ⟨_, letters_escaped string.toList, String.toList_ofList⟩

private theorem digits_toDigits (n : Nat) : Digits (Nat.toDigits 10 n) := by
  refine ⟨Nat.toDigits_ne_nil, fun c => Nat.isDigit_of_mem_toDigits (by decide) (by decide), ?_⟩
  induction n using Nat.strongRecOn with
  | ind n ih =>
      intro zero
      by_cases small : n < 10
      · rw [Nat.toDigits_of_lt_base small] at zero ⊢
        exact congrArg (· :: []) (Option.some.inj zero)
      · -- the first digit is that of a shorter number, which is not zero
        have split : Nat.toDigits 10 n = Nat.toDigits 10 (n / 10) ++ [(n % 10).digitChar] := by
          rw [Nat.toDigits_eq_if (by decide), if_neg small]
        have first : (Nat.toDigits 10 (n / 10)).head? = some '0' := by
          rw [split] at zero
          cases shorter : Nat.toDigits 10 (n / 10) with
          | nil => exact absurd shorter Nat.toDigits_ne_nil
          | cons c more => simpa [shorter] using zero
        have value : Nat.ofDigitChars 10 (Nat.toDigits 10 (n / 10)) 0 = n / 10 :=
          Nat.ofDigitChars_ten_toDigits
        rw [ih (n / 10) (by omega) first] at value
        have : n / 10 = 0 := value.symm
        omega

private theorem numeral_toString (number : Int) : Numeral (toString number).toList number := by
  rcases Int.lt_or_le number 0 with negative | plain
  · obtain ⟨n, eq⟩ := Int.eq_ofNat_of_zero_le (show 0 ≤ -number by omega)
    obtain rfl : number = -(n : Int) := by omega
    have positive : n ≠ 0 := by omega
    have numeral := Numeral.negative (digits_toDigits n)
    rw [Nat.ofDigitChars_ten_toDigits] at numeral
    simpa [Int.toString_eq_repr, Int.repr_eq_if, positive] using numeral
  · obtain ⟨n, rfl⟩ := Int.eq_ofNat_of_zero_le plain
    have numeral := Numeral.plain (digits_toDigits n)
    rw [Nat.ofDigitChars_ten_toDigits] at numeral
    simpa [Int.toString_eq_repr, Int.repr_eq_if] using numeral

theorem gap_newLine (depth : Nat) : Gap (newLine depth).toList := by
  simp only [newLine, String.toList_append, String.toList_ofList]
  intro c member
  rcases List.mem_append.mp member with feed | spaces
  · obtain rfl : c = '\n' := by simpa using feed
    rfl
  · obtain rfl := List.eq_of_mem_replicate spaces
    rfl

theorem member_written {name value : String} {part : List Char → Prop} (h : part value.toList) :
    Member name part (quote name ++ ": " ++ value).toList := by
  refine ⟨_, [], [' '], _, quoted_quote name, .nil, ?_, h, by simp⟩
  simp [Gap, isSpace]

mutual

theorem isText_writeAt (json : Json) (depth : Nat) : json.IsText (json.writeAt depth).toList := by
  cases json with
  | null => simp [IsText, writeAt]
  | bool value => cases value <;> simp [IsText, writeAt]
  | integer value => exact numeral_toString value.toInt
  | string text => exact quoted_quote text
  | array items =>
      cases items with
      | nil => exact ⟨[], .nil, by simp [writeAt]⟩
      | cons item others =>
          refine ⟨_, _, _, gap_newLine (depth + 1), isText_writeAt item (depth + 1),
            more_writeItems others (depth + 1) depth, ?_⟩
          simp [writeAt, String.append_assoc]
  | object members =>
      cases members with
      | nil => exact ⟨[], .nil, by simp [writeAt]⟩
      | cons member others =>
          obtain ⟨name, value⟩ := member
          refine ⟨_, _, _, gap_newLine (depth + 1),
            member_written (isText_writeAt value (depth + 1)),
            more_writeMembers others (depth + 1) depth, ?_⟩
          simp [writeAt, String.append_assoc]

theorem more_writeItems (items : List Json) (depth outer : Nat) :
    More ']' (itemTexts items) (writeItems depth items ++ newLine outer ++ "]").toList := by
  cases items with
  | nil => exact ⟨_, gap_newLine outer, by simp [writeItems]⟩
  | cons item others =>
      refine ⟨[], _, _, _, .nil, gap_newLine depth, isText_writeAt item depth,
        more_writeItems others depth outer, ?_⟩
      simp [writeItems, String.append_assoc]

theorem more_writeMembers (members : List (String × Json)) (depth outer : Nat) :
    More '\x7d' (memberTexts members)
      (writeMembers depth members ++ newLine outer ++ "\x7d").toList := by
  cases members with
  | nil => exact ⟨_, gap_newLine outer, by simp [writeMembers]⟩
  | cons member others =>
      obtain ⟨name, value⟩ := member
      refine ⟨[], _, _, _, .nil, gap_newLine depth, member_written (isText_writeAt value depth),
        more_writeMembers others depth outer, ?_⟩
      simp [writeMembers, String.append_assoc]

end

/-- What is written for a value is a document that stands for it. -/
theorem document_write (json : Json) : Document json.write json :=
  ⟨[], _, [], .nil, isText_writeAt json 0, .nil, by simp [write]⟩

end CompactSql.Json
