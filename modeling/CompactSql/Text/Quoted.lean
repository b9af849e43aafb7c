/-!
# Quoted strings

A quoted string stands between single quotes, and a quote inside it is written
twice.  `quote` writes one, `close?` finds where one ends and keeps its raw
text, and `collapse` reads the doubled quotes of a raw text back.
-/

namespace CompactSql.Text

def double : List Char → List Char
  | [] => []
  | c :: text => if c = '\'' then '\'' :: '\'' :: double text else c :: double text

/-- Reads each pair of quotes, from the left, as one; a quote without a partner
stays. -/
def collapse : List Char → List Char
  | [] => []
  | '\'' :: '\'' :: text => '\'' :: collapse text
  | c :: text => c :: collapse text

/-- Splits the text after an opening quote at its closing quote: the first quote
that no other quote follows, pairs apart. -/
def close? : List Char → Option (List Char × List Char)
  | [] => none
  | '\'' :: '\'' :: text =>
      (close? text).map fun (raw, rest) => ('\'' :: '\'' :: raw, rest)
  | '\'' :: text => some ([], text)
  | c :: text => (close? text).map fun (raw, rest) => (c :: raw, rest)

def quote (text : List Char) : List Char :=
  '\'' :: double text ++ ['\'']

theorem collapse_double (text : List Char) : collapse (double text) = text := by
  induction text with
  | nil => rfl
  | cons c text ih =>
      by_cases hquote : c = '\''
      · simp [double, collapse, hquote, ih]
      · rw [double, if_neg hquote, collapse, ih]
        intro _ hpair
        exact absurd hpair hquote

theorem eq_append_of_close? {text raw rest : List Char}
    (h : close? text = some (raw, rest)) : text = raw ++ '\'' :: rest := by
  fun_induction close? text generalizing raw rest with
  | case1 => simp at h
  | case2 text ih =>
      obtain ⟨⟨inner, after⟩, hclose, heq⟩ := Option.map_eq_some_iff.mp h
      cases heq
      simp [ih hclose]
  | case3 text _ =>
      cases h
      rfl
  | case4 c text _ _ ih =>
      obtain ⟨⟨inner, after⟩, hclose, heq⟩ := Option.map_eq_some_iff.mp h
      cases heq
      simp [ih hclose]

end CompactSql.Text
