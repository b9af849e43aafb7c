/-!
# Byte offsets

Spans count the bytes of a text in UTF-8.  `splitAtOffset?` cuts a text at a
byte offset and refuses an offset inside a character or past the end; `slice?`
cuts out a range by two such cuts.
-/

namespace CompactSql.Text

def byteLength (text : List Char) : Nat :=
  text.foldr (fun c length => c.utf8Size + length) 0

@[simp] theorem byteLength_nil : byteLength [] = 0 := rfl

@[simp] theorem byteLength_cons (c : Char) (text : List Char) :
    byteLength (c :: text) = c.utf8Size + byteLength text := rfl

@[simp] theorem byteLength_append (first second : List Char) :
    byteLength (first ++ second) = byteLength first + byteLength second := by
  induction first with
  | nil => simp
  | cons c first ih => simp [ih, Nat.add_assoc]

theorem eq_nil_of_byteLength {text : List Char} (h : byteLength text = 0) : text = [] := by
  cases text with
  | nil => rfl
  | cons c text =>
      have positive := c.utf8Size_pos
      rw [byteLength_cons] at h
      omega

theorem exists_append_of_byteLength_le {front back front' back' : List Char}
    (same : front ++ back = front' ++ back') (short : byteLength front ≤ byteLength front') :
    ∃ inner, front' = front ++ inner := by
  rcases List.append_eq_append_iff.mp same with ⟨inner, rfl, -⟩ | ⟨inner, rfl, -⟩
  · exact ⟨inner, rfl⟩
  · rw [byteLength_append] at short
    obtain rfl : inner = [] := eq_nil_of_byteLength (by omega)
    exact ⟨[], by simp⟩

def splitAtOffset? : List Char → Nat → Option (List Char × List Char)
  | text, 0 => some ([], text)
  | [], _ + 1 => none
  | c :: text, offset + 1 =>
      if c.utf8Size ≤ offset + 1 then
        (splitAtOffset? text (offset + 1 - c.utf8Size)).map
          fun (before, after) => (c :: before, after)
      else
        none

/-- Cuts `start..stop` out of a text, both ends on character boundaries. -/
def slice? (text : List Char) (start stop : Nat) : Option (List Char) :=
  if start ≤ stop then do
    let (_, after) ← splitAtOffset? text start
    let (piece, _) ← splitAtOffset? after (stop - start)
    return piece
  else
    none

theorem splitAtOffset?_append (before after : List Char) :
    splitAtOffset? (before ++ after) (byteLength before) =
      some (before, after) := by
  induction before with
  | nil => cases after <;> rfl
  | cons c before ih =>
      have positive := c.utf8Size_pos
      obtain ⟨width, hwidth⟩ : ∃ width, c.utf8Size = width + 1 :=
        ⟨c.utf8Size - 1, by omega⟩
      have split : byteLength (c :: before) = (width + byteLength before) + 1 := by
        simp [hwidth]; omega
      have remaining : width + byteLength before + 1 - (width + 1) =
          byteLength before := by omega
      simp only [List.cons_append, split, splitAtOffset?, hwidth, remaining, ih]
      simp

theorem slice?_of_append (before piece after : List Char) {text : List Char}
    {start stop : Nat} (whole : text = before ++ (piece ++ after))
    (hstart : start = byteLength before) (hstop : stop = byteLength before + byteLength piece) :
    slice? text start stop = some piece := by
  subst whole hstart hstop
  simp [slice?, splitAtOffset?_append]

end CompactSql.Text
