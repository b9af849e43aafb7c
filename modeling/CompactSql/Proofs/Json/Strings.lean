import CompactSql.Proofs.Json.Grammar

/-!
# Characters of strings

Where the strings of a text are is told by its quotes and backslashes alone.  In a text that
stands for a value all characters of the strings can be printed: those that cannot stand
outside of the strings or are escaped.
-/

namespace CompactSql.Json

mutual

/-- The characters of the strings in a text that begins outside of a string. -/
def outside : List Char → List Char
  | [] => []
  | '"' :: rest => inside rest
  | _ :: rest => outside rest

def inside : List Char → List Char
  | [] => []
  | '"' :: rest => outside rest
  | '\\' :: c :: rest => '\\' :: c :: inside rest
  | c :: rest => c :: inside rest

end

/-- No character of a string is a control character below the space. -/
def Printable (text : List Char) : Prop := ∀ c ∈ outside text, 0x20 ≤ c.toNat

def Keeps (text : List Char) : Prop := ∀ rest, Printable rest → Printable (text ++ rest)

namespace Keeps

theorem append {text text' : List Char} (h : Keeps text) (h' : Keeps text') :
    Keeps (text ++ text') := by
  intro rest printable
  rw [List.append_assoc]
  exact h _ (h' rest printable)

theorem cons {c : Char} {text : List Char} (plain : c ≠ '"') (h : Keeps text) :
    Keeps (c :: text) := by
  intro rest printable
  rw [List.cons_append, Printable, outside]
  · exact h rest printable
  · exact plain

theorem of_noQuote {text : List Char} (h : '"' ∉ text) : Keeps text := by
  induction text with
  | nil => exact fun _ printable => printable
  | cons c text ih =>
      rw [List.mem_cons, not_or] at h
      exact cons (Ne.symm h.1) (ih h.2)

theorem of_gap {gap : List Char} (h : Gap gap) : Keeps gap := by
  refine of_noQuote fun quote => ?_
  cases h '"' quote

end Keeps

def Inner (c : Char) : Prop := 0x20 ≤ c.toNat ∧ c ≠ '"' ∧ c ≠ '\\'

def Inward (piece : List Char) : Prop :=
  (∀ rest, inside (piece ++ rest) = piece ++ inside rest) ∧ ∀ c ∈ piece, 0x20 ≤ c.toNat

private theorem inner_of_hex {c : Char} {digit : Nat} (h : hex? c = some digit) : Inner c := by
  have code : 0x30 ≤ c.toNat ∧ c.toNat ≤ 0x66 ∧ c.toNat ≠ 0x5C := by
    unfold hex? at h
    split at h
    · next decimal =>
        rw [Token.Lexeme.isDigit_iff] at decimal
        omega
    · split at h
      · omega
      · split at h
        · omega
        · cases h
  refine ⟨by omega, ?_, ?_⟩
  · rintro rfl
    exact absurd code (by decide)
  · rintro rfl
    exact absurd code (by decide)

namespace Inward

theorem nil : Inward [] := ⟨fun _ => rfl, by simp⟩

theorem cons {c : Char} {piece : List Char} (inner : Inner c) (h : Inward piece) :
    Inward (c :: piece) := by
  obtain ⟨printable, noQuote, noEscape⟩ := inner
  refine ⟨fun rest => ?_, List.forall_mem_cons.mpr ⟨printable, h.2⟩⟩
  rw [List.cons_append, inside, h.1, List.cons_append]
  · exact noQuote
  · exact fun _ _ escape => absurd escape noEscape

theorem escape {c : Char} {piece : List Char} (printable : 0x20 ≤ c.toNat) (h : Inward piece) :
    Inward ('\\' :: c :: piece) := by
  refine ⟨fun rest => ?_, ?_⟩
  · rw [List.cons_append, List.cons_append, inside, h.1, List.cons_append, List.cons_append]
  · exact List.forall_mem_cons.mpr ⟨by decide, List.forall_mem_cons.mpr ⟨printable, h.2⟩⟩

theorem append {piece piece' : List Char} (h : Inward piece) (h' : Inward piece') :
    Inward (piece ++ piece') := by
  refine ⟨fun rest => ?_, List.forall_mem_append.mpr ⟨h.2, h'.2⟩⟩
  rw [List.append_assoc, h.1, h'.1, List.append_assoc]

private theorem of_unit {digits : List Char} {unit : Nat} (h : IsUnit digits unit) :
    Inward digits := by
  obtain ⟨length, value⟩ := h
  match digits, length with
  | [a, b, c, d], _ =>
      simp only [unit?, Option.bind_eq_bind, Option.bind_eq_some_iff] at value
      obtain ⟨_, ha, _, hb, _, hc, _, hd, -⟩ := value
      exact cons (inner_of_hex ha) (cons (inner_of_hex hb) (cons (inner_of_hex hc)
        (cons (inner_of_hex hd) nil)))

private theorem of_letter {c : Char} {piece : List Char} (h : Letter c piece) : Inward piece := by
  cases h with
  | plain printable noQuote noEscape => exact cons ⟨printable, noQuote, noEscape⟩ nil
  | @short name named =>
      refine escape ?_ nil
      unfold short? at named
      split at named <;> first | decide | cases named
  | unit unit => exact escape (by decide) (of_unit unit)
  | pair high low =>
      exact escape (by decide) ((of_unit high).append (escape (by decide) (of_unit low)))

private theorem of_letters {chars inner : List Char} (h : Letters chars inner) : Inward inner := by
  induction h with
  | nil => exact nil
  | cons letter _ ih => exact (of_letter letter).append ih

end Inward

theorem Keeps.of_quoted {string : String} {text : List Char} (h : Quoted string text) :
    Keeps text := by
  obtain ⟨inner, letters, rfl⟩ := h
  obtain ⟨inward, printable⟩ := Inward.of_letters letters
  intro rest later
  rw [List.cons_append, List.append_assoc, List.singleton_append, Printable, outside, inward,
    inside]
  exact List.forall_mem_append.mpr ⟨printable, later⟩

section Rows

variable {parts : List (List Char → Prop)} {opening close : Char} {text : List Char}

private theorem Keeps.of_more (each : ∀ part ∈ parts, ∀ own, part own → Keeps own)
    (plain : close ≠ '"')
    (h : More close parts text) : Keeps text := by
  induction parts generalizing text with
  | nil =>
      obtain ⟨gap, blank, rfl⟩ := h
      exact (of_gap blank).append (cons plain (of_noQuote List.not_mem_nil))
  | cons part others ih =>
      obtain ⟨gap, gap', own, rest, blank, blank', own', later, rfl⟩ := h
      rw [List.forall_mem_cons] at each
      exact (of_gap blank).append (cons (by decide) ((of_gap blank').append
        ((each.1 own own').append (ih each.2 later))))

private theorem Keeps.of_bracketed (each : ∀ part ∈ parts, ∀ own, part own → Keeps own)
    (plain : opening ≠ '"') (plain' : close ≠ '"') (h : Bracketed opening close parts text) :
    Keeps text := by
  cases parts with
  | nil =>
      obtain ⟨gap, blank, rfl⟩ := h
      exact cons plain ((of_gap blank).append (cons plain' (of_noQuote List.not_mem_nil)))
  | cons part others =>
      obtain ⟨gap, own, rest, blank, own', later, rfl⟩ := h
      rw [List.forall_mem_cons] at each
      exact cons plain ((of_gap blank).append ((each.1 own own').append
        (of_more each.2 plain' later)))

private theorem Keeps.of_member {name : String} {value : List Char → Prop}
    (each : ∀ own, value own → Keeps own) (h : Member name value text) : Keeps text := by
  obtain ⟨key, gap, gap', own, quoted, blank, blank', own', rfl⟩ := h
  exact (of_quoted quoted).append ((of_gap blank).append (cons (by decide)
    ((of_gap blank').append (each own own'))))

end Rows

private theorem Keeps.of_numeral {text : List Char} {number : Int} (h : Numeral text number) :
    Keeps text := by
  have plain {digits : List Char} (h : Digits digits) : '"' ∉ digits := by
    intro quote
    cases h.digit '"' quote
  cases h with
  | plain digits => exact of_noQuote (plain digits)
  | negative digits => exact cons (by decide) (of_noQuote (plain digits))

mutual

theorem keeps_isText (json : Json) (text : List Char) (h : json.IsText text) : Keeps text := by
  cases json with
  | null =>
      rw [IsText] at h
      exact .of_noQuote (by simp [h])
  | bool value =>
      cases value <;> (rw [IsText] at h; exact .of_noQuote (by simp [h]))
  | integer value => exact .of_numeral h
  | string string => exact .of_quoted h
  | array items => exact .of_bracketed (keeps_itemTexts items) (by decide) (by decide) h
  | object members => exact .of_bracketed (keeps_memberTexts members) (by decide) (by decide) h

theorem keeps_itemTexts (items : List Json) :
    ∀ part ∈ itemTexts items, ∀ own, part own → Keeps own := by
  cases items with
  | nil => simp [itemTexts]
  | cons item others =>
      exact List.forall_mem_cons.mpr ⟨keeps_isText item, keeps_itemTexts others⟩

theorem keeps_memberTexts (members : List (String × Json)) :
    ∀ part ∈ memberTexts members, ∀ own, part own → Keeps own := by
  cases members with
  | nil => simp [memberTexts]
  | cons member others =>
      obtain ⟨name, value⟩ := member
      exact List.forall_mem_cons.mpr
        ⟨fun _ own => .of_member (keeps_isText value) own, keeps_memberTexts others⟩

end

theorem Document.printable {text : String} {json : Json} (h : Document text json) :
    Printable text.toList := by
  obtain ⟨gap, own, gap', blank, own', blank', split⟩ := h
  have kept := (Keeps.of_gap blank).append ((keeps_isText json own own').append (.of_gap blank'))
  have printable := kept [] (by simp [Printable, outside])
  rwa [List.append_nil, ← split] at printable

end CompactSql.Json
