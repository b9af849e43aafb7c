import CompactSql.Proofs.Json.Grammar
import Mathlib.Data.List.Forall2

/-!
# Reading JSON

A reader takes a value off the front of a text.  It reads every text that stands for a value as
that value, so a text stands for one value at most.
-/

namespace CompactSql.Json

def skip (text : List Char) : List Char := text.dropWhile isSpace

def readEscape? : List Char → Option (Char × List Char)
  | 'u' :: rest => do
      let (unit, rest) ← unit? rest
      if 0xD800 ≤ unit ∧ unit < 0xDC00 then
        match rest with
        | '\\' :: 'u' :: rest => do
            let (low, rest) ← unit? rest
            if 0xDC00 ≤ low ∧ low < 0xE000 then
              return (Char.ofNat (0x10000 + (unit - 0xD800) * 0x400 + (low - 0xDC00)), rest)
            else none
        | _ => none
      else if unit.isValidChar then return (Char.ofNat unit, rest)
      else none
  | name :: rest => (short? name).map (·, rest)
  | [] => none

/-- Reads up to the closing quote, and no more than so many characters. -/
def readLetters? : Nat → List Char → Option (List Char × List Char)
  | 0, _ => none
  | _, [] => none
  | size + 1, c :: rest =>
      if c = '"' then some ([], rest)
      else if c = '\\' then do
        let (c, rest) ← readEscape? rest
        let (chars, rest) ← readLetters? size rest
        return (c :: chars, rest)
      else if 0x20 ≤ c.toNat then do
        let (chars, rest) ← readLetters? size rest
        return (c :: chars, rest)
      else none

def readString? (text : List Char) : Option (String × List Char) :=
  (readLetters? (text.length + 1) text).map fun (chars, rest) => (String.ofList chars, rest)

def readDigits? (text : List Char) : Option (Nat × List Char) :=
  let digits := text.takeWhile Char.isDigit
  if digits = [] ∨ (digits.head? = some '0' ∧ digits ≠ ['0']) then none
  else some (Nat.ofDigitChars 10 digits 0, text.dropWhile Char.isDigit)

def readNumeral? : List Char → Option (Int × List Char)
  | [] => none
  | c :: rest =>
      if c = '-' then (readDigits? rest).map fun (number, rest) => (-number, rest)
      else (readDigits? (c :: rest)).map fun (number, rest) => ((number : Int), rest)

def readInteger? (text : List Char) : Option (Json × List Char) := do
  let (number, rest) ← readNumeral? text
  if (Int64.ofInt number).toInt = number then return (integer (Int64.ofInt number), rest)
  else none

section Rows

variable {α : Type} (read : List Char → Option (α × List Char)) (close : Char)

def readMore? : Nat → List Char → Option (List α × List Char)
  | 0, _ => none
  | size + 1, text =>
      match skip text with
      | [] => none
      | c :: rest =>
          if c = close then some ([], rest)
          else if c = ',' then do
            let (first, rest) ← read (skip rest)
            let (others, rest) ← readMore? size rest
            return (first :: others, rest)
          else none

def readRow? (text : List Char) : Option (List α × List Char) :=
  match skip text with
  | [] => none
  | c :: rest =>
      if c = close then some ([], rest)
      else do
        let (first, rest) ← read (c :: rest)
        let (others, rest) ← readMore? read close rest.length rest
        return (first :: others, rest)

end Rows

def readMember? {α : Type} (read : List Char → Option (α × List Char)) :
    List Char → Option ((String × α) × List Char)
  | '"' :: rest => do
      let (name, rest) ← readString? rest
      match skip rest with
      | ':' :: rest => do
          let (value, rest) ← read (skip rest)
          return ((name, value), rest)
      | _ => none
  | _ => none

/-- Reads a value that is nested no deeper than this. -/
def readValue? : Nat → List Char → Option (Json × List Char)
  | 0, _ => none
  | _ + 1, 'n' :: 'u' :: 'l' :: 'l' :: rest => some (null, rest)
  | _ + 1, 't' :: 'r' :: 'u' :: 'e' :: rest => some (bool true, rest)
  | _ + 1, 'f' :: 'a' :: 'l' :: 's' :: 'e' :: rest => some (bool false, rest)
  | _ + 1, '"' :: rest => (readString? rest).map fun (text, rest) => (string text, rest)
  | depth + 1, '[' :: rest =>
      (readRow? (readValue? depth) ']' rest).map fun (items, rest) => (array items, rest)
  | depth + 1, '\x7b' :: rest =>
      (readRow? (readMember? (readValue? depth)) '\x7d' rest).map fun (members, rest) =>
        (object members, rest)
  | _ + 1, text => readInteger? text

/-- The value of a whole text. -/
def read? (text : String) : Option Json := do
  let (json, rest) ← readValue? text.toList.length (skip text.toList)
  if skip rest = [] then return json else none

/-! ## Strings -/

theorem IsUnit.append {digits : List Char} {unit : Nat} (h : IsUnit digits unit)
    (rest : List Char) : unit? (digits ++ rest) = some (unit, rest) := by
  obtain ⟨length, value⟩ := h
  match digits, length with
  | [a, b, c, d], _ =>
      simp only [unit?, Option.bind_eq_bind, Option.bind_eq_some_iff, Option.pure_def,
        Option.some.injEq, Prod.mk.injEq, and_true] at value
      obtain ⟨a', ha, b', hb, c', hc, d', hd, rfl⟩ := value
      simp [unit?, ha, hb, hc, hd]

private theorem toNat_not_surrogate (c : Char) : ¬ (0xD800 ≤ c.toNat ∧ c.toNat < 0xE000) := by
  have valid : c.toNat < 0xD800 ∨ (0xDFFF < c.toNat ∧ c.toNat < 0x110000) := c.valid
  omega

theorem Letter.reads {c : Char} {piece : List Char} (h : Letter c piece) :
    (piece = [c] ∧ 0x20 ≤ c.toNat ∧ c ≠ '"' ∧ c ≠ '\\') ∨
      ∃ tail, piece = '\\' :: tail ∧ ∀ rest, readEscape? (tail ++ rest) = some (c, rest) := by
  cases h with
  | plain printable noQuote noEscape => exact .inl ⟨rfl, printable, noQuote, noEscape⟩
  | @short name named =>
      refine .inr ⟨[name], rfl, fun rest => ?_⟩
      rw [List.singleton_append, readEscape?, named]
      · rfl
      · rintro rfl
        cases named
  | @unit digits unit =>
      refine .inr ⟨'u' :: digits, rfl, fun rest => ?_⟩
      have single := toNat_not_surrogate c
      have lone : ¬ (0xD800 ≤ c.toNat ∧ c.toNat < 0xDC00) := by omega
      have valid : c.toNat.isValidChar := c.valid
      simp [readEscape?, unit.append, lone, valid]
  | @pair digits digits' high low first second least less least' less' code =>
      refine .inr ⟨'u' :: digits ++ '\\' :: 'u' :: digits', rfl, fun rest => ?_⟩
      rw [List.cons_append, List.cons_append, List.append_assoc, readEscape?, first.append]
      simp [second.append, least, less, least', less', ← code]

theorem Letters.reads {chars inner : List Char} (h : Letters chars inner) {size : Nat}
    (rest : List Char) (short : inner.length < size) :
    readLetters? size (inner ++ '"' :: rest) = some (chars, rest) := by
  induction h generalizing size with
  | nil =>
      obtain ⟨size, rfl⟩ := Nat.exists_eq_succ_of_ne_zero (Nat.ne_of_gt short)
      simp [readLetters?]
  | @cons c chars piece text letter _ ih =>
      obtain ⟨size, rfl⟩ := Nat.exists_eq_succ_of_ne_zero (Nat.ne_zero_of_lt short)
      rw [List.length_append] at short
      rcases letter.reads with ⟨rfl, printable, noQuote, noEscape⟩ | ⟨tail, rfl, escape⟩
      · have later := @ih size (by simp only [List.length_singleton] at short; omega)
        simp [readLetters?, printable, noQuote, noEscape, later]
      · have later := @ih size (by simp only [List.length_cons] at short; omega)
        simp [readLetters?, escape, later]

theorem Quoted.reads {string : String} {text : List Char} (h : Quoted string text) :
    ∃ tail, text = '"' :: tail ∧ ∀ rest, readString? (tail ++ rest) = some (string, rest) := by
  obtain ⟨inner, letters, rfl⟩ := h
  refine ⟨inner ++ ['"'], rfl, fun rest => ?_⟩
  have short : inner.length < (inner ++ '"' :: rest).length + 1 := by
    rw [List.length_append]
    omega
  rw [List.append_assoc, List.singleton_append, readString?, letters.reads rest short]
  simp

theorem Digits.reads {digits rest : List Char} (h : Digits digits)
    (stops : Stops Char.isDigit rest) :
    readDigits? (digits ++ rest) = some (Nat.ofDigitChars 10 digits 0, rest) := by
  obtain ⟨taken, left⟩ := stops.run h.digit
  simp only [readDigits?, taken, left]
  refine if_neg ?_
  rintro (empty | ⟨zero, more⟩)
  · exact h.nonempty empty
  · exact more (h.leading zero)

theorem Digits.begins {digits : List Char} (h : Digits digits) :
    ∃ first more, digits = first :: more ∧ first.isDigit = true := by
  obtain ⟨first, more, rfl⟩ := List.exists_cons_of_ne_nil h.nonempty
  exact ⟨first, more, rfl, h.digit first List.mem_cons_self⟩

theorem Numeral.reads {text rest : List Char} {number : Int} (h : Numeral text number)
    (stops : Stops Char.isDigit rest) : readNumeral? (text ++ rest) = some (number, rest) := by
  cases h with
  | plain digits =>
      obtain ⟨first, more, rfl, digit⟩ := digits.begins
      have unsigned : first ≠ '-' := by
        rintro rfl
        cases digit
      have read := digits.reads stops
      rw [List.cons_append] at read ⊢
      simp [readNumeral?, unsigned, read]
  | negative digits => simp [readNumeral?, digits.reads stops]

private theorem Numeral.readInteger {text rest : List Char} {value : Int64}
    (h : Numeral text value.toInt) (stops : Stops Char.isDigit rest) :
    readInteger? (text ++ rest) = some (integer value, rest) := by
  simp [readInteger?, h.reads stops]

/-! ## Rows -/

/-- The reader takes each text of the part that is no longer than this off the front of what
follows it. -/
def Reads {α : Type} (read : List Char → Option (α × List Char)) (bound : Nat)
    (part : List Char → Prop) (value : α) : Prop :=
  ∀ own rest, own.length ≤ bound → part own → Stops Char.isDigit rest →
    read (own ++ rest) = some (value, rest)

def Solid (part : List Char → Prop) : Prop :=
  ∀ own, part own → ∃ first more, own = first :: more ∧ isSpace first = false ∧
    first ∉ [',', ']', '\x7d']

theorem skip_gap {gap rest : List Char} (h : Gap gap) (stops : Stops isSpace rest) :
    skip (gap ++ rest) = rest := (stops.run h).2

theorem stops_digit_of_gap {gap rest : List Char} (h : Gap gap)
    (stops : Stops Char.isDigit rest) : Stops Char.isDigit (gap ++ rest) := by
  cases gap with
  | nil => exact stops
  | cons c gap =>
      refine Stops.cons.mpr (Bool.eq_false_iff.mpr fun digit => ?_)
      have space := h c List.mem_cons_self
      simp only [isSpace, Bool.or_eq_true, beq_iff_eq] at space
      rcases space with ((rfl | rfl) | rfl) | rfl <;> cases digit

section Rows

private theorem Bracketed.begins {opening close : Char} {parts : List (List Char → Prop)}
    {text : List Char} (h : Bracketed opening close parts text) :
    ∃ more, text = opening :: more := by
  cases parts with
  | nil =>
      obtain ⟨gap, -, rfl⟩ := h
      exact ⟨_, rfl⟩
  | cons part others =>
      obtain ⟨gap, own, rest, -, -, -, rfl⟩ := h
      exact ⟨_, rfl⟩

variable {α : Type} {read : List Char → Option (α × List Char)} {close : Char} {bound : Nat}
  {parts : List (List Char → Prop)} {values : List α} {text rest : List Char}

theorem More.length_lt (h : More close parts text) : parts.length < text.length := by
  -- each part has a comma before it, and the bracket is one more character
  induction parts generalizing text with
  | nil =>
      obtain ⟨gap, -, rfl⟩ := h
      simp
  | cons part others ih =>
      obtain ⟨gap, gap', own, more, -, -, -, later, rfl⟩ := h
      have := ih later
      simp only [List.length_cons, List.length_append]
      omega

theorem More.stops (h : More close parts text) (noDigit : close.isDigit = false) :
    Stops Char.isDigit (text ++ rest) := by
  cases parts with
  | nil =>
      obtain ⟨gap, blank, rfl⟩ := h
      rw [List.append_assoc]
      exact stops_digit_of_gap blank (Stops.cons.mpr noDigit)
  | cons part others =>
      obtain ⟨gap, gap', own, more, blank, -, -, -, rfl⟩ := h
      rw [List.append_assoc]
      exact stops_digit_of_gap blank (Stops.cons.mpr rfl)

private theorem readMore?_close {size : Nat} (h : skip text = close :: rest) :
    readMore? read close (size + 1) text = some ([], rest) := by
  simp [readMore?, h]

private theorem readMore?_comma {size : Nat} {next after last : List Char} {value : α}
    (other : close ≠ ',') (h : skip text = ',' :: next)
    (first : read (skip next) = some (value, after))
    (others : readMore? read close size after = some (values, last)) :
    readMore? read close (size + 1) text = some (value :: values, last) := by
  simp [readMore?, h, other.symm, first, others]

private theorem readRow?_close (h : skip text = close :: rest) :
    readRow? read close text = some ([], rest) := by
  simp [readRow?, h]

private theorem readRow?_first {c : Char} {next after last : List Char} {value : α}
    (other : c ≠ close) (h : skip text = c :: next) (first : read (c :: next) = some (value, after))
    (others : readMore? read close after.length after = some (values, last)) :
    readRow? read close text = some (value :: values, last) := by
  simp [readRow?, h, other, first, others]

def Closes (close : Char) : Prop := close = ']' ∨ close = '\x7d'

theorem Closes.plain (h : Closes close) :
    isSpace close = false ∧ close.isDigit = false ∧ close ≠ ',' := by
  rcases h with rfl | rfl <;> decide

theorem More.reads (closes : Closes close) (each : List.Forall₂ (Reads read bound) parts values)
    (solid : ∀ part ∈ parts, Solid part) (h : More close parts text)
    (short : text.length ≤ bound) {size : Nat} (enough : parts.length < size) (rest : List Char) :
    readMore? read close size (text ++ rest) = some (values, rest) := by
  obtain ⟨noSpace, noDigit, noComma⟩ := closes.plain
  obtain ⟨size, rfl⟩ := Nat.exists_eq_succ_of_ne_zero (Nat.ne_zero_of_lt enough)
  induction each generalizing text size with
  | nil =>
      obtain ⟨gap, blank, rfl⟩ := h
      rw [List.append_assoc]
      exact readMore?_close (skip_gap blank (Stops.cons.mpr noSpace))
  | @cons part value others values reads _ ih =>
      obtain ⟨gap, gap', own, more, blank, blank', own', later, rfl⟩ := h
      rw [List.forall_mem_cons] at solid
      obtain ⟨first, tail, rfl, begins, -⟩ := solid.1 own own'
      simp only [List.length_append, List.length_cons] at short enough
      obtain ⟨size, rfl⟩ := Nat.exists_eq_succ_of_ne_zero
        (Nat.ne_zero_of_lt (Nat.lt_of_succ_lt_succ enough))
      have comma : skip (gap ++ ',' :: (gap' ++ (first :: tail ++ more)) ++ rest) =
          ',' :: (gap' ++ (first :: tail ++ (more ++ rest))) := by
        rw [List.append_assoc, skip_gap blank]
        · simp
        · exact Stops.cons.mpr rfl
      refine readMore?_comma noComma comma ?_ (ih solid.2 later (by omega) size (by omega))
      have skipped : skip (gap' ++ (first :: tail ++ (more ++ rest))) =
          first :: tail ++ (more ++ rest) := skip_gap blank' (Stops.cons.mpr begins)
      rw [skipped]
      exact reads _ _ (by simp only [List.length_cons]; omega) own' (later.stops noDigit)

theorem Bracketed.reads {opening : Char} (closes : Closes close)
    (each : List.Forall₂ (Reads read bound) parts values) (solid : ∀ part ∈ parts, Solid part)
    (h : Bracketed opening close parts text) (short : text.length ≤ bound + 1) :
    ∃ tail, text = opening :: tail ∧
      ∀ rest, readRow? read close (tail ++ rest) = some (values, rest) := by
  obtain ⟨noSpace, noDigit, noComma⟩ := closes.plain
  cases each with
  | nil =>
      obtain ⟨gap, blank, rfl⟩ := h
      refine ⟨_, rfl, fun rest => ?_⟩
      rw [List.append_assoc]
      exact readRow?_close (skip_gap blank (Stops.cons.mpr noSpace))
  | @cons part value others values reads later =>
      obtain ⟨gap, own, more, blank, own', more', rfl⟩ := h
      rw [List.forall_mem_cons] at solid
      obtain ⟨first, tail, rfl, begins, apart⟩ := solid.1 own own'
      simp only [List.length_append, List.length_cons] at short
      refine ⟨_, rfl, fun rest => ?_⟩
      have skipped : skip (gap ++ (first :: tail ++ more) ++ rest) =
          first :: (tail ++ (more ++ rest)) := by
        rw [List.append_assoc, skip_gap blank]
        · simp
        · exact Stops.cons.mpr begins
      -- no value begins with a closing bracket, so the row is not empty
      have other : first ≠ close := by
        rintro rfl
        rcases closes with rfl | rfl <;> simp at apart
      refine readRow?_first other skipped
        (reads (first :: tail) _ (by simp only [List.length_cons]; omega) own'
          (more'.stops noDigit))
        (more'.reads closes later solid.2 (by omega) ?_ rest)
      have := more'.length_lt
      rw [List.length_append]
      omega

end Rows

/-! ## Values -/

private theorem solid_member {name : String} {value : List Char → Prop} :
    Solid (Member name value) := by
  rintro _ ⟨key, gap, gap', own, quoted, -, -, -, rfl⟩
  obtain ⟨tail, rfl, -⟩ := quoted.reads
  exact ⟨'"', _, rfl, rfl, by decide⟩

private theorem Digits.solid {digits : List Char} (h : Digits digits) :
    ∃ first more, digits = first :: more ∧ isSpace first = false ∧ first ∉ [',', ']', '\x7d'] := by
  obtain ⟨first, more, rfl, digit⟩ := h.begins
  refine ⟨first, more, rfl, Bool.eq_false_iff.mpr fun space => ?_, fun member => ?_⟩
  · simp only [isSpace, Bool.or_eq_true, beq_iff_eq] at space
    rcases space with ((rfl | rfl) | rfl) | rfl <;> cases digit
  · simp only [List.mem_cons, List.not_mem_nil, or_false] at member
    rcases member with rfl | rfl | rfl <;> cases digit

theorem solid_isText (json : Json) : Solid json.IsText := by
  intro own h
  cases json with
  | null => exact ⟨_, _, h, rfl, by decide⟩
  | bool value => cases value <;> exact ⟨_, _, h, rfl, by decide⟩
  | integer value =>
      have numeral : Numeral own value.toInt := h
      generalize value.toInt = number at numeral
      cases numeral with
      | plain digits => exact digits.solid
      | negative digits => exact ⟨_, _, rfl, rfl, by decide⟩
  | string text =>
      obtain ⟨tail, rfl, -⟩ := Quoted.reads h
      exact ⟨_, _, rfl, rfl, by decide⟩
  | array items =>
      obtain ⟨more, rfl⟩ := Bracketed.begins h
      exact ⟨_, _, rfl, rfl, by decide⟩
  | object members =>
      obtain ⟨more, rfl⟩ := Bracketed.begins h
      exact ⟨_, _, rfl, rfl, by decide⟩

private theorem solid_itemTexts (items : List Json) : ∀ part ∈ itemTexts items, Solid part := by
  induction items with
  | nil => simp [itemTexts]
  | cons item others ih => exact List.forall_mem_cons.mpr ⟨solid_isText item, ih⟩

private theorem solid_memberTexts (members : List (String × Json)) :
    ∀ part ∈ memberTexts members, Solid part := by
  induction members with
  | nil => simp [memberTexts]
  | cons member others ih => exact List.forall_mem_cons.mpr ⟨solid_member, ih⟩

private theorem readValue?_integer {text rest : List Char} {value : Int64} (depth : Nat)
    (h : Numeral text value.toInt) (stops : Stops Char.isDigit rest) :
    readValue? (depth + 1) (text ++ rest) = some (integer value, rest) := by
  -- a digit and a sign begin none of the other values
  have read := h.readInteger stops
  obtain ⟨first, more, rfl, begins⟩ : ∃ first more, text = first :: more ∧
      (first.isDigit = true ∨ first = '-') := by
    generalize value.toInt = number at h
    cases h with
    | plain digits =>
        obtain ⟨first, more, rfl, digit⟩ := digits.begins
        exact ⟨first, more, rfl, .inl digit⟩
    | negative digits => exact ⟨_, _, rfl, .inr rfl⟩
  have other {c : Char} (noDigit : c.isDigit = false) (noSign : c ≠ '-') : first ≠ c := by
    rintro rfl
    rcases begins with digit | sign
    · rw [noDigit] at digit
      cases digit
    · exact noSign sign
  rw [List.cons_append] at read ⊢
  rw [readValue?, read]
  all_goals
    intro rest split
    exact other (by decide) (by decide) (List.cons.inj split).1

theorem Member.reads {read : List Char → Option (Json × List Char)} {bound : Nat} {name : String}
    {part : List Char → Prop} {value : Json} (h : Reads read bound part value)
    (solid : Solid part) : Reads (readMember? read) bound (Member name part) (name, value) := by
  rintro _ rest short ⟨key, gap, gap', own, quoted, blank, blank', own', rfl⟩ stops
  obtain ⟨tail, rfl, key⟩ := quoted.reads
  obtain ⟨first, more, rfl, begins, -⟩ := solid own own'
  simp only [List.length_append, List.length_cons] at short
  have value := h (first :: more) rest (by simp only [List.length_cons]; omega) own' stops
  have colon : skip (gap ++ ':' :: (gap' ++ first :: more) ++ rest) =
      ':' :: (gap' ++ (first :: more ++ rest)) := by
    rw [List.append_assoc, skip_gap blank]
    · simp
    · exact Stops.cons.mpr rfl
  have skipped : skip (gap' ++ (first :: more ++ rest)) = first :: more ++ rest :=
    skip_gap blank' (Stops.cons.mpr begins)
  rw [List.append_assoc, List.cons_append, readMember?, key]
  simp only [Option.bind_eq_bind, Option.bind_some, colon, skipped, value, Option.pure_def]

mutual

theorem readValue?_reads (json : Json) (depth : Nat) :
    Reads (readValue? depth) depth json.IsText json := by
  intro own rest short h stops
  obtain ⟨first, more, rfl, -⟩ := solid_isText json own h
  obtain ⟨depth, rfl⟩ := Nat.exists_eq_succ_of_ne_zero
    (Nat.ne_zero_of_lt (Nat.lt_of_lt_of_le (Nat.succ_pos more.length) short))
  cases json with
  | null =>
      cases h
      rfl
  | bool value =>
      cases value <;> (cases h; rfl)
  | integer value => exact readValue?_integer depth h stops
  | string text =>
      obtain ⟨tail, split, read⟩ := Quoted.reads h
      cases split
      simp [readValue?, read]
  | array items =>
      obtain ⟨tail, split, read⟩ := Bracketed.reads (.inl rfl) (itemTexts_read items depth)
        (solid_itemTexts items) h short
      cases split
      simp [readValue?, read]
  | object members =>
      obtain ⟨tail, split, read⟩ := Bracketed.reads (.inr rfl) (memberTexts_read members depth)
        (solid_memberTexts members) h short
      cases split
      simp [readValue?, read]

theorem itemTexts_read (items : List Json) (depth : Nat) :
    List.Forall₂ (Reads (readValue? depth) depth) (itemTexts items) items := by
  cases items with
  | nil => exact .nil
  | cons item others =>
      exact .cons (readValue?_reads item depth) (itemTexts_read others depth)

theorem memberTexts_read (members : List (String × Json)) (depth : Nat) :
    List.Forall₂ (Reads (readMember? (readValue? depth)) depth) (memberTexts members) members := by
  cases members with
  | nil => exact .nil
  | cons member others =>
      obtain ⟨name, value⟩ := member
      exact .cons (Member.reads (readValue?_reads value depth) (solid_isText value))
        (memberTexts_read others depth)

end

/-- The reader reads every text that stands for a value. -/
theorem Document.reads {text : String} {json : Json} (h : Document text json) :
    read? text = some json := by
  obtain ⟨gap, own, gap', blank, own', blank', split⟩ := h
  obtain ⟨first, more, rfl, begins, -⟩ := solid_isText json own own'
  have stops : Stops Char.isDigit (gap' ++ []) := stops_digit_of_gap blank' rfl
  have skipped : skip text.toList = first :: more ++ gap' := by
    rw [split]
    exact skip_gap blank (Stops.cons.mpr begins)
  have ended : skip (gap' ++ []) = [] := skip_gap blank' rfl
  have short : (first :: more).length ≤ text.toList.length := by
    rw [split, List.length_append, List.length_append]
    omega
  rw [List.append_nil] at stops ended
  have read := readValue?_reads json text.toList.length (first :: more) gap' short own' stops
  rw [List.cons_append] at skipped read
  simp [read?, skipped, read, ended]

theorem Document.unique {text : String} {json json' : Json} (h : Document text json)
    (h' : Document text json') : json = json' :=
  Option.some.inj (h.reads.symm.trans h'.reads)

end CompactSql.Json
