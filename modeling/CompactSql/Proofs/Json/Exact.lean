import CompactSql.Proofs.Json.Reader
import Mathlib.Data.List.TakeWhile

/-!
# What the reader accepts

Whatever the reader takes off the front of a text stands for the value that it gives.  With what
it is known to read, it reads the texts that stand for a value and no others.
-/

namespace CompactSql.Json

theorem skip_split (text : List Char) : ∃ gap, Gap gap ∧ text = gap ++ skip text :=
  ⟨text.takeWhile isSpace, fun _ => List.mem_takeWhile_imp, List.takeWhile_append_dropWhile.symm⟩

/-- What the reader takes off the front of a text is one of the texts of the value. -/
def Accepts {α : Type} (read : List Char → Option (α × List Char))
    (texts : α → List Char → Prop) : Prop :=
  ∀ text value rest, read text = some (value, rest) →
    ∃ own, texts value own ∧ text = own ++ rest

private theorem isUnit_of_unit? {text rest : List Char} {unit : Nat}
    (h : unit? text = some (unit, rest)) :
    ∃ digits, IsUnit digits unit ∧ text = digits ++ rest := by
  match text, h with
  | a :: b :: c :: d :: rest', h =>
      simp only [unit?, Option.bind_eq_bind, Option.bind_eq_some_iff, Option.pure_def,
        Option.some.injEq, Prod.mk.injEq] at h
      obtain ⟨a', ha, b', hb, c', hc, d', hd, rfl, rfl⟩ := h
      exact ⟨[a, b, c, d], ⟨rfl, by simp [unit?, ha, hb, hc, hd]⟩, rfl⟩

theorem toNat_ofNat {code : Nat} (valid : code.isValidChar) : (Char.ofNat code).toNat = code := by
  rw [Char.ofNat, dif_pos valid]
  rfl

private theorem letter_of_pair {digits digits' : List Char} {high low : Nat}
    (first : IsUnit digits high)
    (second : IsUnit digits' low) (inHigh : 0xD800 ≤ high ∧ high < 0xDC00)
    (inLow : 0xDC00 ≤ low ∧ low < 0xE000) :
    Letter (Char.ofNat (0x10000 + (high - 0xD800) * 0x400 + (low - 0xDC00)))
      ('\\' :: 'u' :: digits ++ '\\' :: 'u' :: digits') := by
  have valid : (0x10000 + (high - 0xD800) * 0x400 + (low - 0xDC00)).isValidChar :=
    .inr (by omega)
  exact .pair first second inHigh.1 inHigh.2 inLow.1 inLow.2 (toNat_ofNat valid)

private theorem letter_of_readEscape? {text rest : List Char} {c : Char}
    (h : readEscape? text = some (c, rest)) :
    ∃ tail, Letter c ('\\' :: tail) ∧ text = tail ++ rest := by
  unfold readEscape? at h
  split at h
  · obtain ⟨⟨unit, after⟩, found, taken⟩ := Option.bind_eq_some_iff.mp h
    obtain ⟨digits, isUnit, rfl⟩ := isUnit_of_unit? found
    simp only at taken
    split at taken
    · next high =>
      split at taken
      · obtain ⟨⟨low, last⟩, found', paired⟩ := Option.bind_eq_some_iff.mp taken
        obtain ⟨digits', isUnit', rfl⟩ := isUnit_of_unit? found'
        simp only at paired
        split at paired
        · next second =>
          obtain ⟨rfl, rfl⟩ := Prod.mk.inj (Option.some.inj paired)
          exact ⟨'u' :: digits ++ '\\' :: 'u' :: digits',
            letter_of_pair isUnit isUnit' high second, by simp⟩
        · cases paired
      · cases taken
    · split at taken
      · next valid =>
        cases taken
        exact ⟨'u' :: digits, .unit (by rwa [toNat_ofNat valid]), rfl⟩
      · cases taken
  · next name after _ =>
    obtain ⟨found, named, same⟩ := Option.map_eq_some_iff.mp h
    cases same
    exact ⟨[name], .short named, rfl⟩
  · cases h

private theorem letters_of_readLetters? {size : Nat} {text rest chars : List Char}
    (h : readLetters? size text = some (chars, rest)) :
    ∃ inner, Letters chars inner ∧ text = inner ++ '"' :: rest := by
  -- on the bound of the reader, which takes one letter after another
  induction size generalizing text chars with
  | zero => cases h
  | succ size ih =>
      cases text with
      | nil => cases h
      | cons c text =>
          rw [readLetters?] at h
          split at h
          · next quote =>
            cases h
            exact ⟨[], .nil, by rw [quote, List.nil_append]⟩
          · next noQuote =>
            split at h
            · next escape =>
              obtain ⟨⟨c', after⟩, found, taken⟩ := Option.bind_eq_some_iff.mp h
              obtain ⟨⟨chars', last⟩, others, same⟩ := Option.bind_eq_some_iff.mp taken
              cases same
              obtain ⟨tail, letter, rfl⟩ := letter_of_readEscape? found
              obtain ⟨inner, letters, rfl⟩ := ih others
              exact ⟨_, .cons letter letters, by simp [escape]⟩
            · next noEscape =>
              split at h
              · next printable =>
                obtain ⟨⟨chars', last⟩, others, same⟩ := Option.bind_eq_some_iff.mp h
                cases same
                obtain ⟨inner, letters, rfl⟩ := ih others
                exact ⟨_, .cons (.plain printable noQuote noEscape) letters, rfl⟩
              · cases h

theorem quoted_of_readString? {text rest : List Char} {string : String}
    (h : readString? text = some (string, rest)) :
    ∃ own, Quoted string ('"' :: own) ∧ text = own ++ rest := by
  obtain ⟨⟨chars, after⟩, found, same⟩ := Option.map_eq_some_iff.mp h
  cases same
  obtain ⟨inner, letters, rfl⟩ := letters_of_readLetters? found
  exact ⟨inner ++ ['"'], ⟨inner, by rwa [String.toList_ofList], rfl⟩, by simp⟩

private theorem digits_of_readDigits? {text rest : List Char} {number : Nat}
    (h : readDigits? text = some (number, rest)) :
    ∃ digits, Digits digits ∧ number = Nat.ofDigitChars 10 digits 0 ∧ text = digits ++ rest := by
  unfold readDigits? at h
  simp only at h
  split at h
  · cases h
  · next digits =>
    cases h
    rw [not_or, not_and, not_not] at digits
    exact ⟨_, ⟨digits.1, fun _ => List.mem_takeWhile_imp, digits.2⟩, rfl,
      List.takeWhile_append_dropWhile.symm⟩

private theorem numeral_of_readNumeral? :
    Accepts readNumeral? fun number text => Numeral text number := by
  intro text number rest h
  cases text with
  | nil => cases h
  | cons c text =>
      rw [readNumeral?] at h
      split at h
      · next sign =>
        obtain ⟨⟨found, after⟩, read, same⟩ := Option.map_eq_some_iff.mp h
        cases same
        obtain ⟨digits, isDigits, rfl, rfl⟩ := digits_of_readDigits? read
        exact ⟨_, .negative isDigits, by rw [sign, List.cons_append]⟩
      · obtain ⟨⟨found, after⟩, read, same⟩ := Option.map_eq_some_iff.mp h
        cases same
        obtain ⟨digits, isDigits, rfl, split⟩ := digits_of_readDigits? read
        exact ⟨digits, .plain isDigits, split⟩

private theorem isText_of_readInteger? : Accepts readInteger? IsText := by
  intro text json rest h
  obtain ⟨⟨number, after⟩, found, taken⟩ := Option.bind_eq_some_iff.mp h
  simp only at taken
  split at taken
  · next fits =>
    cases taken
    obtain ⟨own, numeral, split⟩ := numeral_of_readNumeral? _ _ _ found
    exact ⟨own, by rwa [IsText, fits], split⟩
  · cases taken

section Rows

variable {α : Type} {read : List Char → Option (α × List Char)} {texts : α → List Char → Prop}
  {close : Char}

private theorem more_of_readMore? (accepts : Accepts read texts) {size : Nat}
    {text rest : List Char}
    {values : List α} (h : readMore? read close size text = some (values, rest)) :
    ∃ own, More close (values.map texts) own ∧ text = own ++ rest := by
  induction size generalizing text values with
  | zero => cases h
  | succ size ih =>
      obtain ⟨gap, blank, split⟩ := skip_split text
      rw [readMore?] at h
      cases left : skip text with
      | nil => simp [left] at h
      | cons c after =>
          rw [left] at h split
          simp only at h
          split at h
          · next closing =>
            cases h
            exact ⟨_, ⟨gap, blank, rfl⟩, by simp [split, closing]⟩
          · split at h
            · next comma =>
              obtain ⟨⟨first, behind⟩, found, taken⟩ := Option.bind_eq_some_iff.mp h
              obtain ⟨⟨others, last⟩, later, same⟩ := Option.bind_eq_some_iff.mp taken
              cases same
              obtain ⟨gap', blank', split'⟩ := skip_split after
              obtain ⟨own, part, begins⟩ := accepts _ _ _ found
              obtain ⟨tail, more, rfl⟩ := ih later
              refine ⟨_, ⟨gap, gap', own, tail, blank, blank', part, more, rfl⟩, ?_⟩
              rw [split, split', begins, comma]
              simp
            · cases h

private theorem bracketed_of_readRow? (accepts : Accepts read texts) (opening : Char)
    {text rest : List Char} {values : List α} (h : readRow? read close text = some (values, rest)) :
    ∃ own, Bracketed opening close (values.map texts) (opening :: own) ∧ text = own ++ rest := by
  obtain ⟨gap, blank, split⟩ := skip_split text
  rw [readRow?] at h
  cases left : skip text with
  | nil => simp [left] at h
  | cons c after =>
      rw [left] at h split
      simp only at h
      split at h
      · next closing =>
        cases h
        exact ⟨_, ⟨gap, blank, rfl⟩, by simp [split, closing]⟩
      · obtain ⟨⟨first, behind⟩, found, taken⟩ := Option.bind_eq_some_iff.mp h
        obtain ⟨⟨others, last⟩, later, same⟩ := Option.bind_eq_some_iff.mp taken
        cases same
        obtain ⟨own, part, begins⟩ := accepts _ _ _ found
        obtain ⟨tail, more, rfl⟩ := more_of_readMore? accepts later
        exact ⟨_, ⟨gap, own, tail, blank, part, more, rfl⟩, by simp [split, begins]⟩

private theorem member_of_readMember? (accepts : Accepts read texts) :
    Accepts (readMember? read) fun member => Member member.1 (texts member.2) := by
  intro text member rest h
  unfold readMember? at h
  split at h
  · obtain ⟨⟨name, after⟩, found, taken⟩ := Option.bind_eq_some_iff.mp h
    obtain ⟨key, quoted, rfl⟩ := quoted_of_readString? found
    obtain ⟨gap, blank, split⟩ := skip_split after
    simp only at taken
    split at taken
    · next behind colon =>
      obtain ⟨⟨value, last⟩, read, same⟩ := Option.bind_eq_some_iff.mp taken
      cases same
      obtain ⟨gap', blank', split'⟩ := skip_split behind
      obtain ⟨own, part, begins⟩ := accepts _ _ _ read
      refine ⟨_, ⟨_, gap, gap', own, quoted, blank, blank', part, rfl⟩, ?_⟩
      rw [split, colon, split', begins]
      simp
    · cases taken
  · cases h

end Rows

private theorem itemTexts_eq (items : List Json) : itemTexts items = items.map IsText := by
  induction items with
  | nil => rfl
  | cons item others ih => rw [itemTexts, ih, List.map_cons]

private theorem memberTexts_eq (members : List (String × Json)) :
    memberTexts members = members.map fun member => Member member.1 member.2.IsText := by
  induction members with
  | nil => rfl
  | cons member others ih => rw [memberTexts, ih, List.map_cons]

theorem isText_of_readValue? (depth : Nat) : Accepts (readValue? depth) IsText := by
  intro text json rest h
  induction depth using Nat.strongRecOn generalizing text json rest with
  | ind depth ih =>
      revert h
      fun_cases readValue? depth text <;> intro h
      case case1 => cases h
      case case2 | case3 | case4 =>
        cases h
        exact ⟨_, rfl, rfl⟩
      case case5 behind =>
        obtain ⟨⟨string, after⟩, found, same⟩ := Option.map_eq_some_iff.mp h
        cases same
        obtain ⟨own, quoted, rfl⟩ := quoted_of_readString? found
        exact ⟨_, quoted, rfl⟩
      case case6 depth behind =>
        obtain ⟨⟨items, after⟩, found, same⟩ := Option.map_eq_some_iff.mp h
        cases same
        have inner : Accepts (readValue? depth) IsText := ih depth (Nat.lt_succ_self depth)
        obtain ⟨own, row, rfl⟩ := bracketed_of_readRow? inner '[' found
        exact ⟨_, by rwa [IsText, itemTexts_eq], rfl⟩
      case case7 depth behind =>
        obtain ⟨⟨members, after⟩, found, same⟩ := Option.map_eq_some_iff.mp h
        cases same
        have inner : Accepts (readValue? depth) IsText := ih depth (Nat.lt_succ_self depth)
        obtain ⟨own, row, rfl⟩ := bracketed_of_readRow? (member_of_readMember? inner) '\x7b' found
        exact ⟨_, by rwa [IsText, memberTexts_eq], rfl⟩
      case case8 => exact isText_of_readInteger? _ _ _ h

/-- The reader reads the texts that stand for a value, each as that value. -/
theorem read?_eq_some {text : String} {json : Json} :
    read? text = some json ↔ Document text json := by
  refine ⟨fun h => ?_, Document.reads⟩
  obtain ⟨⟨found, rest⟩, read, taken⟩ := Option.bind_eq_some_iff.mp h
  simp only at taken
  split at taken
  · next ended =>
    cases taken
    obtain ⟨gap, blank, split⟩ := skip_split text.toList
    obtain ⟨own, isText, begins⟩ := isText_of_readValue? _ _ _ _ read
    obtain ⟨gap', blank', split'⟩ := skip_split rest
    rw [ended, List.append_nil] at split'
    exact ⟨gap, own, rest, blank, isText, split' ▸ blank', by rw [split, begins]⟩
  · cases taken

end CompactSql.Json
