import CompactSql.Json
import CompactSql.Proofs.Token.Boundary

/-!
# JSON texts

Which texts stand for a JSON value.  Between the parts of a value may stand white space, a
character of a string may be spelled in more than one way, and no control character below the
space stands in a string for itself.  The numbers are whole and have 64 bits.
-/

namespace CompactSql.Json

def isSpace (c : Char) : Bool := c == ' ' || c == '\t' || c == '\n' || c == '\r'

def Gap (gap : List Char) : Prop := ∀ c ∈ gap, isSpace c = true

theorem Gap.nil : Gap [] := by simp [Gap]

/-- Digits without a leading zero, unless that is the only one. -/
structure Digits (digits : List Char) : Prop where
  nonempty : digits ≠ []
  digit : ∀ c ∈ digits, c.isDigit = true
  leading : digits.head? = some '0' → digits = ['0']

inductive Numeral : List Char → Int → Prop
  | plain {digits : List Char} : Digits digits →
      Numeral digits (Nat.ofDigitChars 10 digits 0)
  | negative {digits : List Char} : Digits digits →
      Numeral ('-' :: digits) (-Nat.ofDigitChars 10 digits 0)

def short? : Char → Option Char
  | '"' => some '"'
  | '\\' => some '\\'
  | '/' => some '/'
  | 'b' => some '\x08'
  | 'f' => some '\x0c'
  | 'n' => some '\n'
  | 'r' => some '\r'
  | 't' => some '\t'
  | _ => none

def hex? (c : Char) : Option Nat :=
  if c.isDigit then some (c.toNat - 0x30)
  else if 0x61 ≤ c.toNat ∧ c.toNat ≤ 0x66 then some (c.toNat - 0x57)
  else if 0x41 ≤ c.toNat ∧ c.toNat ≤ 0x46 then some (c.toNat - 0x37)
  else none

def unit? : List Char → Option (Nat × List Char)
  | a :: b :: c :: d :: rest => do
      let a ← hex? a
      let b ← hex? b
      let c ← hex? c
      let d ← hex? d
      return (((a * 16 + b) * 16 + c) * 16 + d, rest)
  | _ => none

def IsUnit (digits : List Char) (unit : Nat) : Prop :=
  digits.length = 4 ∧ unit? digits = some (unit, [])

/-- The ways to write a character in a string: for itself, with a short escape, with the unit
that is its code, or with the two units that stand for a code beyond those. -/
inductive Letter : Char → List Char → Prop
  | plain {c : Char} : 0x20 ≤ c.toNat → c ≠ '"' → c ≠ '\\' → Letter c [c]
  | short {c name : Char} : short? name = some c → Letter c ['\\', name]
  | unit {c : Char} {digits : List Char} : IsUnit digits c.toNat →
      Letter c ('\\' :: 'u' :: digits)
  | pair {c : Char} {digits digits' : List Char} {high low : Nat} : IsUnit digits high →
      IsUnit digits' low → 0xD800 ≤ high → high < 0xDC00 → 0xDC00 ≤ low → low < 0xE000 →
      c.toNat = 0x10000 + (high - 0xD800) * 0x400 + (low - 0xDC00) →
      Letter c ('\\' :: 'u' :: digits ++ '\\' :: 'u' :: digits')

inductive Letters : List Char → List Char → Prop
  | nil : Letters [] []
  | cons {c : Char} {chars piece text : List Char} : Letter c piece → Letters chars text →
      Letters (c :: chars) (piece ++ text)

def Quoted (string : String) (text : List Char) : Prop :=
  ∃ inner, Letters string.toList inner ∧ text = '"' :: (inner ++ ['"'])

def More (close : Char) : List (List Char → Prop) → List Char → Prop
  | [], text => ∃ gap, Gap gap ∧ text = gap ++ [close]
  | part :: others, text => ∃ gap gap' own rest, Gap gap ∧ Gap gap' ∧ part own ∧
      More close others rest ∧ text = gap ++ ',' :: (gap' ++ (own ++ rest))

def Bracketed (opening close : Char) : List (List Char → Prop) → List Char → Prop
  | [], text => ∃ gap, Gap gap ∧ text = opening :: (gap ++ [close])
  | part :: others, text => ∃ gap own rest, Gap gap ∧ part own ∧ More close others rest ∧
      text = opening :: (gap ++ (own ++ rest))

def Member (name : String) (value : List Char → Prop) (text : List Char) : Prop :=
  ∃ key gap gap' own, Quoted name key ∧ Gap gap ∧ Gap gap' ∧ value own ∧
    text = key ++ (gap ++ ':' :: (gap' ++ own))

mutual

/-- The text stands for the value. -/
def IsText : Json → List Char → Prop
  | null, text => text = ['n', 'u', 'l', 'l']
  | bool true, text => text = ['t', 'r', 'u', 'e']
  | bool false, text => text = ['f', 'a', 'l', 's', 'e']
  | integer value, text => Numeral text value.toInt
  | string value, text => Quoted value text
  | array items, text => Bracketed '[' ']' (itemTexts items) text
  | object members, text => Bracketed '\x7b' '\x7d' (memberTexts members) text

def itemTexts : List Json → List (List Char → Prop)
  | [] => []
  | item :: others => item.IsText :: itemTexts others

def memberTexts : List (String × Json) → List (List Char → Prop)
  | [] => []
  | (name, value) :: others => Member name value.IsText :: memberTexts others

end

/-- A whole text: one value, with nothing but white space around it. -/
def Document (text : String) (json : Json) : Prop :=
  ∃ gap own gap', Gap gap ∧ json.IsText own ∧ Gap gap' ∧ text.toList = gap ++ (own ++ gap')

end CompactSql.Json
