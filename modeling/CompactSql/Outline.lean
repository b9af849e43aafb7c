import CompactSql.Text.Escaped
import CompactSql.Text.Listing

/-!
# Outlines

An outline shows the constructors that a value is built of.  It is written
compactly, on one line, or expanded, with every part on a line of its own that
ends in a comma and is indented by four spaces a level.
-/

namespace CompactSql

inductive Outline.Bracket where
  | round | square | curly
  deriving DecidableEq, Repr

inductive Outline where
  | leaf (text : String)
  | labelled (label : String) (body : Outline)
  | group (name : String) (bracket : Outline.Bracket) (parts : List Outline)

namespace Outline

def Bracket.opening : Bracket → String
  | round => "("
  | square => "["
  | curly => " \x7b"

def Bracket.closing : Bracket → String
  | round => ")"
  | square => "]"
  | curly => "\x7d"

def Bracket.padding : Bracket → String
  | curly => " "
  | _ => ""

def quoted (text : String) : Outline := leaf (Text.escape text)

def integer (value : Int64) : Outline := leaf (toString value.toInt)

def bool (value : Bool) : Outline := leaf (if value then "true" else "false")

def tuple (name : String) (parts : List Outline) : Outline :=
  group name .round parts

def list (parts : List Outline) : Outline := group "" .square parts

def record (name : String) (fields : List (String × Outline)) : Outline :=
  group name .curly (fields.map fun (label, body) => labelled label body)

def option {α : Type} (outline : α → Outline) : Option α → Outline
  | none => leaf "None"
  | some value => tuple "Some" [outline value]

mutual

def compact : Outline → String
  | leaf text => text
  | labelled label body => label ++ ": " ++ body.compact
  | group name bracket parts =>
      name ++ bracket.opening ++ bracket.padding ++
        Text.commaSeparated (compactAll parts) ++
        bracket.padding ++ bracket.closing

def compactAll : List Outline → List String
  | [] => []
  | part :: others => part.compact :: compactAll others

end

def indentation (depth : Nat) : String :=
  String.ofList (List.replicate (4 * depth) ' ')

mutual

def expandedAt (depth : Nat) : Outline → String
  | leaf text => text
  | labelled label body => label ++ ": " ++ body.expandedAt depth
  | group name bracket [] => name ++ bracket.opening ++ bracket.closing
  | group name bracket (part :: others) =>
      name ++ bracket.opening ++ "\n" ++
        expandedLines (depth + 1) (part :: others) ++
        indentation depth ++ bracket.closing

def expandedLines (depth : Nat) : List Outline → String
  | [] => ""
  | part :: others =>
      indentation depth ++ part.expandedAt depth ++ ",\n" ++
        expandedLines depth others

end

def expanded (outline : Outline) : String := outline.expandedAt 0

end Outline

end CompactSql
