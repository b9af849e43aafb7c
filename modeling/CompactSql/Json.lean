/-!
# JSON

A JSON value and its text with two spaces of indentation a level.  Empty lists
are written `[]`; the members of an object keep their order.
-/

namespace CompactSql

inductive Json where
  | null
  | bool (value : Bool)
  | integer (value : Int64)
  | string (text : String)
  | array (items : List Json)
  | object (members : List (String × Json))

namespace Json

def ofOption {α : Type} (json : α → Json) : Option α → Json
  | none => null
  | some value => json value

def tagged (name : String) (body : Json) : Json := object [(name, body)]

/-- Control characters below the space are escaped, shortly where JSON has a
short form; everything else but quotes and backslashes stands for itself. -/
def escapeChar (c : Char) : List Char :=
  match c with
  | '"' => ['\\', '"']
  | '\\' => ['\\', '\\']
  | '\x08' => ['\\', 'b']
  | '\x0c' => ['\\', 'f']
  | '\n' => ['\\', 'n']
  | '\r' => ['\\', 'r']
  | '\t' => ['\\', 't']
  | c =>
      if c.toNat < 0x20 then
        ['\\', 'u', '0', '0', Nat.digitChar (c.toNat / 16),
          Nat.digitChar (c.toNat % 16)]
      else
        [c]

def quote (text : String) : String :=
  String.ofList ('"' :: text.toList.flatMap escapeChar ++ ['"'])

def newLine (depth : Nat) : String :=
  "\n" ++ String.ofList (List.replicate (2 * depth) ' ')

mutual

def writeAt (depth : Nat) : Json → String
  | null => "null"
  | bool value => if value then "true" else "false"
  | integer value => toString value.toInt
  | string text => quote text
  | array [] => "[]"
  | array (item :: others) =>
      "[" ++ newLine (depth + 1) ++ item.writeAt (depth + 1) ++
        writeItems (depth + 1) others ++ newLine depth ++ "]"
  | object [] => "\x7b\x7d"
  | object ((name, value) :: others) =>
      "\x7b" ++ newLine (depth + 1) ++ quote name ++ ": " ++
        value.writeAt (depth + 1) ++ writeMembers (depth + 1) others ++
        newLine depth ++ "\x7d"

def writeItems (depth : Nat) : List Json → String
  | [] => ""
  | item :: others =>
      "," ++ newLine depth ++ item.writeAt depth ++ writeItems depth others

def writeMembers (depth : Nat) : List (String × Json) → String
  | [] => ""
  | (name, value) :: others =>
      "," ++ newLine depth ++ quote name ++ ": " ++ value.writeAt depth ++
        writeMembers depth others

end

def write (json : Json) : String := json.writeAt 0

end Json

end CompactSql
