/-!
# Lines of a text

A line feed ends a line, and a carriage return right before it belongs to the
ending.  The text after the last line feed is a line only if it is not empty,
and it keeps a carriage return at its end.
-/

namespace CompactSql.Text

def lines : List Char → List (List Char)
  | [] => []
  | '\r' :: '\n' :: rest => [] :: lines rest
  | '\n' :: rest => [] :: lines rest
  | c :: rest =>
      match lines rest with
      | [] => [[c]]
      | line :: others => (c :: line) :: others

end CompactSql.Text
