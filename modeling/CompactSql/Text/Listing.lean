/-!
# Listings

Texts in a row, with a comma and a space between neighbours.
-/

namespace CompactSql.Text

def commaSeparated : List String → String
  | [] => ""
  | [text] => text
  | text :: others => text ++ ", " ++ commaSeparated others

end CompactSql.Text
