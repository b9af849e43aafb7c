import CompactSql.Proofs.Printing.Kinds

/-!
# The normal form of a row

What the kinds of a text are turned into when its tree is written again.  The normal
form is defined on rows alone, without a tree: the star behind `DELETE` goes, a sort
key gets a direction, and the fields of a table come before its indexes.
-/

namespace CompactSql

open Token (Kind)
open Token.Kind (commas inParens)

namespace Token.Kind

def depthBehind (depth : Nat) : Kind → Nat
  | leftParen => depth + 1
  | rightParen => depth - 1
  | _ => depth

/-- What stands between the commas outside of all parentheses. -/
def splitCommas : Nat → List Kind → List (List Kind)
  | _, [] => [[]]
  | 0, comma :: row => [] :: splitCommas 0 row
  | depth, kind :: row =>
      (splitCommas (kind.depthBehind depth) row).modifyHead (kind :: ·)

def items (row : List Kind) : List (List Kind) := splitCommas 0 row

def directed (key : List Kind) : List Kind :=
  if key.getLast? = some (keyword .ASC) ∨ key.getLast? = some (keyword .DESC) then key
  else key ++ [keyword .ASC]

/-- Gives every key behind `ORDER BY` a direction. -/
def directKeys : List Kind → List Kind
  | [] => []
  | keyword .ORDER :: keyword .BY :: keys =>
      keyword .ORDER :: keyword .BY :: commas ((items keys).map directed)
  | kind :: row => kind :: directKeys row

def isIndexEntry (entry : List Kind) : Bool := entry.head? = some (keyword .INDEX)

def fieldEntries (list : List Kind) : List (List Kind) :=
  (items list).filter (!isIndexEntry ·)

def indexEntries (list : List Kind) : List (List Kind) :=
  (items list).filter isIndexEntry

def tableRow (name : Kind) (list : List Kind) : List Kind :=
  keyword .CREATE :: keyword .TABLE :: name :: inParens list

def normalForm : List Kind → List Kind
  | keyword .DELETE :: star :: row => keyword .DELETE :: row
  | keyword .SELECT :: row => keyword .SELECT :: directKeys row
  | keyword .CREATE :: keyword .TABLE :: name :: leftParen :: list =>
      tableRow name (commas (fieldEntries list.dropLast ++ indexEntries list.dropLast))
  | row => row

theorem normalForm_tableRow (name : Kind) (list : List Kind) :
    normalForm (tableRow name list) =
      tableRow name (commas (fieldEntries list ++ indexEntries list)) := by
  rw [tableRow, inParens, normalForm, List.dropLast_concat]

/-! ## Splitting and joining -/

theorem commas_cons {row : List Kind} {rows : List (List Kind)} (h : rows ≠ []) :
    commas (row :: rows) = row ++ comma :: commas rows := by
  cases rows with
  | nil => exact absurd rfl h
  | cons other others => rfl

theorem commas_eq_flatMap (row : List Kind) (rows : List (List Kind)) :
    commas (row :: rows) = row ++ rows.flatMap (comma :: ·) := by
  induction rows generalizing row with
  | nil => simp [commas]
  | cons other others ih => simp [commas, ih]

theorem commas_append {rows : List (List Kind)} (h : rows ≠ []) (others : List (List Kind)) :
    commas (rows ++ others) = commas rows ++ others.flatMap (comma :: ·) := by
  obtain ⟨row, rows, rfl⟩ := List.exists_cons_of_ne_nil h
  rw [List.cons_append, commas_eq_flatMap, commas_eq_flatMap, List.flatMap_append,
    List.append_assoc]

private theorem commas_modifyHead (kind : Kind) {rows : List (List Kind)} (h : rows ≠ []) :
    commas (rows.modifyHead (kind :: ·)) = kind :: commas rows := by
  cases rows with
  | nil => exact absurd rfl h
  | cons row rows => cases rows <;> rfl

theorem splitCommas_ne_nil (depth : Nat) (row : List Kind) : splitCommas depth row ≠ [] := by
  fun_induction splitCommas depth row with
  | case1 => simp
  | case2 => simp
  | case3 depth kind row _ ih => simpa using ih

theorem commas_splitCommas (depth : Nat) (row : List Kind) :
    commas (splitCommas depth row) = row := by
  fun_induction splitCommas depth row with
  | case1 => rfl
  | case2 row ih => rw [commas_cons (splitCommas_ne_nil 0 row), ih, List.nil_append]
  | case3 depth kind row _ ih => rw [commas_modifyHead kind (splitCommas_ne_nil _ row), ih]

/-- No comma in the row stands outside of parentheses, which are balanced. -/
def Solid (row : List Kind) : Prop :=
  ∀ depth rest, splitCommas depth (row ++ rest) =
    (splitCommas depth rest).modifyHead (row ++ ·)

def Covered (row : List Kind) : Prop :=
  ∀ depth rest, splitCommas (depth + 1) (row ++ rest) =
    (splitCommas (depth + 1) rest).modifyHead (row ++ ·)

theorem modifyHead_append (row others : List Kind) (rows : List (List Kind)) :
    (rows.modifyHead (others ++ ·)).modifyHead (row ++ ·) =
      rows.modifyHead (row ++ others ++ ·) := by
  cases rows <;> simp

namespace Solid

theorem nil : Solid [] := by
  intro depth rest
  rw [List.nil_append]
  cases splitCommas depth rest <;> rfl

theorem single {kind : Kind} (h : kind ∉ [comma, leftParen, rightParen]) :
    Solid [kind] := by
  intro depth rest
  cases depth <;> cases kind <;> first | rfl | simp at h

theorem append {row others : List Kind} (h : Solid row) (h' : Solid others) :
    Solid (row ++ others) := by
  intro depth rest
  rw [List.append_assoc, h, h', modifyHead_append]

theorem cons {kind : Kind} {row : List Kind} (h : kind ∉ [comma, leftParen, rightParen])
    (h' : Solid row) : Solid (kind :: row) := (single h).append h'

theorem covered {row : List Kind} (h : Solid row) : Covered row :=
  fun depth rest => h (depth + 1) rest

end Solid

namespace Covered

theorem append {row others : List Kind} (h : Covered row) (h' : Covered others) :
    Covered (row ++ others) := by
  intro depth rest
  rw [List.append_assoc, h, h', modifyHead_append]

theorem commas {rows : List (List Kind)} (each : ∀ row ∈ rows, Solid row) :
    Covered (Kind.commas rows) := by
  have comma : Covered [.comma] := fun _ _ => rfl
  induction rows with
  | nil => exact Solid.nil.covered
  | cons row rows ih =>
      rw [List.forall_mem_cons] at each
      cases rows with
      | nil => exact each.1.covered
      | cons other others => exact each.1.covered.append (comma.append (ih each.2))

theorem inParens {row : List Kind} (h : Covered row) : Solid (Kind.inParens row) := by
  intro depth rest
  have opening (row : List Kind) : splitCommas depth (.leftParen :: row) =
      (splitCommas (depth + 1) row).modifyHead (.leftParen :: ·) := by
    cases depth <;> rfl
  have closing : splitCommas (depth + 1) (.rightParen :: rest) =
      (splitCommas depth rest).modifyHead (.rightParen :: ·) := rfl
  rw [Kind.inParens, List.cons_append, List.append_assoc, opening, h, List.singleton_append,
    closing]
  cases splitCommas depth rest <;> simp

end Covered

theorem items_single {row : List Kind} (h : Solid row) : items row = [row] := by
  have := h 0 []
  simpa [items, splitCommas] using this

theorem items_commas {rows : List (List Kind)} (nonempty : rows ≠ [])
    (each : ∀ row ∈ rows, Solid row) : items (commas rows) = rows := by
  induction rows with
  | nil => exact absurd rfl nonempty
  | cons row rows ih =>
      rw [List.forall_mem_cons] at each
      cases rows with
      | nil => exact items_single each.1
      | cons other others =>
          have more := ih (List.cons_ne_nil _ _) each.2
          have split := each.1 0 (comma :: commas (other :: others))
          rw [items] at more
          rw [commas_cons (List.cons_ne_nil _ _), items, split, splitCommas, more]
          simp

end Token.Kind

@[simp] theorem Writable.tableRow {name : Kind} {list : List Kind} :
    Writable (Token.Kind.tableRow name list) ↔ name.Written ∧ Writable list := by
  simp [Token.Kind.tableRow]

/-! ## Rows of expressions -/

open Token.Kind (Solid Covered)

private theorem BinaryOp.kind_solid (op : BinaryOp) :
    op.kind ∉ [Kind.comma, Kind.leftParen, Kind.rightParen] := by
  cases op <;> decide

mutual

theorem Expr.solid (expr : Expr) : Solid expr.kinds := by
  cases expr with
  | literal value => cases value <;> exact .single (by simp [Literal.kind])
  | identifier name => exact .single (by simp)
  | field table name => exact .cons (by simp) (.cons (by simp) (.single (by simp)))
  | call name args => exact .cons (by simp) (Covered.commas (Expr.all_solid args)).inParens
  | binary op left right =>
      exact (Expr.solid left).append (.cons op.kind_solid (Expr.solid right))
  | between subject lower upper =>
      exact (Expr.solid subject).append (.cons (by simp)
        ((Expr.solid lower).append (.cons (by simp) (Expr.solid upper))))

private theorem Expr.all_solid (exprs : List Expr) : ∀ row ∈ Expr.allKinds exprs, Solid row := by
  cases exprs with
  | nil => simp [Expr.allKinds]
  | cons first others =>
      exact List.forall_mem_cons.mpr ⟨Expr.solid first, Expr.all_solid others⟩

end

theorem Token.Kind.mem_commas {kind : Kind} {rows : List (List Kind)}
    (h : kind ∈ commas rows) : kind = .comma ∨ ∃ row ∈ rows, kind ∈ row := by
  induction rows with
  | nil => cases h
  | cons row rows ih =>
      rw [commas_eq_flatMap, List.mem_append, List.mem_flatMap] at h
      rcases h with inside | ⟨other, member, inside⟩
      · exact .inr ⟨row, List.mem_cons_self, inside⟩
      · rcases List.mem_cons.mp inside with rfl | inside
        · exact .inl rfl
        · exact .inr ⟨other, List.mem_cons_of_mem _ member, inside⟩

mutual

theorem Expr.mem_keywords (expr : Expr) {word : Keyword}
    (h : .keyword word ∈ expr.kinds) : word ∈ [Keyword.AND, .OR, .BETWEEN] := by
  cases expr with
  | literal value => cases value <;> simp [Expr.kinds, Literal.kind] at h
  | identifier name => simp [Expr.kinds] at h
  | field table name => simp [Expr.kinds] at h
  | call name args =>
      simp only [Expr.kinds, Token.Kind.inParens, List.mem_cons, List.mem_append,
        List.not_mem_nil, reduceCtorEq, false_or, or_false] at h
      rcases Token.Kind.mem_commas h with eq | ⟨row, member, inside⟩
      · cases eq
      · exact Expr.mem_allKeywords args row member inside
  | binary op left right =>
      simp only [Expr.kinds, List.mem_append, List.mem_cons] at h
      rcases h with h | h | h
      · exact Expr.mem_keywords left h
      · cases op <;> cases h <;> decide
      · exact Expr.mem_keywords right h
  | between subject lower upper =>
      simp only [Expr.kinds, List.mem_append, List.mem_cons, Kind.keyword.injEq] at h
      rcases h with h | rfl | h | rfl | h
      · exact Expr.mem_keywords subject h
      · decide
      · exact Expr.mem_keywords lower h
      · decide
      · exact Expr.mem_keywords upper h

private theorem Expr.mem_allKeywords (exprs : List Expr) {word : Keyword} :
    ∀ row ∈ Expr.allKinds exprs, .keyword word ∈ row →
      word ∈ [Keyword.AND, .OR, .BETWEEN] := by
  cases exprs with
  | nil => simp [Expr.allKinds]
  | cons first others =>
      exact List.forall_mem_cons.mpr
        ⟨Expr.mem_keywords first, Expr.mem_allKeywords others⟩

end

namespace Token.Kind

def added : List Kind := [comma, rightParen, keyword .ASC]

private theorem subset_commas {row : List Kind} {rows : List (List Kind)} (h : row ∈ rows) :
    row ⊆ commas rows := by
  intro kind inside
  cases rows with
  | nil => cases h
  | cons first others =>
      rw [commas_eq_flatMap, List.mem_append, List.mem_flatMap]
      rcases List.mem_cons.mp h with rfl | later
      · exact .inl inside
      · exact .inr ⟨row, later, List.mem_cons_of_mem _ inside⟩

theorem mem_items {kind : Kind} {row item : List Kind} (h : item ∈ items row)
    (inside : kind ∈ item) : kind ∈ row := by
  have whole := subset_commas h inside
  rwa [items, commas_splitCommas] at whole

private theorem mem_directed {kind : Kind} {key : List Kind} (h : kind ∈ directed key) :
    kind ∈ key ∨ kind ∈ added := by
  unfold directed at h
  split at h
  · exact .inl h
  · rcases List.mem_append.mp h with inside | last
    · exact .inl inside
    · rw [List.mem_singleton.mp last]
      exact .inr (by decide)

private theorem mem_directKeys {kind : Kind} {row : List Kind} (h : kind ∈ directKeys row) :
    kind ∈ row ∨ kind ∈ added := by
  fun_induction directKeys row with
  | case1 => exact .inl h
  | case2 keys =>
      simp only [List.mem_cons] at h ⊢
      rcases h with rfl | rfl | h
      · exact .inl (.inl rfl)
      · exact .inl (.inr (.inl rfl))
      · rcases mem_commas h with rfl | ⟨row, member, inside⟩
        · exact .inr (by decide)
        · obtain ⟨key, item, rfl⟩ := List.mem_map.mp member
          rcases mem_directed inside with inside | new
          · exact .inl (.inr (.inr (mem_items item inside)))
          · exact .inr new
  | case3 first row _ ih =>
      rcases List.mem_cons.mp h with rfl | h
      · exact .inl List.mem_cons_self
      · exact (ih h).imp (List.mem_cons_of_mem _) id

theorem mem_normalForm {kind : Kind} {row : List Kind} (h : kind ∈ normalForm row) :
    kind ∈ row ∨ kind ∈ added := by
  unfold normalForm at h
  split at h
  · rcases List.mem_cons.mp h with rfl | h
    · exact .inl List.mem_cons_self
    · exact .inl (by simp [h])
  · rcases List.mem_cons.mp h with rfl | h
    · exact .inl List.mem_cons_self
    · exact (mem_directKeys h).imp (List.mem_cons_of_mem _) id
  · next name list =>
      simp only [tableRow, inParens, List.mem_cons, List.mem_append, List.not_mem_nil,
        or_false] at h ⊢
      rcases h with rfl | rfl | rfl | rfl | h | rfl
      · exact .inl (.inl rfl)
      · exact .inl (.inr (.inl rfl))
      · exact .inl (.inr (.inr (.inl rfl)))
      · exact .inl (.inr (.inr (.inr (.inl rfl))))
      · rcases mem_commas h with rfl | ⟨entry, member, inside⟩
        · exact .inr (by decide)
        · have item : entry ∈ items list.dropLast :=
            (List.mem_append.mp member).elim (fun field => (List.mem_filter.mp field).1)
              fun index => (List.mem_filter.mp index).1
          exact .inl (.inr (.inr (.inr (.inr
            (List.dropLast_subset _ (mem_items item inside))))))
      · exact .inr (by decide)
  · exact .inl h

end Token.Kind

theorem Writable.normalForm {row : List Kind} (h : Writable row) :
    Writable (Token.Kind.normalForm row) := by
  have written : ∀ kind ∈ Token.Kind.added, kind.Written := by simp [Token.Kind.added]
  exact fun kind member => (Token.Kind.mem_normalForm member).elim (h kind) (written kind)

end CompactSql
