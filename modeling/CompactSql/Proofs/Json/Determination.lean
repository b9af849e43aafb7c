import CompactSql.Batch
import CompactSql.Proofs.Json.Exact
import CompactSql.Proofs.Json.Strings
import CompactSql.Proofs.Json.Written

/-!
# Statements by their JSON

Each node of a statement is told by the name of its variant and by its members, and a value that
may be missing is told from `null`.  So a statement is determined by its JSON value, and a value
by each text that stands for it.
-/

namespace CompactSql

open Function (Injective)

namespace Json

@[simp] theorem tagged_inj {name name' : String} {body body' : Json} :
    tagged name body = tagged name' body' ↔ name = name' ∧ body = body' := by
  simp [tagged]

@[simp] theorem ofOption_inj {α : Type} {json : α → Json} (h : Injective json)
    (present : ∀ value, json value ≠ .null) {first second : Option α} :
    ofOption json first = ofOption json second ↔ first = second := by
  cases first with
  | none =>
      cases second with
      | none => simp
      | some value => simp [ofOption, (present value).symm]
  | some value =>
      cases second with
      | none => simp [ofOption, present value]
      | some value' => simp [ofOption, h.eq_iff]

theorem string_injective : Injective string := fun _ _ => string.inj

@[simp] theorem names_inj {first second : List String} :
    names first = names second ↔ first = second := by
  simp [names, string_injective.list_map.eq_iff]

@[simp] theorem ofOption_string_inj {first second : Option String} :
    ofOption string first = ofOption string second ↔ first = second :=
  ofOption_inj string_injective fun _ => by simp

end Json

theorem BinaryOp.name_injective : Injective BinaryOp.name := by
  intro op op' same
  cases op <;> cases op' <;> first | rfl | exact absurd same (by decide)

@[simp] theorem BinaryOp.name_inj {op op' : BinaryOp} : op.name = op'.name ↔ op = op' :=
  name_injective.eq_iff

theorem Literal.json_injective : Injective Literal.json := by
  rintro (value | text) (value' | text') same
  all_goals simp_all [Literal.json]

namespace Expr

mutual

theorem eq_of_json (first second : Expr) (same : first.json = second.json) : first = second := by
  cases first with
  | literal value => cases second <;> simp_all [json, Literal.json_injective.eq_iff]
  | identifier name => cases second <;> simp_all [json]
  | field table name => cases second <;> simp_all [json]
  | call name args =>
      cases second with
      | call name' args' =>
          simp only [json, Json.tagged_inj, Json.object.injEq, List.cons.injEq, Prod.mk.injEq,
            Json.string.injEq, Json.array.injEq, true_and, and_true] at same
          rw [same.1, eq_of_jsons args args' same.2]
      | _ => simp [json] at same
  | binary op left right =>
      cases second with
      | binary op' left' right' =>
          simp only [json, Json.tagged_inj, Json.object.injEq, List.cons.injEq, Prod.mk.injEq,
            Json.string.injEq, BinaryOp.name_inj, true_and, and_true] at same
          rw [eq_of_json left left' same.1, same.2.1, eq_of_json right right' same.2.2]
      | _ => simp [json] at same
  | between subject lower upper =>
      cases second with
      | between subject' lower' upper' =>
          simp only [json, Json.tagged_inj, Json.object.injEq, List.cons.injEq, Prod.mk.injEq,
            true_and, and_true] at same
          rw [eq_of_json subject subject' same.1, eq_of_json lower lower' same.2.1,
            eq_of_json upper upper' same.2.2]
      | _ => simp [json] at same

private theorem eq_of_jsons (first second : List Expr) (same : jsons first = jsons second) :
    first = second := by
  cases first with
  | nil => cases second <;> simp_all [jsons]
  | cons expr others =>
      cases second with
      | nil => simp [jsons] at same
      | cons expr' others' =>
          simp only [jsons, List.cons.injEq] at same
          rw [eq_of_json expr expr' same.1, eq_of_jsons others others' same.2]

end

theorem json_injective : Injective json := eq_of_json

@[simp] theorem json_inj {first second : Expr} : first.json = second.json ↔ first = second :=
  json_injective.eq_iff

private theorem json_ne_null (expr : Expr) : expr.json ≠ .null := by
  cases expr <;> simp [json, Json.tagged]

@[simp] theorem ofOption_json_inj {first second : Option Expr} :
    Json.ofOption json first = Json.ofOption json second ↔ first = second :=
  Json.ofOption_inj json_injective json_ne_null

end Expr

theorem SelectItem.json_injective : Injective SelectItem.json := by
  rintro (_ | expr) (_ | expr') same
  all_goals simp_all [SelectItem.json, Json.tagged]

theorem Join.json_injective : Injective Join.json := by
  rintro ⟨table, condition⟩ ⟨table', condition'⟩ same
  simpa [Join.json] using same

theorem TableSource.json_injective : Injective TableSource.json := by
  rintro ⟨table, joins⟩ ⟨table', joins'⟩ same
  simpa [TableSource.json, Join.json_injective.list_map.eq_iff] using same

theorem SortKey.json_injective : Injective SortKey.json := by
  rintro ⟨expr, ascending⟩ ⟨expr', ascending'⟩ same
  simpa [SortKey.json] using same

theorem Selection.json_injective : Injective Selection.json := by
  rintro ⟨items, source, condition, groupBy, having, orderBy⟩
    ⟨items', source', condition', groupBy', having', orderBy'⟩ same
  simpa [Selection.json, SelectItem.json_injective.list_map.eq_iff,
    TableSource.json_injective.eq_iff, Expr.json_injective.list_map.eq_iff,
    SortKey.json_injective.list_map.eq_iff] using same

theorem Insertion.json_injective : Injective Insertion.json := by
  rintro ⟨table, fields, rows⟩ ⟨table', fields', rows'⟩ same
  have row : Injective fun row : List Literal => Json.array (row.map Literal.json) :=
    fun _ _ same => Literal.json_injective.list_map (Json.array.inj same)
  have names : Injective Json.names := fun _ _ => Json.names_inj.mp
  simpa [Insertion.json, row.list_map.eq_iff, Json.ofOption_inj names (by simp [Json.names])]
    using same

theorem Assignment.json_injective : Injective Assignment.json := by
  rintro ⟨field, value⟩ ⟨field', value'⟩ same
  simpa [Assignment.json] using same

theorem Update.json_injective : Injective Update.json := by
  rintro ⟨table, assignments, condition⟩ ⟨table', assignments', condition'⟩ same
  simpa [Update.json, Assignment.json_injective.list_map.eq_iff] using same

theorem Deletion.json_injective : Injective Deletion.json := by
  rintro ⟨table, condition⟩ ⟨table', condition'⟩ same
  simpa [Deletion.json] using same

theorem IndexDefinition.json_injective : Injective IndexDefinition.json := by
  rintro ⟨name, table, method, fields⟩ ⟨name', table', method', fields'⟩ same
  simpa [IndexDefinition.json] using same

theorem TableDefinition.json_injective : Injective TableDefinition.json := by
  rintro ⟨table, fields, indexes⟩ ⟨table', fields', indexes'⟩ same
  simpa [TableDefinition.json, IndexDefinition.json_injective.list_map.eq_iff] using same

theorem Statement.json_injective : Injective Statement.json := by
  rintro (first | first | first | first | first | first)
    (second | second | second | second | second | second) same
  all_goals
    simp only [Statement.json, Json.tagged_inj, String.reduceEq, true_and, false_and] at same
  · rw [Selection.json_injective same]
  · rw [Insertion.json_injective same]
  · rw [Update.json_injective same]
  · rw [Deletion.json_injective same]
  · rw [TableDefinition.json_injective same]
  · rw [IndexDefinition.json_injective same]

namespace Batch

/-- The JSON text of a statement is one document, with nothing in its strings that cannot be
printed.  The reader of documents reads it as the value of the statement, it stands for no other
value, and it is not the text of another statement. -/
theorem json_determines (statement : Statement) :
    let text := Format.json.render statement
    Json.Document text statement.json ∧ Json.Printable text.toList ∧
      Json.read? text = some statement.json ∧
      (∀ json, Json.Document text json → json = statement.json) ∧
      ∀ other, Format.json.render other = text → other = statement := by
  intro text
  have document : Json.Document text statement.json := Json.document_write statement.json
  refine ⟨document, document.printable, Json.read?_eq_some.mpr document,
    fun json h => h.unique document, ?_⟩
  intro other same
  have written : Json.Document text other.json := same ▸ Json.document_write other.json
  exact Statement.json_injective (written.unique document)

def quotingDeletion : Statement :=
  .delete ⟨"say \"so\"", some (.literal (.string "\\\x01"))⟩

theorem json_determines_quoting :
    let text := "\x7b\n  \"Delete\": \x7b\n    \"table\": \"say \\\"so\\\"\",\n" ++
      "    \"where_clause\": \x7b\n      \"Literal\": \x7b\n" ++
      "        \"String\": \"\\\\\\u0001\"\n      \x7d\n    \x7d\n  \x7d\n\x7d"
    Json.read? text = some quotingDeletion.json ∧
      ∀ other, Format.json.render other = text → other = quotingDeletion := by
  intro text
  have written : Format.json.render quotingDeletion = text := by decide +kernel
  obtain ⟨-, -, read, -, determined⟩ := json_determines quotingDeletion
  rw [written] at read determined
  exact ⟨read, determined⟩

end Batch

end CompactSql
