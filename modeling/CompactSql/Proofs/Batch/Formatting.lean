import CompactSql.Proofs.Batch.Delivery
import CompactSql.Proofs.Batch.Lines
import CompactSql.Proofs.Printing.Typeset
import CompactSql.Proofs.RoundTrip

/-!
# Formatting a batch twice

The statements of a batch that were read are written one to a line.  Read again, the
lines are those statements and nothing is rejected, so the second output is the first.
-/

namespace CompactSql

open Grammar Grammar.Derivation
open Text (isBlank isBlankText)
open Token (Kind)

theorem statement_ne_nil {tree : CompactSql.Statement} :
    ¬ Derivation.Statement Condition [] tree := by
  intro h
  cases h with
  | select derived | insert derived | update derived | delete derived
  | createTable derived | createIndex derived => cases derived

private theorem visible_of_parse {text : String} {tree : CompactSql.Statement}
    (h : parse text = .ok tree) : isBlankText text.toList = false := by
  apply Bool.eq_false_iff.mpr
  intro blank
  have nothing : Cut text.toList [] := .of_blank (List.all_eq_true.mp blank)
  have whole := tokenKinds_eq_ok.mpr (tokenize_of_cut nothing)
  exact statement_ne_nil ((parse_iff whole).mp h)

section Written

variable {text : String} {tree : CompactSql.Statement}

theorem parse_written (h : parse text = .ok tree) {ending : String}
    (blank : ∀ c ∈ ending.toList, isBlank c = true) :
    parse (tree.toSql ++ ending) = .ok tree := by
  obtain ⟨row, whole, derived⟩ := tokenKinds_of_parse h
  have written := writable_of_tokenKinds whole
  have again := (statement_printed derived written).2
  have cut := (spells_normalForm derived written).cuts _ _ (.of_blank blank) (.of_blank blank)
  rw [← String.toList_append, List.append_nil] at cut
  exact (parse_iff (tokenKinds_eq_ok.mpr (tokenize_of_cut cut))).mpr again

private theorem endable_written (h : parse text = .ok tree) (line : '\n' ∉ text.toList) :
    Text.Endable tree.toSql.toList := by
  obtain ⟨row, whole, derived⟩ := tokenKinds_of_parse h
  have written := writable_of_tokenKinds whole
  have set := (spells_normalForm derived written).typeset
  constructor
  · intro feed
    rcases set.blank_inside written.normalForm rfl feed with eq | ⟨raw, member, inside⟩
    · cases eq
    · obtain ⟨tokens, cut, ended⟩ := tokenKinds_eq_ok.mp whole
      obtain ⟨row', ended', pieces⟩ := cut_of_tokenize cut
      rw [ended] at ended'
      obtain ⟨rfl, -⟩ := List.append_inj' ended' rfl
      rcases Kind.mem_normalForm member with member | new
      · exact line (pieces.raw_subset member inside)
      · simp [Kind.added] at new
  · intro last
    have space := set.blank_last written.normalForm rfl last
    cases space

end Written

namespace Batch

/-- Statements as SQL, each on a line. -/
def script (statements : List Statement) : String :=
  String.join (statements.map fun statement => statement.toSql ++ "\n")

/-- The chunks are read as the statements, one by one. -/
inductive ReadAs : List Chunk → List Statement → Prop
  | nil : ReadAs [] []
  | cons {chunk : Chunk} {statement : Statement} {chunks : List Chunk}
      {statements : List Statement} : parse chunk.text = .ok statement →
      ReadAs chunks statements → ReadAs (chunk :: chunks) (statement :: statements)

/-- A statement whose text is one line that is read as the statement. -/
structure OneLine (statement : Statement) : Prop where
  parses : parse statement.toSql = .ok statement
  endable : Text.Endable statement.toSql.toList

theorem readAs_lines {statements : List Statement}
    (each : ∀ statement ∈ statements, OneLine statement) (number : Nat) :
    ReadAs (Chunk.ofLines number (Text.lines (script statements).toList)) statements := by
  induction statements generalizing number with
  | nil => exact .nil
  | cons statement others ih =>
      obtain ⟨first, later⟩ := List.forall_mem_cons.mp each
      have split : (script (statement :: others)).toList =
          statement.toSql.toList ++ '\n' :: (script others).toList := by
        simp [script, String.join_cons]
      have visible := visible_of_parse first.parses
      rw [split, Text.lines_of_endable first.endable, Chunk.ofLines,
        if_neg (by simp [visible])]
      refine .cons ?_ (ih later (number + 1))
      rw [String.ofList_toList]
      exact first.parses

theorem readAs_whole {text : String} {statement : Statement}
    (h : parse text = .ok statement) :
    ReadAs (Chunk.ofText false (script [statement])) [statement] := by
  refine .cons ?_ .nil
  have ending : ∀ c ∈ "\n".toList, isBlank c = true := List.all_eq_true.mp rfl
  have again := parse_written h ending
  simpa [script, String.join_cons] using again

def formatting (eachLine : Bool) : Options := ⟨.sql, false, eachLine⟩

def statementsOf (chunks : List Chunk) : List Statement :=
  chunks.filterMap fun chunk => (parse chunk.text).toOption

section Run

variable {eachLine : Bool} {chunk : Chunk} {chunks : List Chunk}

theorem writes_of_ok {statement : Statement} (h : parse chunk.text = .ok statement) :
    chunk.writes (formatting eachLine) = [⟨.out, statement.toSql ++ "\n"⟩] := by
  simp [Chunk.writes, Chunk.answer, formatting, Format.render, h, Except.map]

private theorem writes_of_error {failure : Failure} (h : parse chunk.text = .error failure) :
    chunk.writes (formatting eachLine) =
      [⟨.diagnostics, failure.diagnostic chunk.text chunk.line⟩] := by
  simp [Chunk.writes, Chunk.answer, formatting, h, Except.map]

theorem isRejected_formatting (chunk : Chunk) :
    chunk.isRejected (formatting eachLine) = !(parse chunk.text).isOk := by
  cases read : parse chunk.text <;>
    simp [Chunk.isRejected, Chunk.answer, formatting, read, Except.map, Except.isOk,
      Except.toBool]

theorem sent_formatting (chunks : List Chunk) :
    sent .out (chunks.flatMap (Chunk.writes (formatting eachLine))) =
      script (statementsOf chunks) := by
  induction chunks with
  | nil => rfl
  | cons chunk others ih =>
      rw [List.flatMap_cons, sent_append, ih]
      cases read : parse chunk.text with
      | error failure =>
          rw [writes_of_error read]
          simp [statementsOf, read, sent, Except.toOption, String.join]
      | ok statement =>
          rw [writes_of_ok read]
          simp [statementsOf, read, sent, script, Except.toOption, String.join_cons]

private theorem ReadAs.statementsOf_eq {statements : List Statement}
    (h : ReadAs chunks statements) : statementsOf chunks = statements := by
  induction h with
  | nil => rfl
  | cons read _ ih => simpa [statementsOf, read, Except.toOption] using ih

private theorem ReadAs.quiet {statements : List Statement} (h : ReadAs chunks statements) :
    sent .diagnostics (chunks.flatMap (Chunk.writes (formatting eachLine))) = "" := by
  induction h with
  | nil => rfl
  | cons read _ ih =>
      rw [List.flatMap_cons, sent_append, ih, writes_of_ok read]
      rfl

private theorem ReadAs.verdict {statements : List Statement} (h : ReadAs chunks statements) :
    verdictOn (formatting eachLine) chunks = .ok () := by
  apply verdictOn_eq_ok.mpr
  induction h with
  | nil => simp
  | @cons chunk statement _ _ read _ ih =>
      refine List.forall_mem_cons.mpr ⟨?_, ih⟩
      rw [isRejected_formatting, read]
      rfl

end Run

section Again

variable {source : Source} {content : Except IoFault ByteArray}
  {text : String}

theorem formatting_out (eachLine : Bool) (readable : source.text content = .ok text) :
    ((run (formatting eachLine) source content).deliver none none).out =
      (script (statementsOf (Chunk.ofText eachLine text))).toUTF8 := by
  obtain ⟨made, -⟩ := run_of_text (formatting eachLine) readable
  rw [Report.deliver_unlimited, made, sent_formatting]
  rfl

theorem ReadAs.deliver {eachLine : Bool} {statements : List Statement}
    (h : ReadAs (Chunk.ofText eachLine text) statements)
    (readable : source.text content = .ok text) :
    (run (formatting eachLine) source content).deliver none none =
      ⟨(script statements).toUTF8, .empty, .ok ()⟩ := by
  obtain ⟨made, verdict⟩ := run_of_text (formatting eachLine) readable
  have lines : (formatting eachLine).eachLine = eachLine := rfl
  rw [Report.deliver_unlimited, made, verdict, lines, sent_formatting, h.statementsOf_eq,
    h.quiet, h.verdict]
  rfl

private theorem line_of_chunk {chunk : Chunk} {number : Nat} {lines : List (List Char)}
    (h : chunk ∈ Chunk.ofLines number lines) : ∃ line ∈ lines, chunk.text.toList = line := by
  induction lines generalizing number with
  | nil => cases h
  | cons line others ih =>
      rw [Chunk.ofLines] at h
      split at h
      · obtain ⟨other, member, eq⟩ := ih h
        exact ⟨other, List.mem_cons_of_mem _ member, eq⟩
      · rcases List.mem_cons.mp h with rfl | later
        · exact ⟨line, List.mem_cons_self, String.toList_ofList⟩
        · obtain ⟨other, member, eq⟩ := ih later
          exact ⟨other, List.mem_cons_of_mem _ member, eq⟩

private theorem oneLine_of_lines {statement : Statement}
    (h : statement ∈ statementsOf (Chunk.ofText true text)) : OneLine statement := by
  obtain ⟨chunk, member, read⟩ := List.mem_filterMap.mp h
  have parsed : parse chunk.text = .ok statement := by
    cases result : parse chunk.text with
    | error failure =>
        rw [result] at read
        cases read
    | ok other =>
        rw [result] at read
        cases read
        rfl
  obtain ⟨line, member, eq⟩ := line_of_chunk member
  have noFeed := Text.newline_notMem_lines text.toList line member
  rw [← eq] at noFeed
  have again : parse (statement.toSql ++ "") = .ok statement :=
    parse_written parsed (by simp)
  rw [String.append_empty] at again
  exact ⟨again, endable_written parsed noFeed⟩

/-- Read again, the script of a batch is its accepted statements: always if every line
is a statement of its own, and if the batch was accepted when it is one statement. -/
theorem readAs_script {eachLine : Bool} (accepted : eachLine = false →
      verdictOn (formatting eachLine) (Chunk.ofText eachLine text) = .ok ()) :
    ReadAs (Chunk.ofText eachLine (script (statementsOf (Chunk.ofText eachLine text))))
      (statementsOf (Chunk.ofText eachLine text)) := by
  cases eachLine with
  | true =>
      have each : ∀ statement ∈ statementsOf (Chunk.ofText true text), OneLine statement :=
        fun _ => oneLine_of_lines
      have split (text : String) : Chunk.ofText true text =
          Chunk.ofLines 1 (Text.lines text.toList) := rfl
      rw [split (script _)]
      exact readAs_lines each 1
  | false =>
      have sound := verdictOn_eq_ok.mp (accepted rfl) ⟨1, text⟩ List.mem_cons_self
      rw [isRejected_formatting] at sound
      cases read : parse text with
      | error failure =>
          simp [read, Except.isOk, Except.toBool] at sound
      | ok statement =>
          have one : statementsOf (Chunk.ofText false text) = [statement] := by
            simp [statementsOf, Chunk.ofText, read, Except.toOption]
          rw [one]
          exact readAs_whole read

/-- What a batch is formatted to, the SQL of each statement that is accepted on a line,
is formatted to itself and none of it is rejected: for every batch that is read line by
line, whatever lines of it are rejected, and for every other batch that is accepted. -/
theorem formatting_idempotent (eachLine : Bool) (readable : source.text content = .ok text)
    (accepted : eachLine = false →
      (run (formatting eachLine) source content).verdict = .ok ()) :
    let output := script (statementsOf (Chunk.ofText eachLine text))
    ((run (formatting eachLine) source content).deliver none none).out = output.toUTF8 ∧
      ∀ source' content', Source.text content' source' = .ok output →
        (run (formatting eachLine) source' content').deliver none none =
          ⟨output.toUTF8, .empty, .ok ()⟩ := by
  rw [(run_of_text (formatting eachLine) readable).2] at accepted
  refine ⟨formatting_out eachLine readable, ?_⟩
  intro source' content' again
  exact (readAs_script accepted).deliver again

end Again

def mixedLines : String :=
  "delete from t where a = 'x\ry'\r\nselect\n\nselect a from t order by a\r"

def formattedLines : String :=
  "DELETE FROM t WHERE a = 'x\ry'\nSELECT a FROM t ORDER BY a ASC\n"

/-- One line of three is rejected, and what the others are formatted to stays; so does
what a statement on two lines is formatted to. -/
theorem formatting_idempotent_mixed :
    ((run (formatting true) (.inline mixedLines) (.ok .empty)).deliver none none).verdict =
        .error (.rejected 1 3) ∧
      (run (formatting true) .stdin (.ok formattedLines.toUTF8)).deliver none none =
        ⟨formattedLines.toUTF8, .empty, .ok ()⟩ ∧
      (run (formatting false) (.inline "DELETE FROM t\n") (.ok .empty)).deliver none none =
        ⟨"DELETE FROM t\n".toUTF8, .empty, .ok ()⟩ := by
  have mixed : Source.text (.ok .empty) (.inline mixedLines) = .ok mixedLines := rfl
  have split : Source.text (.ok .empty) (.inline "delete\nfrom t") = .ok "delete\nfrom t" := rfl
  refine ⟨by decide +kernel, ?_, ?_⟩
  · have output : script (statementsOf (Chunk.ofText true mixedLines)) = formattedLines := by
      decide +kernel
    have again := (formatting_idempotent true mixed nofun).2
    rw [output] at again
    have held : Source.text (.ok formattedLines.toUTF8) .stdin = .ok formattedLines := by
      decide +kernel
    exact again .stdin (.ok formattedLines.toUTF8) held
  · have output : script (statementsOf (Chunk.ofText false "delete\nfrom t")) =
        "DELETE FROM t\n" := by decide +kernel
    have again := (formatting_idempotent false split fun _ => by decide +kernel).2
    rw [output] at again
    exact again (.inline "DELETE FROM t\n") (.ok .empty) rfl

end Batch

end CompactSql
