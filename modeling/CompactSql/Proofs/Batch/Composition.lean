import CompactSql.Proofs.Batch.Delivery
import CompactSql.Proofs.Diagnostic

/-!
# Batches behind one another

Behind whole lines a batch of lines is checked as if it stood alone: its answers come behind
those before it, its chunks are counted on, and its diagnostics are the same but for the
lines they name, which lie so much further down.
-/

namespace CompactSql.Batch

open Text (EndsLine Position)

namespace Chunk

def below (count : Nat) (chunk : Chunk) : Chunk := { chunk with line := chunk.line + count }

theorem ofLines_append (number : Nat) (rows others : List (List Char)) :
    ofLines number (rows ++ others) =
      ofLines number rows ++ ofLines (number + rows.length) others := by
  induction rows generalizing number with
  | nil => rfl
  | cons row rows ih =>
      have further : number + (row :: rows).length = number + 1 + rows.length := by
        rw [List.length_cons]
        omega
      rw [List.cons_append, ofLines, ofLines, ih, further]
      split
      · rfl
      · rfl

private theorem ofLines_below (number count : Nat) (lines : List (List Char)) :
    ofLines (number + count) lines = (ofLines number lines).map (below count) := by
  induction lines generalizing number with
  | nil => rfl
  | cons line others ih =>
      rw [ofLines, ofLines, Nat.add_right_comm, ih]
      split
      · rfl
      · rfl

theorem ofText_append {first : String} (ends : EndsLine first.toList) (second : String) :
    ofText true (first ++ second) =
      ofText true first ++ (ofText true second).map (below (first.toList.count '\n')) := by
  have split (text : String) : ofText true text = ofLines 1 (Text.lines text.toList) := rfl
  rw [split, split, split, String.toList_append, ends.lines_append, ofLines_append,
    ends.length_lines, ofLines_below]

end Chunk

/-! ## What diagnostics tell -/

/-- What a diagnostic tells: the failure, the position it names, and the line of the text
that it shows with so many carets. -/
structure Notice where
  failure : Failure
  place : Position
  excerpt : List Char
  width : Nat
  deriving DecidableEq

namespace Notice

def text (notice : Notice) : String :=
  notice.failure.shown notice.place notice.excerpt notice.width

def below (count : Nat) (notice : Notice) : Notice :=
  { notice with place := ⟨notice.place.line + count, notice.place.column⟩ }

def ofChunk (chunk : Chunk) (failure : Failure) : Notice :=
  let source := chunk.text.toList
  let place := failure.span.position source
  ⟨failure, ⟨chunk.line + place.line - 1, place.column⟩, lineAt source place.line,
    max 1 (failure.span.firstLineLength source)⟩

private theorem text_ofChunk (chunk : Chunk) (failure : Failure) :
    (ofChunk chunk failure).text = failure.diagnostic chunk.text chunk.line :=
  (failure.diagnostic_eq chunk.text chunk.line).symm

private theorem ofChunk_below (count : Nat) (chunk : Chunk) (failure : Failure) :
    ofChunk (chunk.below count) failure = (ofChunk chunk failure).below count := by
  have counted : 0 < (failure.span.position chunk.text.toList).line :=
    Position.line_pos _ failure.span.start
  have number : chunk.line + count + (failure.span.position chunk.text.toList).line - 1 =
      chunk.line + (failure.span.position chunk.text.toList).line - 1 + count := by omega
  simp only [ofChunk, below, Chunk.below, number]

end Notice

def Chunk.failure? (options : Options) (chunk : Chunk) : Option Failure :=
  match chunk.answer options with
  | .ok _ => none
  | .error failure => some failure

def Chunk.notice? (options : Options) (chunk : Chunk) : Option Notice :=
  (chunk.failure? options).map (Notice.ofChunk chunk)

def notices (options : Options) (text : String) : List Notice :=
  (Chunk.ofText options.eachLine text).filterMap (Chunk.notice? options)

def told (notices : List Notice) : String := String.join (notices.map Notice.text)

theorem told_append (first second : List Notice) :
    told (first ++ second) = told first ++ told second := by
  rw [told, List.map_append, String.join_append, told, told]

section Chunk

variable {options : Options} {chunk : Chunk}

private theorem sent_diagnostics (chunk : Chunk) :
    sent .diagnostics (chunk.writes options) = told (chunk.notice? options).toList := by
  unfold Chunk.writes Chunk.notice? Chunk.failure?
  cases chunk.answer options with
  | ok text => rfl
  | error failure =>
      have quiet : sent .diagnostics
          (if options.tokens then [⟨.out, dumpTokens chunk.text⟩] else []) = "" := by
        split <;> rfl
      simp only
      rw [sent_append, quiet, String.empty_append]
      simp [sent, told, Notice.text_ofChunk]

private theorem sent_out_below (count : Nat) (chunk : Chunk) :
    sent .out ((chunk.below count).writes options) = sent .out (chunk.writes options) := by
  have same : (chunk.below count).answer options = chunk.answer options := rfl
  have quiet (text : String) : sent .out [⟨.diagnostics, text⟩] = "" := rfl
  rw [Chunk.writes, Chunk.writes, same]
  cases chunk.answer options with
  | ok text => rfl
  | error failure =>
      simp only
      rw [sent_append, sent_append, quiet, quiet]
      rfl

private theorem notice?_below (count : Nat) (chunk : Chunk) :
    (chunk.below count).notice? options = (chunk.notice? options).map (Notice.below count) := by
  have same : (chunk.below count).failure? options = chunk.failure? options := rfl
  have shifted : Notice.ofChunk (chunk.below count) =
      Notice.below count ∘ Notice.ofChunk chunk :=
    funext (Notice.ofChunk_below count chunk)
  rw [Chunk.notice?, Chunk.notice?, same, shifted, Option.map_map]

private theorem failure?_format (format other : Format) (tokens eachLine : Bool) (chunk : Chunk) :
    chunk.failure? ⟨format, tokens, eachLine⟩ = chunk.failure? ⟨other, tokens, eachLine⟩ := by
  unfold Chunk.failure? Chunk.answer
  cases tokens with
  | true => rfl
  | false => cases parse chunk.text <;> rfl

private theorem isRejected_eq (chunk : Chunk) :
    chunk.isRejected options = (chunk.failure? options).isSome := by
  unfold Chunk.isRejected Chunk.failure?
  cases chunk.answer options <;> rfl

end Chunk

section Chunks

variable {options : Options}

private theorem sent_flatMap {α : Type} (channel : Channel) (items : List α)
    (writes : α → List Write) :
    sent channel (items.flatMap writes) =
      String.join (items.map fun item => sent channel (writes item)) := by
  induction items with
  | nil => rfl
  | cons item others ih =>
      rw [List.flatMap_cons, sent_append, ih, List.map_cons, String.join_cons]

private theorem sent_notices (chunks : List Chunk) :
    sent .diagnostics (chunks.flatMap (Chunk.writes options)) =
      told (chunks.filterMap (Chunk.notice? options)) := by
  induction chunks with
  | nil => rfl
  | cons chunk others ih =>
      have first : (chunk :: others).filterMap (Chunk.notice? options) =
          (chunk.notice? options).toList ++ others.filterMap (Chunk.notice? options) := by
        cases told : chunk.notice? options with
        | none => rw [List.filterMap_cons_none told, Option.toList_none, List.nil_append]
        | some notice =>
            rw [List.filterMap_cons_some told, Option.toList_some, List.singleton_append]
      rw [List.flatMap_cons, sent_append, ih, sent_diagnostics, first, told_append]

private theorem sent_out_map_below (count : Nat) (chunks : List Chunk) :
    sent .out ((chunks.map (Chunk.below count)).flatMap (Chunk.writes options)) =
      sent .out (chunks.flatMap (Chunk.writes options)) := by
  rw [sent_flatMap, sent_flatMap, List.map_map]
  exact congrArg String.join (List.map_congr_left fun chunk _ => sent_out_below count chunk)

private theorem filterMap_below (count : Nat) (chunks : List Chunk) :
    (chunks.map (Chunk.below count)).filterMap (Chunk.notice? options) =
      (chunks.filterMap (Chunk.notice? options)).map (Notice.below count) := by
  have shifted : Chunk.notice? options ∘ Chunk.below count =
      fun chunk => (chunk.notice? options).map (Notice.below count) :=
    funext (notice?_below count)
  rw [List.filterMap_map, shifted, List.map_filterMap]

private theorem countP_below (count : Nat) (chunks : List Chunk) :
    (chunks.map (Chunk.below count)).countP (Chunk.isRejected options) =
      chunks.countP (Chunk.isRejected options) := by
  rw [List.countP_map]
  rfl

theorem notices_append {lines : String} (format : Format) (tokens : Bool)
    (ends : EndsLine lines.toList) (rest : String) :
    notices ⟨format, tokens, true⟩ (lines ++ rest) =
      notices ⟨format, tokens, true⟩ lines ++
        (notices ⟨format, tokens, true⟩ rest).map (Notice.below (lines.toList.count '\n')) := by
  rw [notices, Chunk.ofText_append ends, List.filterMap_append, filterMap_below]
  rfl

end Chunks

/-! ## Runs -/

/-- The last thing that is logged are the numbers of chunks checked and rejected, and the
verdict goes by them. -/
structure Report.Counts (report : Report) (failed total : Nat) : Prop where
  summary : report.effects.getLast? = some (.log (.checkedStatements total failed))
  verdict : report.verdict = if failed = 0 then .ok () else .error (.rejected failed total)

private theorem Report.Counts.accepts_iff {report : Report} {failed total : Nat}
    (h : report.Counts failed total) : report.verdict = .ok () ↔ failed = 0 := by
  rw [h.verdict]
  split
  next none => simp [none]
  next some => simp [some]

section Runs

variable {source : Source} {content : Except IoFault ByteArray} {text : String}

theorem run_counts (format : Format) (tokens : Bool) (readable : source.text content = .ok text) :
    (run ⟨format, tokens, true⟩ source content).Counts
      ((Chunk.ofText true text).countP (Chunk.isRejected ⟨format, tokens, true⟩))
      (Chunk.ofText true text).length := by
  constructor
  · rw [run, readable]
    simp only [checkText, countP_check, List.length_map, if_true]
    rw [← List.append_assoc, List.getLast?_concat]
  · exact (run_of_text _ readable).2

theorem deliver_run (options : Options) (readable : source.text content = .ok text) :
    (run options source content).deliver none none =
      ⟨(sent .out ((Chunk.ofText options.eachLine text).flatMap (Chunk.writes options))).toUTF8,
        (told (notices options text)).toUTF8,
        (run options source content).verdict⟩ := by
  rw [Report.deliver_unlimited, (run_of_text options readable).1, sent_notices]
  rfl

theorem run_format (format other : Format) (tokens eachLine : Bool) (source : Source)
    (content : Except IoFault ByteArray) :
    let first := (run ⟨format, tokens, eachLine⟩ source content).deliver none none
    let second := (run ⟨other, tokens, eachLine⟩ source content).deliver none none
    first.diagnostics = second.diagnostics ∧ first.verdict = second.verdict := by
  have same : Chunk.failure? ⟨format, tokens, eachLine⟩ =
      Chunk.failure? ⟨other, tokens, eachLine⟩ :=
    funext (failure?_format format other tokens eachLine)
  cases readable : source.text content with
  | error fault => simp [run, readable, Report.deliver_unlimited]
  | ok text =>
      have noticed : Chunk.notice? ⟨format, tokens, eachLine⟩ =
          Chunk.notice? ⟨other, tokens, eachLine⟩ := by
        funext chunk
        rw [Chunk.notice?, same, Chunk.notice?]
      have rejected : Chunk.isRejected ⟨format, tokens, eachLine⟩ =
          Chunk.isRejected ⟨other, tokens, eachLine⟩ := by
        funext chunk
        rw [isRejected_eq, same, isRejected_eq]
      rw [deliver_run _ readable, deliver_run _ readable, (run_of_text _ readable).2,
        (run_of_text _ readable).2]
      simp only [notices, noticed, verdictOn, rejected]
      exact ⟨trivial, trivial⟩

/-- Whole lines and a text behind them are checked together as they are one by one.  The
answers to the text come behind those to the lines, the numbers of chunks are added up, and
what there is to tell of the text comes last, further down by the lines.  Only the answers
depend on the format. -/
theorem runs_compose {first second whole : Source}
    {firstContent secondContent wholeContent : Except IoFault ByteArray} {lines rest : String}
    (format : Format) (tokens : Bool) (ends : EndsLine lines.toList)
    (readFirst : first.text firstContent = .ok lines)
    (readSecond : second.text secondContent = .ok rest)
    (readWhole : whole.text wholeContent = .ok (lines ++ rest)) :
    let options : Options := ⟨format, tokens, true⟩
    let before := run options first firstContent
    let after := run options second secondContent
    let both := run options whole wholeContent
    (both.deliver none none).out =
        (before.deliver none none).out ++ (after.deliver none none).out ∧
      (∃ failed total failed' total', before.Counts failed total ∧
        after.Counts failed' total' ∧ both.Counts (failed + failed') (total + total') ∧
        ((both.deliver none none).verdict = .ok () ↔ failed + failed' = 0)) ∧
      (after.deliver none none).diagnostics = (told (notices options rest)).toUTF8 ∧
      (both.deliver none none).diagnostics =
        (before.deliver none none).diagnostics ++
          (told ((notices options rest).map (Notice.below (lines.toList.count '\n')))).toUTF8 ∧
      ∀ other source content,
        let one := (run ⟨format, tokens, true⟩ source content).deliver none none
        let same := (run ⟨other, tokens, true⟩ source content).deliver none none
        one.diagnostics = same.diagnostics ∧ one.verdict = same.verdict := by
  intro options before after both
  have split := Chunk.ofText_append ends rest
  -- the chunks of the second text are those behind the first, only further down
  have counts : both.Counts
      ((Chunk.ofText true lines).countP (Chunk.isRejected options) +
        (Chunk.ofText true rest).countP (Chunk.isRejected options))
      ((Chunk.ofText true lines).length + (Chunk.ofText true rest).length) := by
    have all := run_counts format tokens readWhole
    rwa [split, List.countP_append, countP_below, List.length_append, List.length_map] at all
  rw [deliver_run options readFirst, deliver_run options readSecond,
    deliver_run options readWhole]
  refine ⟨?_, ⟨_, _, _, _, run_counts format tokens readFirst, run_counts format tokens readSecond,
    counts, counts.accepts_iff⟩, rfl, ?_, fun other => run_format format other tokens true⟩
  · have chunks : Chunk.ofText options.eachLine (lines ++ rest) =
        Chunk.ofText true lines ++ (Chunk.ofText true rest).map
          (Chunk.below (lines.toList.count '\n')) := split
    rw [chunks, List.flatMap_append, bytes_append, sent_out_map_below]
  · have all : notices options (lines ++ rest) =
        notices options lines ++
          (notices options rest).map (Notice.below (lines.toList.count '\n')) :=
      notices_append format tokens ends rest
    rw [all, told_append]
    simp only [String.toUTF8_eq_toByteArray, String.toByteArray_append]

end Runs

def endedLines : String := "select\r\n\u3000\r\ndelete from t\n"

def openLines : String := "delete\rfrom u\n\ndelete v"

/-- The rejection on the third line of the second text is told of the sixth of both. -/
theorem runs_compose_at_third_line :
    let both := run ⟨.sql, false, true⟩ (.inline (endedLines ++ openLines)) (.ok .empty)
    (both.deliver none none).out = "DELETE FROM t\n".toUTF8 ++ "DELETE FROM u\n".toUTF8 ∧
      both.Counts 2 4 ∧
      (both.deliver none none).diagnostics =
        ((run ⟨.sql, false, true⟩ (.inline endedLines) (.ok .empty)).deliver none none).diagnostics
          ++ (Failure.shown ⟨.unexpected (.keyword .FROM) (.identifier "v"), ⟨7, 8⟩⟩ ⟨6, 8⟩
            "delete v".toList 1).toUTF8 := by
  have ends : EndsLine endedLines.toList := .inr (by decide +kernel)
  have held : Source.text (.ok openLines.toUTF8) .stdin = .ok openLines := by decide +kernel
  have composed := @runs_compose (.inline endedLines) .stdin (.inline (endedLines ++ openLines))
    (.ok .empty) (.ok openLines.toUTF8) (.ok .empty) endedLines openLines .sql false ends rfl held
    rfl
  obtain ⟨out, -, -, diagnostics, -⟩ := composed
  refine ⟨?_, ⟨by decide +kernel, by decide +kernel⟩, ?_⟩
  · rw [out]
    decide +kernel
  · have raised : told ((notices ⟨.sql, false, true⟩ openLines).map
          (Notice.below (endedLines.toList.count '\n'))) =
        Failure.shown ⟨.unexpected (.keyword .FROM) (.identifier "v"), ⟨7, 8⟩⟩ ⟨6, 8⟩
          "delete v".toList 1 := by decide +kernel
    rw [diagnostics, raised]

end CompactSql.Batch
