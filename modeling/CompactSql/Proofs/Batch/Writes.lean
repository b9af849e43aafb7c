import CompactSql.Batch

/-!
# The writes of a batch

Of the effects of a batch only the writes reach a writer.  They are those of
its chunks, in order: the answer to a chunk goes to the output, and what is
wrong with it to the diagnostics.
-/

namespace CompactSql.Batch

inductive Channel where
  | out | diagnostics
  deriving DecidableEq, Repr

structure Write where
  channel : Channel
  text : String
  deriving DecidableEq, Repr

def Effect.write? : Effect → Option Write
  | out text => some ⟨.out, text⟩
  | diagnostic text => some ⟨.diagnostics, text⟩
  | log _ => none

def writesOf (effects : List Effect) : List Write :=
  effects.filterMap Effect.write?

def sent (channel : Channel) (writes : List Write) : String :=
  String.join ((writes.filter (·.channel = channel)).map Write.text)

theorem writesOf_append (first second : List Effect) :
    writesOf (first ++ second) = writesOf first ++ writesOf second :=
  List.filterMap_append

private theorem writesOf_logs {effects : List Effect}
    (h : ∀ effect ∈ effects, ∃ event, effect = .log event) :
    writesOf effects = [] := by
  apply List.filterMap_eq_nil_iff.mpr
  intro effect mem
  obtain ⟨event, rfl⟩ := h effect mem
  rfl

theorem sent_append (channel : Channel) (first second : List Write) :
    sent channel (first ++ second) = sent channel first ++ sent channel second := by
  simp [sent, String.join_append]

theorem bytes_append (channel : Channel) (first second : List Write) :
    (sent channel (first ++ second)).toUTF8 =
      (sent channel first).toUTF8 ++ (sent channel second).toUTF8 := by
  rw [sent_append]
  simp only [String.toUTF8_eq_toByteArray, String.toByteArray_append]

/-- What a chunk is answered with, or why it is rejected. -/
def Chunk.answer (options : Options) (chunk : Chunk) : Except Failure String :=
  if options.tokens then
    (tokenize chunk.text).map fun _ => dumpTokens chunk.text
  else
    (parse chunk.text).map fun statement =>
      options.format.render statement ++ "\n"

def Chunk.isRejected (options : Options) (chunk : Chunk) : Bool :=
  !(chunk.answer options).isOk

/-- One write to the output for an accepted chunk and one to the diagnostics
for a rejected one, behind the dump if tokens are asked for. -/
def Chunk.writes (options : Options) (chunk : Chunk) : List Write :=
  match chunk.answer options with
  | .ok text => [⟨.out, text⟩]
  | .error failure =>
      (if options.tokens then [⟨.out, dumpTokens chunk.text⟩] else []) ++
        [⟨.diagnostics, failure.diagnostic chunk.text chunk.line⟩]

structure Check.Follows (check : Check) (options : Options) (chunk : Chunk) :
    Prop where
  writes : writesOf check.effects = chunk.writes options
  accepted : check.accepted = !chunk.isRejected options

private theorem writesOf_reading {α : Type} (tokens : List Token)
    (reading : Grammar.Reading α) :
    writesOf (tokenizedEffect tokens :: reading.trail.map trailEffect) = [] := by
  apply writesOf_logs
  intro effect mem
  rcases List.mem_cons.mp mem with rfl | mem
  · exact ⟨_, rfl⟩
  · obtain ⟨event, -, rfl⟩ := List.mem_map.mp mem
    cases event with
    | backtracked restored failure => exact ⟨_, rfl⟩
    | rejected name => exact ⟨_, rfl⟩

theorem checkTokens_follows {options : Options} (h : options.tokens = true)
    (chunk : Chunk) : (checkTokens chunk).Follows options chunk := by
  cases cut : tokenize chunk.text with
  | error failure =>
      constructor <;>
        simp [checkTokens, reject, Chunk.writes, Chunk.isRejected, Chunk.answer,
          h, cut, writesOf, Effect.write?, Except.map, Except.isOk, Except.toBool]
  | ok tokens =>
      constructor <;>
        simp [checkTokens, Chunk.writes, Chunk.isRejected, Chunk.answer, h, cut,
          writesOf, Effect.write?, tokenizedEffect, Except.map, Except.isOk,
          Except.toBool]

private theorem reject_follows {options : Options} {chunk : Chunk} {log : List Effect}
    {failure : Failure} (h : options.tokens = false)
    (rejected : parse chunk.text = .error failure) (quiet : writesOf log = []) :
    (reject chunk log failure).Follows options chunk := by
  have answer : chunk.answer options = .error failure := by
    simp [Chunk.answer, h, rejected, Except.map]
  constructor
  · rw [reject, writesOf_append, quiet, Chunk.writes, answer, h]
    rfl
  · rw [Chunk.isRejected, answer]
    rfl

private theorem accept_follows {options : Options} {chunk : Chunk} {log : List Effect}
    {statement : Statement} (h : options.tokens = false)
    (accepted : parse chunk.text = .ok statement) (quiet : writesOf log = []) :
    (accept log (options.format.render statement ++ "\n")).Follows options
      chunk := by
  have answer : chunk.answer options =
      .ok (options.format.render statement ++ "\n") := by
    simp [Chunk.answer, h, accepted, Except.map]
  constructor
  · rw [accept, writesOf_append, quiet, Chunk.writes, answer]
    rfl
  · rw [Chunk.isRejected, answer]
    rfl

theorem checkStatement_follows {options : Options} (h : options.tokens = false)
    (chunk : Chunk) :
    (checkStatement options.format chunk).Follows options chunk := by
  rw [checkStatement]
  cases cut : tokenize chunk.text with
  | error failure => exact reject_follows h (parse_of_fault cut) rfl
  | ok tokens =>
      have parsed := parse_of_tokenize cut
      have quiet := writesOf_reading tokens (readStatement tokens)
      cases result : (readStatement tokens).result with
      | error failure =>
          rw [result] at parsed
          simp only [result]
          exact reject_follows h parsed quiet
      | ok statement =>
          rw [result] at parsed
          simp only [result]
          apply accept_follows h parsed
          rw [writesOf_append, quiet]
          rfl

theorem check_follows (options : Options) (chunk : Chunk) :
    (check options chunk).Follows options chunk := by
  rw [check]
  split
  next h => exact checkTokens_follows h chunk
  next h => exact checkStatement_follows (by simpa using h) chunk

def verdictOn (options : Options) (chunks : List Chunk) : Except Problem Unit :=
  let failed := chunks.countP (Chunk.isRejected options)
  if failed = 0 then .ok () else .error (.rejected failed chunks.length)

theorem checkText_writes (options : Options) (text : String) :
    writesOf (checkText options text).effects =
      (Chunk.ofText options.eachLine text).flatMap (Chunk.writes options) := by
  have quiet (total failed : Nat) :
      writesOf (if options.eachLine then
        [.log (.checkedStatements total failed)] else []) = [] := by
    split <;> rfl
  rw [checkText, writesOf_append, quiet, List.append_nil]
  generalize Chunk.ofText options.eachLine text = chunks
  induction chunks with
  | nil => rfl
  | cons chunk others ih =>
      rw [List.map_cons, List.zip_cons_cons, List.flatMap_cons, writesOf_append,
        List.flatMap_cons, ih, ← (check_follows options chunk).writes]
      rfl

theorem countP_check (options : Options) (chunks : List Chunk) :
    (chunks.map (check options)).countP (!·.accepted) =
      chunks.countP (Chunk.isRejected options) := by
  rw [List.countP_map]
  apply List.countP_congr
  intro chunk _
  simp [(check_follows options chunk).accepted]

theorem checkText_verdict (options : Options) (text : String) :
    (checkText options text).verdict =
      verdictOn options (Chunk.ofText options.eachLine text) := by
  rw [checkText, verdictOn, countP_check, List.length_map]

theorem verdictOn_eq_ok {options : Options} {chunks : List Chunk} :
    verdictOn options chunks = .ok () ↔
      ∀ chunk ∈ chunks, chunk.isRejected options = false := by
  rw [verdictOn]
  split
  next h =>
    rw [List.countP_eq_zero] at h
    simpa using h
  next h =>
    rw [List.countP_eq_zero] at h
    simpa using h

/-- What holds the text cannot be read, or its bytes are no text. -/
def Source.Unreadable (content : Except IoFault ByteArray) (fault : IoFault)
    (source : Source) : Prop :=
  (∀ sql, source ≠ .inline sql) ∧
    (content = .error fault ∨
      ∃ bytes, content = .ok bytes ∧ ¬ bytes.IsValidUTF8 ∧ fault = .invalidUtf8)

private theorem decode_eq_error {bytes : ByteArray} {fault : IoFault} :
    decode bytes = .error fault ↔ ¬ bytes.IsValidUTF8 ∧ fault = .invalidUtf8 := by
  unfold decode String.fromUTF8?
  split
  next _ text =>
    split at text
    · next valid => simp [valid]
    · cases text
  next none =>
    split at none
    · cases none
    · next invalid => simp [invalid, eq_comm]

private theorem Source.text_eq_error {content : Except IoFault ByteArray}
    {fault : IoFault} {source : Source} :
    source.text content = .error fault ↔ source.Unreadable content fault := by
  have stored : content >>= decode = .error fault ↔
      content = .error fault ∨
        ∃ bytes, content = .ok bytes ∧ ¬ bytes.IsValidUTF8 ∧ fault = .invalidUtf8 := by
    cases content with
    | error other => simp [bind, Except.bind]
    | ok bytes => simp [bind, Except.bind, decode_eq_error]
  cases source with
  | inline sql => simp [Source.text, Source.Unreadable]
  | file path => simp [Source.text, Source.Unreadable, stored]
  | stdin => simp [Source.text, Source.Unreadable, stored]

theorem Source.effects_quiet (source : Source) : writesOf source.effects = [] := by
  cases source <;> rfl

theorem run_of_unreadable {source : Source} {content : Except IoFault ByteArray}
    {fault : IoFault} (options : Options)
    (h : source.Unreadable content fault) :
    writesOf (run options source content).effects = [] ∧
      (run options source content).verdict = .error (.io fault) := by
  rw [run, Source.text_eq_error.mpr h]
  exact ⟨source.effects_quiet, rfl⟩

theorem run_of_text {source : Source} {content : Except IoFault ByteArray}
    {text : String} (options : Options) (h : source.text content = .ok text) :
    writesOf (run options source content).effects =
        (Chunk.ofText options.eachLine text).flatMap (Chunk.writes options) ∧
      (run options source content).verdict =
        verdictOn options (Chunk.ofText options.eachLine text) := by
  rw [run, h]
  constructor
  · rw [writesOf_append, source.effects_quiet, checkText_writes, List.nil_append]
  · exact checkText_verdict options text

end CompactSql.Batch
