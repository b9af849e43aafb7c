import CompactSql.Proofs.Batch.Writes
import CompactSql.Proofs.Token.Dump

/-!
# The two modes of a check

A check dumps the tokens of a chunk, or it parses the chunk.  The dump goes on behind a
fault and the parser stops there, but both have the tokens from the same stream: a fault in
it rejects the chunk in either mode, with the same diagnostic.
-/

namespace CompactSql

def Token.FirstFault (token : Token) (tokens : List Token) : Prop :=
  ∃ front back, tokens = front ++ token :: back ∧ (∀ earlier ∈ front, ¬ earlier.Faulty) ∧
    token.Faulty

theorem tokenize_stops {text : String} {failure : Failure}
    (failed : tokenize text = .error failure) :
    ∃ token : Token, token.FirstFault (Lexer.ofText text).stream ∧
      failure.message = token.kind.describe ∧ failure.span = token.span := by
  rw [tokenize] at failed
  rcases (Lexer.ofText text).tokenize_stream with
    ⟨-, whole⟩ | ⟨front, token, back, cause, split, sound, fault, stopped⟩
  · rw [whole] at failed
    cases failed
  · rw [stopped] at failed
    cases failed
    have first : ∀ earlier ∈ front, ¬ earlier.Faulty :=
      fun earlier member => Token.not_faulty.mpr (sound earlier member)
    exact ⟨token, ⟨front, back, split, first, cause, fault⟩, by rw [fault]; rfl, rfl⟩

theorem tokenize_fails_iff (text : String) :
    (∃ failure, tokenize text = .error failure) ↔
      ∃ token ∈ (Lexer.ofText text).stream, token.Faulty := by
  constructor
  · rintro ⟨failure, failed⟩
    obtain ⟨token, ⟨front, back, split, -, faulty⟩, -, -⟩ := tokenize_stops failed
    exact ⟨token, by rw [split]; simp, faulty⟩
  · rintro ⟨token, member, cause, fault⟩
    rw [tokenize]
    rcases (Lexer.ofText text).tokenize_stream with
      ⟨sound, -⟩ | ⟨front, first, back, earlier, -, -, -, stopped⟩
    · exact absurd fault (sound token member cause)
    · exact ⟨_, stopped⟩

namespace Batch

variable {chunk : Chunk} {failure : Failure}

private theorem Chunk.answer_of_fault (fault : tokenize chunk.text = .error failure)
    (options : Options) : chunk.answer options = .error failure := by
  rw [answer]
  split
  · rw [fault, Except.map]
  · rw [parse_of_fault fault, Except.map]

theorem check_of_fault (fault : tokenize chunk.text = .error failure) (options : Options) :
    (check options chunk).accepted = false ∧
      writesOf (check options chunk).effects =
        (if options.tokens then [⟨.out, dumpTokens chunk.text⟩] else []) ++
          [⟨.diagnostics, failure.diagnostic chunk.text chunk.line⟩] := by
  have answer := Chunk.answer_of_fault fault options
  have follows := check_follows options chunk
  constructor
  · rw [follows.accepted, Chunk.isRejected, answer]
    rfl
  · rw [follows.writes, Chunk.writes, answer]

theorem check_dump_rejects {options : Options} (dump : options.tokens = true) :
    (check options chunk).accepted = false ↔ ∃ failure, tokenize chunk.text = .error failure := by
  rw [(check_follows options chunk).accepted, Chunk.isRejected, Chunk.answer, if_pos dump]
  cases tokenize chunk.text with
  | ok tokens => simp [Except.map, Except.isOk, Except.toBool]
  | error failure => simp [Except.map, Except.isOk, Except.toBool]

theorem toList_sent_dump {options : Options} (dump : options.tokens = true) :
    (sent .out (writesOf (check options chunk).effects)).toList =
      ((Lexer.ofText chunk.text).stream.map fun token =>
        Dump.row token.span token.kind.describe.toList).flatten := by
  have single : sent .out (writesOf (check options chunk).effects) = dumpTokens chunk.text := by
    have joined : String.join [dumpTokens chunk.text] = dumpTokens chunk.text :=
      String.empty_append
    rw [(check_follows options chunk).writes, Chunk.writes, Chunk.answer, if_pos dump, if_pos dump]
    cases tokenize chunk.text with
    | ok tokens => exact joined
    | error failure => exact joined
  rw [single, Dump.toList_dumpTokens_eq]

/-- Calls give the tokens of a text and then its end again and again, requests of any kind
hand these tokens out one piece behind the other, and the dump has a row for each of them.
With the row of a fault in it, and only then, the dump rejects the chunk; and then the parser
rejects it as well, with the same diagnostic of the first fault. -/
theorem one_stream (chunk : Chunk) (options : Options) (requests : List Lexer.Request) :
    let lexer := Lexer.ofText chunk.text
    let rows := lexer.stream.map fun token => Dump.row token.span token.kind.describe.toList
    let dumped := check { options with tokens := true } chunk
    let parsed := check { options with tokens := false } chunk
    (∀ n, lexer.call n =
      lexer.stream.getD n ⟨.eof, .point (Text.byteLength chunk.text.toList)⟩) ∧
    Lexer.Serves lexer.call 0 requests (lexer.serve requests) ∧
    (sent .out (writesOf dumped.effects)).toList = rows.flatten ∧
    (dumped.accepted = false ↔ ∃ token ∈ lexer.stream, token.Faulty) ∧
    (dumped.accepted = false ↔ ∃ row ∈ rows, Dump.TellsFault row) ∧
    (dumped.accepted = false → parsed.accepted = false ∧
      ∃ (failure : Failure) (token : Token), token.FirstFault lexer.stream ∧
        failure.message = token.kind.describe ∧ failure.span = token.span ∧
        let diagnostic : Write :=
          ⟨.diagnostics, failure.diagnostic chunk.text chunk.line⟩
        writesOf dumped.effects = [⟨.out, String.ofList rows.flatten⟩, diagnostic] ∧
        writesOf parsed.effects = [diagnostic]) := by
  intro lexer rows dumped parsed
  -- the dump is written in any case, and the first fault rejects behind it
  have rejects : dumped.accepted = false ↔ ∃ failure, tokenize chunk.text = .error failure :=
    check_dump_rejects rfl
  have faulty := rejects.trans (tokenize_fails_iff _)
  refine ⟨?_, lexer.serve_after 0 requests, toList_sent_dump rfl, faulty, ?_, ?_⟩
  · intro n
    rw [lexer.call_eq_getD, Lexer.ending_ofText]
  · rw [faulty, ← Dump.tellsFault_iff]
    simp only [rows, List.mem_map, exists_exists_and_eq_and]
    rfl
  · intro rejected
    obtain ⟨failure, fault⟩ := rejects.mp rejected
    obtain ⟨token, first, message, span⟩ := tokenize_stops fault
    obtain ⟨-, dump⟩ := check_of_fault fault { options with tokens := true }
    obtain ⟨reject, parse⟩ := check_of_fault fault { options with tokens := false }
    have written : dumpTokens chunk.text = String.ofList rows.flatten := by
      apply String.toList_injective
      rw [Dump.toList_dumpTokens_eq, String.toList_ofList]
    rw [written] at dump
    exact ⟨reject, failure, token, first, message, span, dump, parse⟩

def twoFaults : Chunk := ⟨7, "? a 'b"⟩

def halts : List Lexer.Request := [.tokenize, .next, .tokenize, .next, .tokenize]

/-- The dump goes on behind the first fault, which is told in either mode, and so do the
requests: a name, the other fault, and then the end for good. -/
theorem one_stream_two_faults :
    (check ⟨.sql, true, true⟩ twoFaults).accepted = false ∧
    (check ⟨.sql, false, true⟩ twoFaults).accepted = false ∧
    sent .out (writesOf (check ⟨.sql, true, true⟩ twoFaults).effects) =
      "0..1       Unexpected character: ?\n2..3       identifier a\n" ++
        "4..6       Unterminated string literal\n6..6       end of input\n" ∧
    (∃ failure : Failure, failure.message = "Unexpected character: ?" ∧
      failure.span = ⟨0, 1⟩ ∧
      writesOf (check ⟨.sql, false, true⟩ twoFaults).effects =
        [⟨.diagnostics, failure.diagnostic twoFaults.text 7⟩]) ∧
    Lexer.Serves (Lexer.ofText twoFaults.text).call 0 halts
      [.tokens (.error ⟨.lexical (.unexpectedCharacter '?'), ⟨0, 1⟩⟩),
        .token ⟨.identifier "a", ⟨2, 3⟩⟩,
        .tokens (.error ⟨.lexical .unterminatedString, ⟨4, 6⟩⟩),
        .token ⟨.eof, ⟨6, 6⟩⟩,
        .tokens (.ok [⟨.eof, ⟨6, 6⟩⟩])] := by
  obtain ⟨-, serves, dumped, -, -, rejects⟩ := one_stream twoFaults ⟨.sql, true, true⟩ halts
  have stream : (Lexer.ofText twoFaults.text).stream =
      [⟨.fault (.unexpectedCharacter '?'), ⟨0, 1⟩⟩, ⟨.identifier "a", ⟨2, 3⟩⟩,
        ⟨.fault .unterminatedString, ⟨4, 6⟩⟩, ⟨.eof, ⟨6, 6⟩⟩] := by decide +kernel
  have rejected : (check ⟨.sql, true, true⟩ twoFaults).accepted = false := by decide +kernel
  obtain ⟨reject, failure, token, first, message, span, -, parsed⟩ := rejects rejected
  have replies : (Lexer.ofText twoFaults.text).serve halts =
      [.tokens (.error ⟨.lexical (.unexpectedCharacter '?'), ⟨0, 1⟩⟩),
        .token ⟨.identifier "a", ⟨2, 3⟩⟩,
        .tokens (.error ⟨.lexical .unterminatedString, ⟨4, 6⟩⟩),
        .token ⟨.eof, ⟨6, 6⟩⟩,
        .tokens (.ok [⟨.eof, ⟨6, 6⟩⟩])] := by decide +kernel
  have head : token = ⟨.fault (.unexpectedCharacter '?'), ⟨0, 1⟩⟩ := by
    obtain ⟨front, back, split, sound, -⟩ := first
    rw [stream] at split
    cases front with
    | nil => exact (List.cons.inj split).1.symm
    | cons earlier front =>
        obtain ⟨rfl, -⟩ := List.cons.inj split
        exact absurd ⟨_, rfl⟩ (sound _ List.mem_cons_self)
  subst head
  refine ⟨rejected, reject, ?_, ⟨failure, message, span, parsed⟩, ?_⟩
  · apply String.toList_injective
    rw [dumped, stream]
    decide +kernel
  · rwa [← replies]

end Batch

end CompactSql
