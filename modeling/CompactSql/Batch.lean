import CompactSql.Batch.Chunk
import CompactSql.Diagnostic
import CompactSql.Log
import CompactSql.Parse
import CompactSql.Statement.Json
import CompactSql.Statement.Outline
import CompactSql.Statement.Sql
import CompactSql.Token.Dump

/-!
# Checking a batch

A batch is checked chunk by chunk; a chunk that is rejected does not keep the
others from being checked.  What the check writes and logs is a list of effects
in order, and the verdict counts the chunks that were rejected.
-/

namespace CompactSql

namespace Batch

inductive Format where
  | pretty | sql | json
  deriving DecidableEq, Repr

def Format.render (format : Format) (statement : Statement) : String :=
  match format with
  | pretty => statement.outline.expanded
  | sql => statement.toSql
  | json => statement.json.write

structure Options where
  format : Format
  tokens : Bool
  eachLine : Bool
  deriving DecidableEq, Repr

inductive Source where
  | inline (sql : String)
  | file (path : String)
  | stdin
  deriving DecidableEq, Repr

inductive IoFault where
  | fileNotFound
  | invalidUtf8
  | writeFailed
  | other (text : String)
  deriving DecidableEq, Repr

def IoFault.text : IoFault → String
  | fileNotFound => "No such file or directory (os error 2)"
  | invalidUtf8 => "stream did not contain valid UTF-8"
  | writeFailed => "failed to write whole buffer"
  | other text => text

inductive Problem where
  | io (fault : IoFault)
  | rejected (failed total : Nat)
  deriving DecidableEq, Repr

def Problem.message : Problem → String
  | io fault => "IO error: " ++ fault.text
  | rejected failed total =>
      toString failed ++ " of " ++ toString total ++
        " statement(s) failed to parse"

inductive Effect where
  | out (text : String)
  | diagnostic (text : String)
  | log (event : Log.Event)
  deriving DecidableEq, Repr

structure Report where
  effects : List Effect
  verdict : Except Problem Unit

structure Check where
  effects : List Effect
  accepted : Bool
  deriving DecidableEq, Repr

def accept (log : List Effect) (text : String) : Check :=
  ⟨log ++ [.out text], true⟩

def reject (chunk : Chunk) (log : List Effect) (failure : Failure) : Check :=
  ⟨log ++ [.diagnostic (failure.diagnostic chunk.text chunk.line)], false⟩

def tokenizedEffect (tokens : List Token) : Effect :=
  .log (.tokenized tokens.length)

def trailEffect : Grammar.Event → Effect
  | .backtracked restored failure =>
      .log (.backtracking restored failure.span.start)
  | .rejected name => .log (.alternativeRejected name)

def checkStatement (format : Format) (chunk : Chunk) : Check :=
  match tokenize chunk.text with
  | .error failure => reject chunk [] failure
  | .ok tokens =>
      let reading := readStatement tokens
      let log := tokenizedEffect tokens :: reading.trail.map trailEffect
      match reading.result with
      | .error failure => reject chunk log failure
      | .ok statement =>
          accept (log ++ [.log (.parsedStatement statement.toSql)])
            (format.render statement ++ "\n")

def checkTokens (chunk : Chunk) : Check :=
  let dump := [.out (dumpTokens chunk.text)]
  match tokenize chunk.text with
  | .error failure => reject chunk dump failure
  | .ok tokens => ⟨dump ++ [tokenizedEffect tokens], true⟩

def check (options : Options) (chunk : Chunk) : Check :=
  if options.tokens then checkTokens chunk
  else checkStatement options.format chunk

def checkText (options : Options) (text : String) : Report :=
  let chunks := Chunk.ofText options.eachLine text
  let checks := chunks.map (check options)
  let effects := (chunks.zip checks).flatMap fun (chunk, check) =>
    .log (.checkingStatement chunk.line) :: check.effects
  let total := checks.length
  let failed := checks.countP (!·.accepted)
  let summary :=
    if options.eachLine then [.log (.checkedStatements total failed)] else []
  ⟨effects ++ summary,
    if failed = 0 then .ok () else .error (.rejected failed total)⟩

def decode (bytes : ByteArray) : Except IoFault String :=
  match String.fromUTF8? bytes with
  | some text => .ok text
  | none => .error .invalidUtf8

/-- The text of a source, given what its file or the standard input holds. -/
def Source.text (content : Except IoFault ByteArray) :
    Source → Except IoFault String
  | inline sql => .ok sql
  | file _ | stdin => content >>= decode

def Source.effects : Source → List Effect
  | file path => [.log (.readingFile path)]
  | _ => []

def run (options : Options) (source : Source)
    (content : Except IoFault ByteArray) : Report :=
  match source.text content with
  | .error fault => ⟨source.effects, .error (.io fault)⟩
  | .ok text =>
      let report := checkText options text
      ⟨source.effects ++ report.effects, report.verdict⟩

end Batch

end CompactSql
