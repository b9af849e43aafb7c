import CompactSql.Text.Escaped

/-!
# Log lines

What the command line reports about its own work.  How much is shown depends on
the verbosity: errors and information always, details from one on, the steps of
the rules from two on.
-/

namespace CompactSql

inductive Log.Level where
  | error | info | debug | trace
  deriving DecidableEq, Repr

inductive Log.Event where
  | readingFile (path : String)
  | checkingStatement (line : Nat)
  | tokenized (count : Nat)
  | backtracking (restored failedAt : Nat)
  | alternativeRejected (name : String)
  | parsedStatement (sql : String)
  | checkedStatements (total failed : Nat)
  | rejectedStatements (message : String)
  deriving DecidableEq, Repr

namespace Log

def Level.label : Level → String
  | error => "ERROR"
  | info => " INFO"
  | debug => "DEBUG"
  | trace => "TRACE"

def Level.isShown (verbosity : Nat) : Level → Bool
  | error | info => true
  | debug => 1 ≤ verbosity
  | trace => 2 ≤ verbosity

namespace Event

def level : Event → Level
  | rejectedStatements _ => .error
  | checkedStatements .. => .info
  | readingFile _ | checkingStatement _ | parsedStatement _ => .debug
  | tokenized _ | backtracking .. | alternativeRejected _ => .trace

def text : Event → String
  | readingFile path => "reading SQL file path=" ++ path
  | checkingStatement line => "checking statement line=" ++ toString line
  | tokenized count => "tokenized input count=" ++ toString count
  | backtracking restored failedAt =>
      "backtracking restored=" ++ toString restored ++ " failed_at=" ++
        toString failedAt
  | alternativeRejected name =>
      "alternative rejected alternative=" ++ Text.escape name
  | parsedStatement sql => "parsed statement stmt=" ++ sql
  | checkedStatements total failed =>
      "checked statements total=" ++ toString total ++ " failed=" ++
        toString failed
  | rejectedStatements message => message

def line (event : Event) : String :=
  event.level.label ++ " " ++ event.text ++ "\n"

end Event

end Log

end CompactSql
