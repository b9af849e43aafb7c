import CompactSql.Batch

/-!
# The command line

Arguments are read one after the other.  An option may stand with its value in
one argument or take the next one; short options may share a dash; behind `--`
nothing is an option.  `--version` and `--help` take effect where they stand,
so that what is wrong behind them does no harm.
-/

namespace CompactSql

namespace CommandLine

open Batch (Effect Format IoFault Problem Report Source)

inductive UsageError where
  | unknownOption (option : String)
  | repeatedOption (option : String)
  | unwantedValue (option value : String)
  | missingValue (option : String)
  | unknownFormat (value : String)
  | unexpectedArgument (argument : String)
  | fileAndText
  deriving DecidableEq, Repr

def UsageError.message : UsageError → String
  | unknownOption option => "unexpected argument '" ++ option ++ "' found"
  | repeatedOption option =>
      "the argument '" ++ option ++ "' cannot be used multiple times"
  | unwantedValue option value =>
      "unexpected value '" ++ value ++ "' for '" ++ option ++ "' found"
  | missingValue option =>
      "a value is required for '" ++ option ++ "' but none was supplied"
  | unknownFormat value => "invalid value '" ++ value ++ "' for '--format'"
  | unexpectedArgument argument => "unexpected argument '" ++ argument ++ "' found"
  | fileAndText => "the argument '--file' cannot be used with an SQL text"

structure Settings where
  sql : Option String := none
  file : Option String := none
  format : Option Format := none
  tokens : Bool := false
  eachLine : Bool := false
  verbosity : Nat := 0
  deriving DecidableEq, Repr

inductive Request where
  | help
  | version
  | check (options : Batch.Options) (source : Source) (verbosity : Nat)
  deriving DecidableEq, Repr

inductive Flag where
  | tokens | eachLine | verbose | help | version
  deriving DecidableEq, Repr

inductive Valued where
  | file | format
  deriving DecidableEq, Repr

def Valued.text : Valued → String
  | file => "--file"
  | format => "--format"

def formatOf? : String → Option Format
  | "pretty" => some .pretty
  | "sql" => some .sql
  | "json" => some .json
  | _ => none

def readFormat (value : String) : Except UsageError Format :=
  match formatOf? value with
  | some format => .ok format
  | none => .error (.unknownFormat value)

def Settings.assign (settings : Settings) (value : String) :
    Valued → Except UsageError Settings
  | .file =>
      if value.isEmpty then .error (.missingValue "--file")
      else if settings.file.isSome then .error (.repeatedOption "--file")
      else .ok { settings with file := some value }
  | .format => do
      let format ← readFormat value
      if settings.format.isSome then .error (.repeatedOption "--format")
      else .ok { settings with format := some format }

def Settings.addText (settings : Settings) (text : String) :
    Except UsageError Settings :=
  if settings.sql.isSome then .error (.unexpectedArgument text)
  else .ok { settings with sql := some text }

def Settings.raise (settings : Settings) :
    Flag → Except UsageError (Settings ⊕ Request)
  | .tokens =>
      if settings.tokens then .error (.repeatedOption "--tokens")
      else .ok (.inl { settings with tokens := true })
  | .eachLine =>
      if settings.eachLine then .error (.repeatedOption "--each-line")
      else .ok (.inl { settings with eachLine := true })
  | .verbose => .ok (.inl { settings with verbosity := settings.verbosity + 1 })
  | .help => .ok (.inr .help)
  | .version => .ok (.inr .version)

/-- What one argument comes to; `awaiting` takes the next one as its value. -/
inductive Step where
  | go (settings : Settings)
  | awaiting (settings : Settings) (option : Valued)
  | stop (request : Request)
  deriving DecidableEq, Repr

def longFlag? : String → Option Flag
  | "tokens" => some .tokens
  | "each-line" => some .eachLine
  | "verbose" => some .verbose
  | "help" => some .help
  | "version" => some .version
  | _ => none

def longValued? : String → Option Valued
  | "file" => some .file
  | "format" => some .format
  | _ => none

def splitValue (text : List Char) : List Char × Option (List Char) :=
  match text.dropWhile (· != '=') with
  | [] => (text, none)
  | _ :: value => (text.takeWhile (· != '='), some value)

def longStep (settings : Settings) (text : List Char) : Except UsageError Step :=
  let (letters, value) := splitValue text
  let name := String.ofList letters
  match longFlag? name, longValued? name, value with
  | some flag, _, none => do
      match ← settings.raise flag with
      | .inl settings => return .go settings
      | .inr request => return .stop request
  | some _, _, some value =>
      .error (.unwantedValue ("--" ++ name) (String.ofList value))
  | none, some option, none => .ok (.awaiting settings option)
  | none, some option, some value =>
      return .go (← settings.assign (String.ofList value) option)
  | none, none, _ => .error (.unknownOption ("--" ++ name))

def shortFlag? : Char → Option Flag
  | 'v' => some .verbose
  | 'h' => some .help
  | 'V' => some .version
  | _ => none

/-- The value of a short option behind its letter; an equals sign between the
two is no part of it. -/
def shortValue : List Char → List Char
  | '=' :: value => value
  | value => value

def shortStep (settings : Settings) : List Char → Except UsageError Step
  | [] => .ok (.go settings)
  | 'f' :: [] => .ok (.awaiting settings .file)
  | 'f' :: value =>
      return .go (← settings.assign (String.ofList (shortValue value)) .file)
  | letter :: letters =>
      match shortFlag? letter with
      | none => .error (.unknownOption (String.ofList ['-', letter]))
      | some flag => do
          match ← settings.raise flag with
          | .inl settings => shortStep settings letters
          | .inr request => return .stop request

def looksLikeOption (argument : String) : Bool :=
  match argument.toList with
  | '-' :: _ :: _ => true
  | _ => false

def argumentStep (settings : Settings) (argument : String) :
    Except UsageError Step :=
  match argument.toList with
  | '-' :: '-' :: text => longStep settings text
  | '-' :: letter :: letters => shortStep settings (letter :: letters)
  | _ => return .go (← settings.addText argument)

def defaultFormat : Format := .sql

/-- The settings as a request.  The format of the environment counts only where
no argument gives one. -/
def Settings.request (settings : Settings) (environment : Option String) :
    Except UsageError Request := do
  let format ←
    match settings.format, environment with
    | some format, _ => .ok format
    | none, some value => readFormat value
    | none, none => .ok defaultFormat
  let source ←
    match settings.sql, settings.file with
    | some _, some _ => .error .fileAndText
    | some sql, none => .ok (Source.inline sql)
    | none, some path => .ok (Source.file path)
    | none, none => .ok Source.stdin
  return .check ⟨format, settings.tokens, settings.eachLine⟩ source
    settings.verbosity

def readArguments (environment : Option String) (settings : Settings) :
    List String → Except UsageError Request
  | [] => settings.request environment
  | "--" :: texts => do
      let settings ← texts.foldlM Settings.addText settings
      settings.request environment
  | argument :: others => do
      match ← argumentStep settings argument with
      | .go settings => readArguments environment settings others
      | .stop request => return request
      | .awaiting settings option =>
          match others with
          | [] => .error (.missingValue option.text)
          | value :: others =>
              if looksLikeOption value then .error (.missingValue option.text)
              else do
                let settings ← settings.assign value option
                readArguments environment settings others

def requestOf (arguments : List String) (environment : Option String) :
    Except UsageError Request :=
  readArguments environment {} arguments

def versionText : String := "flint-sql 0.1.0\n"

def helpText : String :=
  "Parse and pretty-print statements of the flint-sql dialect\n\n" ++
    "Usage: flint-sql [OPTIONS] [SQL]\n\n" ++
    "Arguments:\n" ++
    "  [SQL]  SQL text to parse (reads --file or stdin when omitted)\n\n" ++
    "Options:\n" ++
    "  -f, --file <FILE>      Read SQL from a file\n" ++
    "      --format <FORMAT>  pretty, sql or json [env: FLINT_SQL_FORMAT] " ++
    "[default: sql]\n" ++
    "      --tokens           Print the token stream instead of the statement\n" ++
    "      --each-line        Treat every non-blank line as a statement\n" ++
    "  -v, --verbose          Enable verbose output (repeat for trace output)\n" ++
    "  -h, --help             Print help\n" ++
    "  -V, --version          Print version\n"

structure Exit where
  status : Nat
  stdout : String
  stderr : String
  deriving DecidableEq, Repr

def stdoutOf : Effect → String
  | .out text => text
  | _ => ""

def stderrOf (verbosity : Nat) : Effect → String
  | .diagnostic text => text
  | .log event => if event.level.isShown verbosity then event.line else ""
  | .out _ => ""

def notice : Problem → String
  | .rejected failed total =>
      (Log.Event.rejectedStatements (Problem.rejected failed total).message).line
  | .io fault =>
      "Error: " ++ (Problem.io fault).message ++ "\n\nCaused by:\n    " ++
        fault.text ++ "\n"

def exitOf (verbosity : Nat) (report : Report) : Exit :=
  let stdout := String.join (report.effects.map stdoutOf)
  let stderr := String.join (report.effects.map (stderrOf verbosity))
  match report.verdict with
  | .ok () => ⟨0, stdout, stderr⟩
  | .error problem => ⟨1, stdout, stderr ++ notice problem⟩

def Request.run (content : Except IoFault ByteArray) : Request → Exit
  | help => ⟨0, helpText, ""⟩
  | version => ⟨0, versionText, ""⟩
  | check options source verbosity =>
      exitOf verbosity (Batch.run options source content)

def refusal (error : UsageError) : Exit :=
  ⟨2, "", "error: " ++ error.message ++
    "\n\nFor more information, try '--help'.\n"⟩

end CommandLine

end CompactSql
