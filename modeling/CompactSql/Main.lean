import CompactSql.CommandLine

/-!
# The program

Reads the arguments, the environment and the source, and leaves the decisions
to `CommandLine`.
-/

open CompactSql CompactSql.CommandLine
open CompactSql.Batch (IoFault Source)

namespace CompactSql.Program

def faultOf : IO.Error → IoFault
  | .noFileOrDirectory .. => .fileNotFound
  | error => .other (toString error)

def contentOf (source : Source) : IO (Except IoFault ByteArray) := do
  let read : IO ByteArray :=
    match source with
    | .inline _ => pure .empty
    | .file path => IO.FS.readBinFile path
    | .stdin => do (← IO.getStdin).readBinToEnd
  match ← read.toBaseIO with
  | .ok bytes => return .ok bytes
  | .error error => return .error (faultOf error)

def answer (request : Request) : IO Exit :=
  match request with
  | .check _ source _ => return request.run (← contentOf source)
  | _ => return request.run (.ok .empty)

end CompactSql.Program

def main (arguments : List String) : IO UInt32 := do
  let environment ← IO.getEnv "FLINT_SQL_FORMAT"
  let exit ←
    match requestOf arguments environment with
    | .ok request => CompactSql.Program.answer request
    | .error error => pure (refusal error)
  IO.print exit.stdout
  IO.eprint exit.stderr
  return exit.status.toUInt32
