import CompactSql.Batch

/-!
# Limited sinks

A sink may hold no more than a number of bytes.  A write that does not fit
leaves the part that does and ends the run: nothing is written after it, and
the verdict gives way to the fault.
-/

namespace CompactSql.Batch

structure Sink where
  limit : Option Nat
  held : ByteArray

namespace Sink

def empty (limit : Option Nat) : Sink := ⟨limit, .empty⟩

def room (sink : Sink) (size : Nat) : Bool :=
  match sink.limit with
  | none => true
  | some limit => sink.held.size + size ≤ limit

def put (sink : Sink) (bytes : ByteArray) : Sink :=
  let held := sink.held ++ bytes
  match sink.limit with
  | none => { sink with held }
  | some limit => { sink with held := held.extract 0 limit }

end Sink

structure Delivery where
  out : ByteArray
  diagnostics : ByteArray
  verdict : Except Problem Unit

def deliver (verdict : Except Problem Unit) (out diagnostics : Sink) :
    List Effect → Delivery
  | [] => ⟨out.held, diagnostics.held, verdict⟩
  | .log _ :: effects => deliver verdict out diagnostics effects
  | .out text :: effects =>
      let bytes := text.toUTF8
      if out.room bytes.size then
        deliver verdict (out.put bytes) diagnostics effects
      else
        ⟨(out.put bytes).held, diagnostics.held, .error (.io .writeFailed)⟩
  | .diagnostic text :: effects =>
      let bytes := text.toUTF8
      if diagnostics.room bytes.size then
        deliver verdict out (diagnostics.put bytes) effects
      else
        ⟨out.held, (diagnostics.put bytes).held, .error (.io .writeFailed)⟩

/-- Writes a report into two sinks with these limits. -/
def Report.deliver (report : Report) (outLimit diagnosticLimit : Option Nat) :
    Delivery :=
  Batch.deliver report.verdict (.empty outLimit) (.empty diagnosticLimit)
    report.effects

end CompactSql.Batch
