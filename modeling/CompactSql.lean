import CompactSql.Batch.Sink
import CompactSql.Main
import CompactSql.Proofs.Rejection
import CompactSql.Proofs.Recovery
import CompactSql.Proofs.Layout
import CompactSql.Proofs.Substitution
import CompactSql.Proofs.Token.Partition
import CompactSql.Proofs.Regrouping
import CompactSql.Proofs.Batch.Delivery
import CompactSql.Proofs.Batch.Formatting
import CompactSql.Proofs.Expectation
import CompactSql.Proofs.Respacing
import CompactSql.Proofs.Diagnostic
import CompactSql.Proofs.CursorSafety
import CompactSql.Proofs.Token.Parity
import CompactSql.Proofs.Batch.Modes
import CompactSql.Proofs.Batch.Composition
import CompactSql.Proofs.Embedding
import CompactSql.Proofs.Token.Quotation
import CompactSql.Proofs.Reparsing
import CompactSql.Proofs.Json.Determination
import CompactSql.Proofs.Batch.Coverage
import CompactSql.Proofs.Text.Resolution
