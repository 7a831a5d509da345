import ChartSchema.Chart.Periodic
import ChartSchema.Document.Printer
import ChartSchema.Rehearsal.Scene
import ChartSchema.Settings.Reader
import ChartSchema.Proofs.Chart.Staleness
import ChartSchema.Proofs.Chart.Teardown
import ChartSchema.Proofs.Resolution.Inheritance
import ChartSchema.Proofs.Resolution.Merging
import ChartSchema.Proofs.Resolution.Substitution
import ChartSchema.Proofs.Resolution.Idempotence
import ChartSchema.Proofs.Resolution.Locality
import ChartSchema.Proofs.Digest.Boundaries
import ChartSchema.Proofs.Document.Building
import ChartSchema.Proofs.Document.Overwriting
import ChartSchema.Proofs.Document.Places
import ChartSchema.Proofs.Document.RoundTrip
import ChartSchema.Proofs.Document.Grammar
import ChartSchema.Proofs.Document.Recovery
import ChartSchema.Proofs.Document.Reprinting
import ChartSchema.Proofs.Document.Confinement
import ChartSchema.Proofs.Document.Lexemes
import ChartSchema.Proofs.Document.Cursors
import ChartSchema.Proofs.Document.Slicing
import ChartSchema.Proofs.Document.Spans
import ChartSchema.Proofs.Expr.Rendering
import ChartSchema.Proofs.Expr.Precedence
import ChartSchema.Proofs.Cache.Entries
import ChartSchema.Proofs.Cache.Recency
import ChartSchema.Proofs.Cache.Expiry
import ChartSchema.Proofs.Cache.Inclusion
import ChartSchema.Proofs.Fetch.Attempts
import ChartSchema.Proofs.Fetch.Runs
import ChartSchema.Proofs.Fetch.Caching
import ChartSchema.Proofs.Fetch.Origins
import ChartSchema.Proofs.Fetch.Invalidation
import ChartSchema.Proofs.Fetch.Scopes
import ChartSchema.Proofs.Response.Canonical
import ChartSchema.Proofs.Response.Losses
import ChartSchema.Proofs.Validation.Usability
import ChartSchema.Proofs.DataPath.Writing
import ChartSchema.Proofs.Document.Truncation
import ChartSchema.Proofs.DataPath.Mapping
import ChartSchema.Proofs.Source.Rereading
import ChartSchema.Proofs.Fetch.Headers
import ChartSchema.Proofs.Expr.Comparisons
import ChartSchema.Proofs.Value.FieldMaps
import ChartSchema.Proofs.Fetch.Placeholders
import ChartSchema.Proofs.Source.Spellings
