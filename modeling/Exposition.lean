import Exposition.Command.Run
import Exposition.Log.Config
import Exposition.Main
import Exposition.Model.Same
import Exposition.Proofs.Convert.Batch
import Exposition.Proofs.Convert.Idempotent
import Exposition.Proofs.Convert.Report
import Exposition.Proofs.Decoder.Chunking
import Exposition.Proofs.Decoder.Truncation
import Exposition.Proofs.Document.Acceptance
import Exposition.Proofs.Document.Composition
import Exposition.Proofs.Document.CounterNames
import Exposition.Proofs.Document.Exemplars
import Exposition.Proofs.Document.ImpliedBucket
import Exposition.Proofs.Document.Layout
import Exposition.Proofs.Document.Names
import Exposition.Proofs.Document.ReservedLabels
import Exposition.Proofs.Document.SampleOrder
import Exposition.Proofs.Encode.Accounting
import Exposition.Proofs.Encode.Course
import Exposition.Proofs.Encode.ExplicitBucket
import Exposition.Proofs.Encode.Series
import Exposition.Proofs.Encode.Table
import Exposition.Proofs.Encode.Timestamps
import Exposition.Proofs.Grammar.Language
import Exposition.Proofs.Line.Meaning
import Exposition.Proofs.Line.OpenMetricsGrammar
import Exposition.Proofs.Line.PrometheusLanguage
import Exposition.Proofs.Log.Level
import Exposition.Proofs.Model.Equality
import Exposition.Proofs.Number.Count
import Exposition.Proofs.Number.SampleText
import Exposition.Proofs.Text.Escape
