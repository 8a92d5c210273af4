import WikiDocs.Main
import WikiDocs.Proofs.Accounts
import WikiDocs.Proofs.Alignment
import WikiDocs.Proofs.Arbitration
import WikiDocs.Proofs.BlockLines
import WikiDocs.Proofs.BlockStarts
import WikiDocs.Proofs.Bodies
import WikiDocs.Proofs.CheckedSetting
import WikiDocs.Proofs.Composition
import WikiDocs.Proofs.Confinement
import WikiDocs.Proofs.Documents
import WikiDocs.Proofs.FileRuns
import WikiDocs.Proofs.FinishedLines
import WikiDocs.Proofs.Handles
import WikiDocs.Proofs.Headings
import WikiDocs.Proofs.ImageReferences
import WikiDocs.Proofs.IndentedTables
import WikiDocs.Proofs.Items
import WikiDocs.Proofs.Joining
import WikiDocs.Proofs.Latin1
import WikiDocs.Proofs.Lenient
import WikiDocs.Proofs.Lifecycle
import WikiDocs.Proofs.LineCounts
import WikiDocs.Proofs.LineReadings
import WikiDocs.Proofs.LongerTexts
import WikiDocs.Proofs.NormalLines
import WikiDocs.Proofs.OpenTables
import WikiDocs.Proofs.Paragraphs
import WikiDocs.Proofs.Progress
import WikiDocs.Proofs.Recognition
import WikiDocs.Proofs.RowGroups
import WikiDocs.Proofs.SingleColumn
import WikiDocs.Proofs.SpanRequests
import WikiDocs.Proofs.Strict
import WikiDocs.Proofs.TableLine
import WikiDocs.Proofs.UnbrokenTables
import WikiDocs.Proofs.Unmarked
import WikiDocs.Sink.Refusing
import WikiDocs.Token.Pattern
