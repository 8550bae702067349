import Blocklist.Category
import Blocklist.CommandLine.Command
import Blocklist.CommandLine.Run
import Blocklist.CommandLine.Switch
import Blocklist.Config
import Blocklist.Disk.Basic
import Blocklist.Disk.Tree
import Blocklist.Document
import Blocklist.Error
import Blocklist.Export
import Blocklist.Export.Json
import Blocklist.Fetch
import Blocklist.Fingerprint
import Blocklist.Gzip.Huffman
import Blocklist.Gzip.Inflate
import Blocklist.Gzip.Member
import Blocklist.Instant.Basic
import Blocklist.Instant.Text
import Blocklist.Intake
import Blocklist.Json.Basic
import Blocklist.Json.Decode
import Blocklist.Json.Reader
import Blocklist.Main
import Blocklist.Merge
import Blocklist.Metadata.Basic
import Blocklist.Metadata.Json
import Blocklist.Names
import Blocklist.Text.Basic
import Blocklist.Record.Basic
import Blocklist.Record.Json
import Blocklist.Rule.Classified
import Blocklist.Rule.Host
import Blocklist.Source.Json
import Blocklist.Store.Basic
import Blocklist.Store.File
import Blocklist.Store.Selection
import Blocklist.Text.Hidden
import Blocklist.Text.Utf8
import Blocklist.Yaml.Cursor
import Blocklist.Yaml.Decode
import Blocklist.Yaml.Node
import Blocklist.Yaml.Plain
import Blocklist.Yaml.Scalar
import Blocklist.Yaml.Tag
import Blocklist.Yaml.Token
import Blocklist.Yaml.Token.Lexer
import Blocklist.Yaml.Value
import Blocklist.Proofs.Record.Placing
import Blocklist.Proofs.Store.Positions
import Blocklist.Proofs.Store.Changes
import Blocklist.Proofs.Merge.Batching
import Blocklist.Proofs.Merge.History
import Blocklist.Proofs.Fingerprint
import Blocklist.Proofs.Text.Repetitions
import Blocklist.Proofs.Store.Ranking
import Blocklist.Proofs.Merge.Sightings
import Blocklist.Proofs.Intake.Arrivals
import Blocklist.Proofs.Intake.Growth
import Blocklist.Proofs.Intake.Publication
import Blocklist.Proofs.Intake.Provenance
import Blocklist.Proofs.Store.Lookups
import Blocklist.Proofs.Store.OrderedMap
import Blocklist.Proofs.Instant.RoundTrip
import Blocklist.Proofs.Json.RoundTrip
import Blocklist.Proofs.Record.RoundTrip
import Blocklist.Proofs.Disk.Atomic
import Blocklist.Proofs.Store.Requests
import Blocklist.Proofs.Store.Agreement
import Blocklist.Proofs.Store.Texts
import Blocklist.Proofs.Store.Rollback
import Blocklist.Proofs.Document.Exceptions
import Blocklist.Proofs.Fetch.Attempts
import Blocklist.Proofs.Fetch.Answers
import Blocklist.Proofs.Fetch.Delays
import Blocklist.Proofs.Text.Utf8
import Blocklist.Proofs.Fetch.Bodies
import Blocklist.Proofs.Fetch.Retrying
import Blocklist.Proofs.Text.Separators
import Blocklist.Proofs.Rule.Modifiers
import Blocklist.Proofs.Intake.Isolation
import Blocklist.Proofs.Intake.CutOff
import Blocklist.Proofs.Store.Reopening
import Blocklist.Proofs.Intake.Balance
import Blocklist.Proofs.Merge.Pending
import Blocklist.Proofs.Intake.Continuity
import Blocklist.Proofs.Merge.Repeating
import Blocklist.Proofs.Intake.Histories
import Blocklist.Proofs.Intake.Taking
import Blocklist.Proofs.Intake.Reordering
import Blocklist.Proofs.Intake.Rerunning
import Blocklist.Proofs.Intake.Statistics
import Blocklist.Proofs.Rule.Hosts
import Blocklist.Proofs.Document.Blocking
import Blocklist.Proofs.Text.Lines
import Blocklist.Proofs.Document.Rereading
import Blocklist.Proofs.Disk.Paths
import Blocklist.Proofs.Disk.Trees
import Blocklist.Proofs.Disk.Rooted
import Blocklist.Proofs.Export.Formats
import Blocklist.Proofs.Export.Documents
import Blocklist.Proofs.Text.Marks
import Blocklist.Proofs.Document.Comments
import Blocklist.Proofs.Text.Pattern
import Blocklist.Proofs.Rule.Tokens
import Blocklist.Proofs.Rule.Boundaries
import Blocklist.Proofs.Rule.Hiding
import Blocklist.Proofs.Merge.Spellings
import Blocklist.Proofs.Store.Choosing
import Blocklist.Proofs.Intake.Pieces
import Blocklist.Proofs.Intake.Layout
import Blocklist.Proofs.Text.Repairing
import Blocklist.Proofs.Export.Identifiers
import Blocklist.Proofs.Source.Resolving
import Blocklist.Proofs.Disk.Removals
import Blocklist.Proofs.Export.Cleaning
import Blocklist.Proofs.Store.Tallies
import Blocklist.Proofs.Store.Counting
import Blocklist.Proofs.Merge.Waiting
import Blocklist.Proofs.Gzip.Appending
