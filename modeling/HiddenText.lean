import HiddenText.Ascending
import HiddenText.Codepoint
import HiddenText.CommandLine
import HiddenText.Config
import HiddenText.Config.Settings
import HiddenText.Errors
import HiddenText.FileSystem
import HiddenText.FileSystem.Edit
import HiddenText.Finding
import HiddenText.Json
import HiddenText.Main
import HiddenText.Numbers
import HiddenText.Options
import HiddenText.Outcome
import HiddenText.Path
import HiddenText.Proofs.Ascending
import HiddenText.Proofs.Classification
import HiddenText.Proofs.Classification.Spelling
import HiddenText.Proofs.Codepoint.Label
import HiddenText.Proofs.Codepoint.Range
import HiddenText.Proofs.Codepoint.RestrictedSet
import HiddenText.Proofs.Codepoint.Spelling
import HiddenText.Proofs.CommandLine
import HiddenText.Proofs.CommandLine.Override
import HiddenText.Proofs.Config.Document
import HiddenText.Proofs.Config.Extension
import HiddenText.Proofs.Config.Fields
import HiddenText.Proofs.Config.Settings
import HiddenText.Proofs.Config.Stored
import HiddenText.Proofs.FileSystem.Canonical
import HiddenText.Proofs.FileSystem.Entries
import HiddenText.Proofs.FileSystem.Lookup
import HiddenText.Proofs.FileSystem.PathsAgree
import HiddenText.Proofs.FileSystem.Unlisted
import HiddenText.Proofs.Finding
import HiddenText.Proofs.Finding.Edits
import HiddenText.Proofs.Inspection
import HiddenText.Proofs.Json.Grammar
import HiddenText.Proofs.Json.Write
import HiddenText.Proofs.Lists
import HiddenText.Proofs.Occurrences
import HiddenText.Proofs.Options
import HiddenText.Proofs.Options.Spelling
import HiddenText.Proofs.Outcome.Arrival
import HiddenText.Proofs.Outcome.Order
import HiddenText.Proofs.Path.Descent
import HiddenText.Proofs.Path.Spelling
import HiddenText.Proofs.Report.Confirmation
import HiddenText.Proofs.Report.Document
import HiddenText.Proofs.Report.Failures
import HiddenText.Proofs.Report.FindingLine
import HiddenText.Proofs.Report.Lines
import HiddenText.Proofs.Report.Listing
import HiddenText.Proofs.Results
import HiddenText.Proofs.Scan
import HiddenText.Proofs.Scan.Balance
import HiddenText.Proofs.Scan.Isolation
import HiddenText.Proofs.Scan.Limits
import HiddenText.Proofs.Scan.Location
import HiddenText.Proofs.Scan.Log
import HiddenText.Proofs.Scan.Noninterference
import HiddenText.Proofs.Scan.Pipeline
import HiddenText.Proofs.Scan.Policy
import HiddenText.Proofs.Scan.Pruning
import HiddenText.Proofs.Scan.Reports
import HiddenText.Proofs.Scan.Root
import HiddenText.Proofs.Scan.Schedules
import HiddenText.Proofs.Scan.Threads
import HiddenText.Proofs.Scan.Unlisted
import HiddenText.Proofs.Sink
import HiddenText.Proofs.Text.Lossy
import HiddenText.Proofs.Text.LowerCase
import HiddenText.Proofs.Text.Utf8
import HiddenText.Proofs.Text.WellFormed
import HiddenText.Proofs.Toml.Reader
import HiddenText.Proofs.Toml.Sound
import HiddenText.Proofs.Toml.Written
import HiddenText.Proofs.Walk.Cursor
import HiddenText.Proofs.Walk.Fate
import HiddenText.Proofs.Walk.Nesting
import HiddenText.Proofs.Walk.Order
import HiddenText.Proofs.Walk.RootError
import HiddenText.Proofs.Walk.Route
import HiddenText.Proofs.Walk.SameShape
import HiddenText.Proofs.Walk.Unlisted
import HiddenText.Report
import HiddenText.Scan
import HiddenText.Scan.Pipeline
import HiddenText.Sink
import HiddenText.Text.Characters
import HiddenText.Text.Quoted
import HiddenText.Text.Utf8
import HiddenText.Toml.Document
import HiddenText.Toml.Reader
import HiddenText.Toml.Scalar
import HiddenText.Toml.Text
import HiddenText.Toml.Value
import HiddenText.Walk
import HiddenText.Walk.Cursor
