import LibraryHeaders.CommandLine
import LibraryHeaders.Config
import LibraryHeaders.Datum
import LibraryHeaders.Decimal.Shortest
import LibraryHeaders.Directives
import LibraryHeaders.Disk
import LibraryHeaders.Exclusion
import LibraryHeaders.Extras
import LibraryHeaders.FileList
import LibraryHeaders.FileSystem.Basic
import LibraryHeaders.FileSystem.Host
import LibraryHeaders.FileSystem.Table
import LibraryHeaders.FileSystem.Tree
import LibraryHeaders.Glob
import LibraryHeaders.Header
import LibraryHeaders.IncludeName
import LibraryHeaders.InstallName
import LibraryHeaders.Json.Draft
import LibraryHeaders.Json.Fault
import LibraryHeaders.Json.Number
import LibraryHeaders.Json.Printer
import LibraryHeaders.Json.Token
import LibraryHeaders.Json.Value
import LibraryHeaders.Main
import LibraryHeaders.Path
import LibraryHeaders.Problem
import LibraryHeaders.Program
import LibraryHeaders.Proofs.Additions
import LibraryHeaders.Proofs.Carried
import LibraryHeaders.Proofs.Cluster
import LibraryHeaders.Proofs.Conservation
import LibraryHeaders.Proofs.Ending
import LibraryHeaders.Proofs.Exclusion
import LibraryHeaders.Proofs.FileSystem.Enumeration
import LibraryHeaders.Proofs.FileSystem.Leading
import LibraryHeaders.Proofs.FileSystem.Making
import LibraryHeaders.Proofs.FileSystem.Walk
import LibraryHeaders.Proofs.FileSystem.WellFormed
import LibraryHeaders.Proofs.FirstMatch
import LibraryHeaders.Proofs.FixedPoint
import LibraryHeaders.Proofs.Glob.Components
import LibraryHeaders.Proofs.Glob.Language
import LibraryHeaders.Proofs.Glob.Reading
import LibraryHeaders.Proofs.Independence
import LibraryHeaders.Proofs.Occurrences
import LibraryHeaders.Proofs.PathNames
import LibraryHeaders.Proofs.Promotion
import LibraryHeaders.Proofs.Rerun
import LibraryHeaders.Proofs.Sessions
import LibraryHeaders.Proofs.Stages
import LibraryHeaders.Report
import LibraryHeaders.Resolution
import LibraryHeaders.Session
import LibraryHeaders.Shape
import LibraryHeaders.Text.Blank
import LibraryHeaders.Text.Quoted
import LibraryHeaders.Text.Search
import LibraryHeaders.Text.Unprintable
import LibraryHeaders.Text.Utf8
import LibraryHeaders.Toml.Document
import LibraryHeaders.Toml.Scalar
import LibraryHeaders.Umbrella
import LibraryHeaders.Visibility
import LibraryHeaders.Proofs.Utf8
import LibraryHeaders.Proofs.FileSystem.Absolute
import LibraryHeaders.Proofs.FileSystem.Listed
import LibraryHeaders.Proofs.Directories
import LibraryHeaders.Proofs.Precedence
import LibraryHeaders.Proofs.SameFile
import LibraryHeaders.Proofs.Json.Numbers
import LibraryHeaders.Proofs.Json.Strings
import LibraryHeaders.Proofs.Json.Tokens
import LibraryHeaders.Proofs.Json.Documents
import LibraryHeaders.Proofs.FileLists
import LibraryHeaders.Proofs.WrittenFileLists
import LibraryHeaders.Proofs.Reports
import LibraryHeaders.Proofs.Displacement
import LibraryHeaders.Proofs.Glob.Widening
import LibraryHeaders.Proofs.Patterns
import LibraryHeaders.Proofs.InstallNames
import LibraryHeaders.Proofs.IncludeNames
import LibraryHeaders.Proofs.ExtraHeaders
import LibraryHeaders.Proofs.DirectiveUpdates
import LibraryHeaders.Proofs.LoadedFileLists
import LibraryHeaders.Proofs.TextReports
import LibraryHeaders.Proofs.Records
import LibraryHeaders.Proofs.Settings
import LibraryHeaders.Proofs.Arguments
