import XsPrep.Main
import XsPrep.Build.Update
import XsPrep.Ordered.Sequence
import XsPrep.Text.Quoted
import XsPrep.Proofs.Preprocess.Matching
import XsPrep.Proofs.Preprocess.Mentions
import XsPrep.Proofs.Preprocess.Stripping
import XsPrep.Proofs.Preprocess.Composition
import XsPrep.Proofs.Preprocess.Termination
import XsPrep.Proofs.Files.Addresses
import XsPrep.Proofs.Preprocess.Once
import XsPrep.Proofs.Source.Rounds
import XsPrep.Proofs.Preprocess.Scan
import XsPrep.Proofs.Preprocess.Coverage
import XsPrep.Proofs.Source.Relocation
import XsPrep.Proofs.Preprocess.Inlining
import XsPrep.Proofs.Preprocess.Agreement
import XsPrep.Proofs.Preprocess.Blocks
import XsPrep.Proofs.Preprocess.Structure
import XsPrep.Proofs.Preprocess.Selection
import XsPrep.Proofs.Preprocess.Emission
import XsPrep.Proofs.Preprocess.Turns
import XsPrep.Proofs.Ordered.Tables
import XsPrep.Proofs.Preprocess.Opacity
import XsPrep.Proofs.Preprocess.History
import XsPrep.Proofs.Source.Tokens
import XsPrep.Proofs.Preprocess.PlainText
import XsPrep.Proofs.Preprocess.Locations
import XsPrep.Proofs.Source.Positions
import XsPrep.Proofs.Files.Contents
import XsPrep.Proofs.Source.Margins
import XsPrep.Proofs.Text.Trimming
import XsPrep.Proofs.Preprocess.Headings
import XsPrep.Proofs.Preprocess.Predefinition
import XsPrep.Proofs.Source.LineEnds
import XsPrep.Proofs.Preprocess.LineEnds
import XsPrep.Proofs.Files.Cleaning
import XsPrep.Proofs.Build.Candidates
import XsPrep.Proofs.Files.Writing
import XsPrep.Proofs.Document.Strings
import XsPrep.Proofs.Document.Layout
import XsPrep.Proofs.IncludeIndex.Storage
import XsPrep.Proofs.Guarded.Failure
import XsPrep.Proofs.Build.Generation
import XsPrep.Proofs.CommandLine.Delivery
import XsPrep.Proofs.IncludeIndex.Loading
import XsPrep.Proofs.Build.Partition
import XsPrep.Proofs.Build.Siblings
import XsPrep.Proofs.Build.Resolution
import XsPrep.Proofs.Build.Exclusion
import XsPrep.Proofs.Source.Literals
import XsPrep.Proofs.CommandLine.Placement
import XsPrep.Proofs.IncludeIndex.Additions
import XsPrep.Proofs.Preprocess.MacroNames
import XsPrep.Proofs.Build.SearchDirectories
