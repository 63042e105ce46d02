import AsmIndex.Source.Directive
import AsmIndex.Source.Line
import AsmIndex.Text.Utf8
import AsmIndex.Uri.Basic
import AsmIndex.Uri.Reader
import AsmIndex.Disk
import AsmIndex.Symbol.Scan
import AsmIndex.Json.Reader
import AsmIndex.Cache
import AsmIndex.Instruction
import AsmIndex.Buffer.Word
import AsmIndex.Editor.Outline
import AsmIndex.Editor.Search
import AsmIndex.Editor.Highlight
import AsmIndex.Editor.Hover
import AsmIndex.Editor.Definition
import AsmIndex.Editor.Completion
import AsmIndex.Format.Toml
import AsmIndex.Text.Lowercase
import AsmIndex.Text.Quoted
import AsmIndex.Format.Yaml
import AsmIndex.Settings.Layer
import AsmIndex.Settings.IncludePath
import AsmIndex.Server.Session
import AsmIndex.Proofs.Recursion
import AsmIndex.Proofs.Rescan
import AsmIndex.Proofs.OpenBuffers
import AsmIndex.Proofs.DiskChange
import AsmIndex.Proofs.Coherence
import AsmIndex.Proofs.Deletion
import AsmIndex.Proofs.LineBreaks
import AsmIndex.Proofs.Spans
import AsmIndex.Proofs.TokenOrder
import AsmIndex.Proofs.WordTokens
import AsmIndex.Proofs.ScannedNames
import AsmIndex.Proofs.HoverTokens
import AsmIndex.Proofs.Layers
import AsmIndex.Proofs.Footprint
import AsmIndex.Proofs.Provenance
import AsmIndex.Proofs.ScannedLines
import AsmIndex.Proofs.Outline
import AsmIndex.Proofs.DeclaredTokens
import AsmIndex.Proofs.MergeLaws
import AsmIndex.Proofs.SearchDirs
import AsmIndex.Proofs.Dependencies
import AsmIndex.Proofs.DecidingLines
import AsmIndex.Proofs.IncludeLines
import AsmIndex.Proofs.CompletionOrder
import AsmIndex.Proofs.SearchRanking
import AsmIndex.Proofs.Words
import AsmIndex.Proofs.RegisterCompletion
import AsmIndex.Proofs.TokenShape
import AsmIndex.Proofs.LabelLookup
import AsmIndex.Proofs.MacroNames
import AsmIndex.Proofs.ScanLaws
import AsmIndex.Proofs.ByteLines
import AsmIndex.Proofs.ClientFields
import AsmIndex.Proofs.SettingsLayers
import AsmIndex.Proofs.IncludeEntries
import AsmIndex.Proofs.ShownFiles
