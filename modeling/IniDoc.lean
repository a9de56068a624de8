import IniDoc.Document.Description
import IniDoc.Main
import IniDoc.Storage.FileTree
import IniDoc.Storage.Memory
import IniDoc.Storage.Watched
import IniDoc.Workspace
import IniDoc.Proofs.ChainNames
import IniDoc.Proofs.Outline
import IniDoc.Proofs.WellFormed
import IniDoc.Proofs.Line
import IniDoc.Proofs.LineByLine
import IniDoc.Proofs.Encodings
import IniDoc.Proofs.Formatting
import IniDoc.Proofs.Unclosed
import IniDoc.Proofs.LedgerRuns
import IniDoc.Proofs.Merging
import IniDoc.Proofs.OutlineValues
import IniDoc.Proofs.Editing
import IniDoc.Proofs.Files
import IniDoc.Proofs.Setting
import IniDoc.Proofs.Folding
import IniDoc.Proofs.Observing
import IniDoc.Proofs.Transfers
import IniDoc.Proofs.Effects
import IniDoc.Proofs.MemoryRuns
import IniDoc.Proofs.Handles
import IniDoc.Proofs.HandleRuns
import IniDoc.Proofs.Joining
import IniDoc.Proofs.Preamble
import IniDoc.Proofs.Expressible
import IniDoc.Proofs.Sizes
import IniDoc.Proofs.Lookup
import IniDoc.Proofs.Loading
import IniDoc.Proofs.Listing
import IniDoc.Proofs.Transparency
import IniDoc.Proofs.ChainRuns
import IniDoc.Proofs.Sharing
import IniDoc.Proofs.Decoding
import IniDoc.Proofs.Passes
import IniDoc.Proofs.PassRuns
