import SchemaAlign.Case.Run
import SchemaAlign.Main
import SchemaAlign.Proofs.Parser.Columns
import SchemaAlign.Proofs.Parser.Statement
import SchemaAlign.Proofs.Parser.Reading
import SchemaAlign.Proofs.Parser.Sentence
import SchemaAlign.Proofs.Token.Lexer
import SchemaAlign.Proofs.Schema.Consistent
import SchemaAlign.Proofs.Schema.Edit
import SchemaAlign.Proofs.Schema.Diff
import SchemaAlign.Proofs.Schema.Update
import SchemaAlign.Proofs.Schema.WellFormed
import SchemaAlign.Proofs.Schema.Convergence
import SchemaAlign.Proofs.Schema.Equivalence
import SchemaAlign.Proofs.Parser.Outline
import SchemaAlign.Proofs.Schema.Rewriting
import SchemaAlign.Proofs.Schema.Layout
import SchemaAlign.Proofs.Schema.Loaded
import SchemaAlign.Proofs.Schema.Reload
import SchemaAlign.Proofs.FileTree.Path
import SchemaAlign.Proofs.Parser.Semicolon
import SchemaAlign.Proofs.Catalog
import SchemaAlign.Proofs.FileTree
import SchemaAlign.Proofs.FileTree.File
import SchemaAlign.Proofs.Sync.Job
import SchemaAlign.Proofs.Sync.Target
import SchemaAlign.Proofs.Sync.Files
import SchemaAlign.Proofs.Sync
import SchemaAlign.Proofs.Sync.Rehearsal
import SchemaAlign.Proofs.Sync.Directory
import SchemaAlign.Proofs.Token.Rule
import SchemaAlign.Proofs.Schema.Failure
import SchemaAlign.Proofs.Schema.Session
import SchemaAlign.Proofs.Parser.Stretch
import SchemaAlign.Proofs.Parser.Tiling
import SchemaAlign.Proofs.Schema.Changes
import SchemaAlign.Proofs.Schema.Cosmetic
import SchemaAlign.Proofs.Schema.Agreement
import SchemaAlign.Proofs.Parser.Grammar.Complete
import SchemaAlign.Proofs.Parser.Structure
import SchemaAlign.Proofs.Parser.Composition
import SchemaAlign.Proofs.Case
import SchemaAlign.Proofs.Schema.Order
import SchemaAlign.Proofs.Schema.Unedited
import SchemaAlign.Proofs.Catalog.Terminator
import SchemaAlign.Proofs.Parser.Grammar.Quoted
import SchemaAlign.Proofs.Parser.Grammar.Numeral
import SchemaAlign.Proofs.Parser.Captured
import SchemaAlign.Proofs.Parser.Nesting
import SchemaAlign.Proofs.Parser.Trigger
import SchemaAlign.Proofs.Parser.InnerSemicolon
import SchemaAlign.Proofs.Parser.Insertion.Text
import SchemaAlign.Proofs.Parser.Insertion.Table
import SchemaAlign.Proofs.Parser.Insertion
import SchemaAlign.Proofs.Location
import SchemaAlign.Proofs.Parser.Fault
import SchemaAlign.Proofs.Error
import SchemaAlign.Proofs.Schema.Addition
import SchemaAlign.Proofs.Catalog.Rows
import SchemaAlign.Proofs.Schema.Rebased
import SchemaAlign.Proofs.Version.Requirement
import SchemaAlign.Proofs.Parser.Wording.Sound
