import StubWriter.Main
import StubWriter.Proofs.Resolution.Members
import StubWriter.Proofs.Hierarchy.Supply
import StubWriter.Proofs.Hierarchy.Obligations
import StubWriter.Proofs.Hierarchy.Reabstraction
import StubWriter.Proofs.Library.Meaning
import StubWriter.Proofs.Library.Describing
import StubWriter.Proofs.Grammar.Forward
import StubWriter.Proofs.Grammar.Rules
import StubWriter.Proofs.Grammar.Declared
import StubWriter.Proofs.TypeGraph
import StubWriter.Proofs.Assignability
import StubWriter.Proofs.Hierarchy.Determined
import StubWriter.Proofs.Library.Ancestry
import StubWriter.Proofs.Library.Memory
import StubWriter.Proofs.Library.Loading
import StubWriter.Proofs.Library.Given
import StubWriter.Proofs.CompilationUnit
import StubWriter.Proofs.Library.Histories
import StubWriter.Proofs.Hierarchy.Stages
import StubWriter.Proofs.Library.Stages
import StubWriter.Proofs.Resolution.Cover
import StubWriter.Proofs.Path
import StubWriter.Proofs.Library.Added
import StubWriter.Proofs.StubSource
import StubWriter.Proofs.Restubbing
import StubWriter.Proofs.Disk
import StubWriter.Proofs.Moves
import StubWriter.Proofs.Library.Snapshots
import StubWriter.Proofs.Generation.Archive
import StubWriter.Proofs.Resolution.Decisions
import StubWriter.Proofs.Hierarchy.Exposed
import StubWriter.Proofs.Hierarchy.Missing
import StubWriter.Proofs.Hierarchy.Ways
import StubWriter.Proofs.Generation.Stages
import StubWriter.Proofs.Generation.Again
import StubWriter.Proofs.Library.LoadOrder
import StubWriter.Proofs.Library.ArchiveRoot
import StubWriter.Proofs.Library.Relabeled
import StubWriter.Proofs.Library.Filed
import StubWriter.Proofs.Supertypes
import StubWriter.Proofs.Library.Existence
import StubWriter.Proofs.Library.Retries
import StubWriter.Proofs.Library.Searches
import StubWriter.Proofs.Generation.Shelves
import StubWriter.Proofs.Library.Imports
import StubWriter.Proofs.Library.TypeParameters
import StubWriter.Proofs.Library.Nesting
import StubWriter.Proofs.Library.InnerClasses
import StubWriter.Proofs.StubText
import StubWriter.Proofs.Jar.AllOrNothing
import StubWriter.Proofs.Generation.Access
import StubWriter.Proofs.Generation.Lookup
