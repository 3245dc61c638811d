import Tabular.Main
import Tabular.Proofs.Failure
import Tabular.Proofs.Insertion
import Tabular.Proofs.Keyspace
import Tabular.Proofs.Rebuild
import Tabular.Proofs.Snapshot
import Tabular.Proofs.Transparency
import Tabular.Shell.Tree
import Tabular.Proofs.SchemaHistory
import Tabular.Proofs.Conversation
import Tabular.Proofs.Calls
import Tabular.Proofs.Candidates
import Tabular.Proofs.Change
import Tabular.Proofs.Deletion
import Tabular.Proofs.Retry
import Tabular.Proofs.Inventory
import Tabular.Proofs.SchemaChange
import Tabular.Proofs.Assignment
import Tabular.Proofs.Removal
import Tabular.Proofs.Grammar
import Tabular.Proofs.Paging
import Tabular.Proofs.Addition
import Tabular.Proofs.Inverse
import Tabular.Proofs.Corruption
import Tabular.Proofs.Planning
import Tabular.Proofs.Ranges
import Tabular.Proofs.Denotation
import Tabular.Proofs.Clause
import Tabular.Proofs.Rendering
import Tabular.Proofs.Primitives
import Tabular.Proofs.Enumeration
import Tabular.Proofs.KeyText
