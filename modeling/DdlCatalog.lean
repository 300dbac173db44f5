import DdlCatalog.Build.Builder
import DdlCatalog.Export.Catalog
import DdlCatalog.Grammar.Run
import DdlCatalog.Proofs.Build.Accumulation
import DdlCatalog.Proofs.Build.Bodies
import DdlCatalog.Proofs.Build.DeclarationOrder
import DdlCatalog.Proofs.Build.Integrity
import DdlCatalog.Proofs.Build.KeyInColumn
import DdlCatalog.Proofs.Build.KeyState
import DdlCatalog.Proofs.Build.QuotedEnum
import DdlCatalog.Proofs.Build.Rendering
import DdlCatalog.Proofs.Build.Reordering
import DdlCatalog.Proofs.Build.Rollback
import DdlCatalog.Proofs.Build.SelectedColumns
import DdlCatalog.Proofs.Build.SingleSchema
import DdlCatalog.Proofs.Build.Sources
import DdlCatalog.Proofs.Build.StoredText
import DdlCatalog.Proofs.Catalog.Continues
import DdlCatalog.Proofs.Config
import DdlCatalog.Proofs.Cursor.Statement
import DdlCatalog.Proofs.Grammar.Compose
import DdlCatalog.Proofs.Grammar.DefaultText
import DdlCatalog.Proofs.Grammar.Nesting
import DdlCatalog.Proofs.Grammar.NumberLiteral
import DdlCatalog.Proofs.Grammar.Parameters
import DdlCatalog.Proofs.Grammar.Placeholders
import DdlCatalog.Proofs.Grammar.Predicate
import DdlCatalog.Proofs.Grammar.TypeReading
import DdlCatalog.Proofs.OrderedMap
import DdlCatalog.Proofs.Snapshot.Catalog
import DdlCatalog.Proofs.Snapshot.Codec
import DdlCatalog.Proofs.Statement.Runs
import DdlCatalog.Proofs.Text.Excerpt
import DdlCatalog.Snapshot.Catalog
