import Criteria.Main
import Criteria.Proofs.Filter.Grammar
import Criteria.Proofs.Filter.Literals
import Criteria.Proofs.Filter.Meaning
import Criteria.Proofs.Filter.Capture
import Criteria.Proofs.Filter.Precedence
import Criteria.Proofs.Query.Backends
import Criteria.Proofs.Sql.Placeholders
import Criteria.Sql.Inspect
import Criteria.Tree
import Criteria.Proofs.Sql.Names
import Criteria.Proofs.Sql.Quoting
import Criteria.Proofs.Sql.Unambiguity
import Criteria.Proofs.Filter.Rewriting
import Criteria.Proofs.Filter.Longhand
import Criteria.Proofs.Sql.Reordering
import Criteria.Proofs.Filter.Reordering
import Criteria.Proofs.Sql.WellShaped
import Criteria.Proofs.Filter.WellShaped
import Criteria.Proofs.Sites
import Criteria.Proofs.Filter.Outcomes
import Criteria.Proofs.Sql.Mentions
import Criteria.Proofs.Query.Exposure
import Criteria.Proofs.Query.Assembly
import Criteria.Proofs.Culprits
import Criteria.Proofs.NameTable
import Criteria.Proofs.LastWrite
import Criteria.Proofs.Registry.Writes
import Criteria.Proofs.Schema.Loading
import Criteria.Proofs.Schema.Definitions
import Criteria.Proofs.Query.Dependence
import Criteria.Proofs.CustomField
import Criteria.Proofs.Filter.Dispatch
import Criteria.Proofs.Order.Entries
import Criteria.Proofs.Registry.Compilation
import Criteria.Proofs.Json.Tokens
import Criteria.Proofs.Json.Trees
import Criteria.Proofs.Json.Records
import Criteria.Proofs.Json.Keys
import Criteria.Proofs.Schema.Restoration
import Criteria.Proofs.Query.Restoration
import Criteria.Proofs.Sql.Appending
