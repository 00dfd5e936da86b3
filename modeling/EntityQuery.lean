import EntityQuery.CommandLine
import EntityQuery.Condition
import EntityQuery.Criteria
import EntityQuery.Criteria.Compile
import EntityQuery.Criteria.Mapping
import EntityQuery.Criteria.Sql
import EntityQuery.Dataset.Declaration
import EntityQuery.Dataset.Load
import EntityQuery.Dataset.Shown
import EntityQuery.Dataset.Store
import EntityQuery.Execution.Binding
import EntityQuery.Execution.Collection
import EntityQuery.Execution.Error
import EntityQuery.Execution.Executor
import EntityQuery.Execution.Memory
import EntityQuery.Execution.Owned
import EntityQuery.Execution.Permute
import EntityQuery.Expression
import EntityQuery.Expression.Handle
import EntityQuery.Expression.OfPredicate
import EntityQuery.Instance
import EntityQuery.Json
import EntityQuery.Json.Read
import EntityQuery.Json.Token
import EntityQuery.Like
import EntityQuery.Like.Regex
import EntityQuery.Main
import EntityQuery.Matcher
import EntityQuery.Number.Double
import EntityQuery.Number.Shortest
import EntityQuery.Number.Written
import EntityQuery.Operator
import EntityQuery.Page
import EntityQuery.ParseError
import EntityQuery.Path
import EntityQuery.Preparation.Coerce
import EntityQuery.Preparation.Error
import EntityQuery.Preparation.Query
import EntityQuery.Preparation.Rule
import EntityQuery.Proofs.Criteria.Blank
import EntityQuery.Proofs.Criteria.Correct
import EntityQuery.Proofs.Criteria.ForeignKeys
import EntityQuery.Proofs.Criteria.Kept
import EntityQuery.Proofs.Criteria.Leaf
import EntityQuery.Proofs.Criteria.Paths
import EntityQuery.Proofs.Criteria.Placeholders
import EntityQuery.Proofs.Criteria.RootRows
import EntityQuery.Proofs.Criteria.Scope
import EntityQuery.Proofs.Criteria.Semantics
import EntityQuery.Proofs.Criteria.Shared
import EntityQuery.Proofs.Criteria.Steps
import EntityQuery.Proofs.Criteria.Stored
import EntityQuery.Proofs.Criteria.WellScoped
import EntityQuery.Proofs.Criteria.Woven
import EntityQuery.Proofs.Dataset.Identity
import EntityQuery.Proofs.Dataset.Loaded
import EntityQuery.Proofs.Dataset.References
import EntityQuery.Proofs.Execution.Agreement
import EntityQuery.Proofs.Execution.AnyElement
import EntityQuery.Proofs.Execution.Complement
import EntityQuery.Proofs.Execution.Decided
import EntityQuery.Proofs.Execution.Executable
import EntityQuery.Proofs.Execution.Idle
import EntityQuery.Proofs.Execution.InPlace
import EntityQuery.Proofs.Execution.Membership
import EntityQuery.Proofs.Execution.Ordered
import EntityQuery.Proofs.Execution.Owned
import EntityQuery.Proofs.Execution.Paged
import EntityQuery.Proofs.Execution.Sorted
import EntityQuery.Proofs.Grammar.Complete
import EntityQuery.Proofs.Grammar.Completed
import EntityQuery.Proofs.Grammar.LookAhead
import EntityQuery.Proofs.Grammar.Parsed
import EntityQuery.Proofs.Grammar.Phrases
import EntityQuery.Proofs.Grammar.Sound
import EntityQuery.Proofs.Instance.Fits
import EntityQuery.Proofs.Like.Spelled
import EntityQuery.Proofs.Like.Split
import EntityQuery.Proofs.Number.Nearest
import EntityQuery.Proofs.Number.Plain
import EntityQuery.Proofs.Number.ReadBack
import EntityQuery.Proofs.Predicate.Flat
import EntityQuery.Proofs.Predicate.Trim
import EntityQuery.Proofs.Predicate.Truth
import EntityQuery.Proofs.Predicate.Turned
import EntityQuery.Proofs.Preparation.Accepted
import EntityQuery.Proofs.Preparation.Alike
import EntityQuery.Proofs.Preparation.Behind
import EntityQuery.Proofs.Preparation.Calls
import EntityQuery.Proofs.Preparation.Changed
import EntityQuery.Proofs.Preparation.Checked
import EntityQuery.Proofs.Preparation.Combined
import EntityQuery.Proofs.Preparation.Conversion
import EntityQuery.Proofs.Preparation.Depth
import EntityQuery.Proofs.Preparation.Endless
import EntityQuery.Proofs.Preparation.Equal
import EntityQuery.Proofs.Preparation.Expanded
import EntityQuery.Proofs.Preparation.Frozen
import EntityQuery.Proofs.Preparation.Known
import EntityQuery.Proofs.Preparation.Literals
import EntityQuery.Proofs.Preparation.Meaning
import EntityQuery.Proofs.Preparation.Nested
import EntityQuery.Proofs.Preparation.Operands
import EntityQuery.Proofs.Preparation.Plain
import EntityQuery.Proofs.Preparation.Preserved
import EntityQuery.Proofs.Preparation.Reached
import EntityQuery.Proofs.Preparation.Rendered
import EntityQuery.Proofs.Preparation.Rerendered
import EntityQuery.Proofs.Preparation.Resettled
import EntityQuery.Proofs.Preparation.Rewritten
import EntityQuery.Proofs.Preparation.Settled
import EntityQuery.Proofs.Preparation.Sided
import EntityQuery.Proofs.Preparation.Spread
import EntityQuery.Proofs.Preparation.Supplied
import EntityQuery.Proofs.Preparation.Turned
import EntityQuery.Proofs.Preparation.Typed
import EntityQuery.Proofs.Preparation.Verbatim
import EntityQuery.Proofs.Preparation.VirtualProperty
import EntityQuery.Proofs.RawQuery.Image
import EntityQuery.Proofs.RawQuery.ReadAs
import EntityQuery.Proofs.RawQuery.Refused
import EntityQuery.Proofs.RawQuery.Reread
import EntityQuery.Proofs.RawQuery.RereadWhole
import EntityQuery.Proofs.RawQuery.WellFormed
import EntityQuery.Proofs.Registry.Admits
import EntityQuery.Proofs.Registry.Built
import EntityQuery.Proofs.Registry.Closed
import EntityQuery.Proofs.Registry.Legible
import EntityQuery.Proofs.Registry.Resolved
import EntityQuery.Proofs.Shell.Kept
import EntityQuery.Proofs.Sorting.Divided
import EntityQuery.Proofs.Sorting.Permutation
import EntityQuery.Proofs.Sorting.Ranked
import EntityQuery.Proofs.Sorting.Rearranged
import EntityQuery.Proofs.Sorting.Stable
import EntityQuery.Proofs.Text.Letter
import EntityQuery.Proofs.Text.Numeral
import EntityQuery.Proofs.Time.Literals
import EntityQuery.Proofs.Time.ReadBack
import EntityQuery.Proofs.Time.StoredOrder
import EntityQuery.Proofs.Token.Content
import EntityQuery.Proofs.Token.Extended
import EntityQuery.Proofs.Token.Layout
import EntityQuery.Proofs.Token.Lexemes
import EntityQuery.Proofs.Token.Lexes
import EntityQuery.Proofs.Token.Positions
import EntityQuery.Proofs.Value.Comparison
import EntityQuery.PropertyType
import EntityQuery.Query
import EntityQuery.RawQuery
import EntityQuery.RawQuery.Parse
import EntityQuery.RawQuery.Read
import EntityQuery.Registry
import EntityQuery.Registry.Builder
import EntityQuery.Registry.Resolve
import EntityQuery.Shell
import EntityQuery.Shell.Command
import EntityQuery.Shell.Session
import EntityQuery.SortOrder
import EntityQuery.Sorting
import EntityQuery.Sorting.Block
import EntityQuery.Sorting.Insertion
import EntityQuery.Sorting.Merge
import EntityQuery.Sorting.Partition
import EntityQuery.Sorting.Run
import EntityQuery.Strategy
import EntityQuery.Text.CharRange
import EntityQuery.Text.Hidden
import EntityQuery.Text.Letter
import EntityQuery.Text.Lines
import EntityQuery.Text.Numeral
import EntityQuery.Text.Quoted
import EntityQuery.Text.Space
import EntityQuery.Time.Date
import EntityQuery.Time.Format
import EntityQuery.Time.Written
import EntityQuery.Token
import EntityQuery.Token.Scan
import EntityQuery.Translator
import EntityQuery.Value
