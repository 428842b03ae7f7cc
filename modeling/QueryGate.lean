import QueryGate.Bound
import QueryGate.ColumnCheck
import QueryGate.Connection
import QueryGate.Datum
import QueryGate.ErrorKind
import QueryGate.Fault
import QueryGate.Gate.Existence
import QueryGate.Gate.Grouping
import QueryGate.Gate.Outcome
import QueryGate.Gate.RowCap
import QueryGate.Gate.Structure
import QueryGate.Gate.Verdict
import QueryGate.Gate.Wording
import QueryGate.Matching.EditDistance
import QueryGate.Matching.Match
import QueryGate.Matching.NormalForm
import QueryGate.Matching.Score
import QueryGate.Matching.Synonyms
import QueryGate.Number.Binary64
import QueryGate.Number.Decimal
import QueryGate.Number.Shortest
import QueryGate.NumericSort
import QueryGate.Pipeline
import QueryGate.Proofs.Bound.Bounding
import QueryGate.Proofs.Bound.Clauses
import QueryGate.Proofs.Bound.MinimalEdit
import QueryGate.Proofs.Bound.Rebounding
import QueryGate.Proofs.Gate.AcceptedLimits
import QueryGate.Proofs.Gate.Conditions
import QueryGate.Proofs.Gate.Corrected
import QueryGate.Proofs.Gate.Denylist
import QueryGate.Proofs.Gate.FinalQuery
import QueryGate.Proofs.Gate.GroupAgreement
import QueryGate.Proofs.Gate.Numerals
import QueryGate.Proofs.Gate.OpaqueLiterals
import QueryGate.Proofs.Gate.OrdinaryNames
import QueryGate.Proofs.Gate.PhantomTables
import QueryGate.Proofs.Gate.RenamedStructure
import QueryGate.Proofs.Gate.RenamedWording
import QueryGate.Proofs.Gate.SelectQueries
import QueryGate.Proofs.Gate.SingleStatement
import QueryGate.Proofs.Gate.TableGate
import QueryGate.Proofs.Gate.WrittenNames
import QueryGate.Proofs.Matching.DistanceRows
import QueryGate.Proofs.Matching.EditScripts
import QueryGate.Proofs.Matching.Matches
import QueryGate.Proofs.Matching.MoreNames
import QueryGate.Proofs.Matching.ScoreBands
import QueryGate.Proofs.Matching.Unlike
import QueryGate.Proofs.Number.DecimalValue
import QueryGate.Proofs.Number.Finite
import QueryGate.Proofs.Number.Order
import QueryGate.Proofs.Pipeline.Answered
import QueryGate.Proofs.Pipeline.ExactQueries
import QueryGate.Proofs.Pipeline.Requests
import QueryGate.Proofs.Pipeline.SentStatement
import QueryGate.Proofs.Pipeline.WholeStatement
import QueryGate.Proofs.Repair.Again
import QueryGate.Proofs.Repair.Aliases
import QueryGate.Proofs.Repair.Bindings
import QueryGate.Proofs.Repair.ExistingNames
import QueryGate.Proofs.Repair.KeptAliases
import QueryGate.Proofs.Repair.Lookups
import QueryGate.Proofs.Repair.QualifiedColumns
import QueryGate.Proofs.Repair.Qualifiers
import QueryGate.Proofs.Repair.Renames
import QueryGate.Proofs.Repair.Settled
import QueryGate.Proofs.Repair.Spelling
import QueryGate.Proofs.Repair.Tracing
import QueryGate.Proofs.Result.PortableCells
import QueryGate.Proofs.Result.RowBounds
import QueryGate.Proofs.Result.RowCells
import QueryGate.Proofs.Schema.GrownTables
import QueryGate.Proofs.Schema.PlainMappings
import QueryGate.Proofs.Schema.PromptNames
import QueryGate.Proofs.Schema.Registry
import QueryGate.Proofs.Schema.Snapshots
import QueryGate.Proofs.Sort.CastKeys
import QueryGate.Proofs.Sort.DatedKeys
import QueryGate.Proofs.Sort.PlainQuotes
import QueryGate.Proofs.Sort.SortCasts
import QueryGate.Proofs.Sort.SortItems
import QueryGate.Proofs.Sql.AliasPlaces
import QueryGate.Proofs.Sql.AlikeTokens
import QueryGate.Proofs.Sql.ClauseScan
import QueryGate.Proofs.Sql.ColumnTokens
import QueryGate.Proofs.Sql.DeclaredAliases
import QueryGate.Proofs.Sql.EditedLiterals
import QueryGate.Proofs.Sql.FromClause
import QueryGate.Proofs.Sql.FromItems
import QueryGate.Proofs.Sql.FromScan
import QueryGate.Proofs.Sql.GroupedClauses
import QueryGate.Proofs.Sql.GroupedItems
import QueryGate.Proofs.Sql.GroupedQuery
import QueryGate.Proofs.Sql.LeadingWords
import QueryGate.Proofs.Sql.Lexing
import QueryGate.Proofs.Sql.ListItems
import QueryGate.Proofs.Sql.LiteralMask
import QueryGate.Proofs.Sql.LiteralRule
import QueryGate.Proofs.Sql.LiteralSpans
import QueryGate.Proofs.Sql.MaskedParts
import QueryGate.Proofs.Sql.NameSpans
import QueryGate.Proofs.Sql.Names
import QueryGate.Proofs.Sql.NamesBack
import QueryGate.Proofs.Sql.PlacedTokens
import QueryGate.Proofs.Sql.QualifiedPlaces
import QueryGate.Proofs.Sql.QuotedNames
import QueryGate.Proofs.Sql.Renaming
import QueryGate.Proofs.Sql.ScannedTrees
import QueryGate.Proofs.Sql.SelectEnds
import QueryGate.Proofs.Sql.SelectQuery
import QueryGate.Proofs.Sql.SelectTokens
import QueryGate.Proofs.Sql.Subqueries
import QueryGate.Proofs.Sql.TablePlaces
import QueryGate.Proofs.Sql.TableScan
import QueryGate.Proofs.Sql.TableTokens
import QueryGate.Proofs.Sql.TextTokens
import QueryGate.Proofs.Sql.TokenPlaces
import QueryGate.Proofs.Sql.TokenWords
import QueryGate.Proofs.Sql.Tokenizer
import QueryGate.Proofs.Sql.Tokens
import QueryGate.Proofs.Sql.WordReadings
import QueryGate.Proofs.Text.Ascii
import QueryGate.Proofs.Text.Character
import QueryGate.Proofs.Text.Edits
import QueryGate.Proofs.Text.Hits
import QueryGate.Proofs.Text.Numeral
import QueryGate.Proofs.Text.Parts
import QueryGate.Proofs.Text.SmallLetters
import QueryGate.Refusal
import QueryGate.Repair
import QueryGate.Result.Cell
import QueryGate.Result.Execution
import QueryGate.Result.Notation
import QueryGate.Result.Statement
import QueryGate.Result.Value
import QueryGate.Schema.Catalogue
import QueryGate.Schema.ColumnType
import QueryGate.Schema.Mapping
import QueryGate.Schema.Prompt
import QueryGate.Schema.Registry
import QueryGate.Schema.Table
import QueryGate.Settings
import QueryGate.Sql.Alias
import QueryGate.Sql.Clause
import QueryGate.Sql.ColumnRef
import QueryGate.Sql.Identifier
import QueryGate.Sql.Items
import QueryGate.Sql.Literal
import QueryGate.Sql.ParseTree
import QueryGate.Sql.Scanner
import QueryGate.Sql.SelectItem
import QueryGate.Sql.Subquery
import QueryGate.Sql.TableRef
import QueryGate.Sql.Vocabulary
import QueryGate.Text.Basic
import QueryGate.Text.Blank
import QueryGate.Text.Case
import QueryGate.Text.Dictionary
import QueryGate.Text.Digit
import QueryGate.Text.Edit
import QueryGate.Text.Keyword
import QueryGate.Text.Numeral
import QueryGate.Text.Printable
import QueryGate.Text.Quoted
import QueryGate.Text.Ranges
import QueryGate.Text.Reading
import QueryGate.Text.Word
import QueryGate.Time.Calendar
import QueryGate.Time.Notation
