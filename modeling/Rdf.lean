import Rdf.LexicalValue.Dynamic
import Rdf.NativeValue
import Rdf.Term.Building
import Rdf.Term.Order
import Rdf.Term.Pattern
import Rdf.Exchange
import Rdf.Graph
import Rdf.Proofs.Results
import Rdf.Proofs.Uuid.Texts
import Rdf.Proofs.Term.BlankNodes
import Rdf.Proofs.Term.Minting
import Rdf.Proofs.Term.LanguageTag
import Rdf.Proofs.Term.Literals
import Rdf.Proofs.Store.VersionRange
import Rdf.Proofs.Store.Chains
import Rdf.Proofs.Store.Queries
import Rdf.Proofs.Store.Writing
import Rdf.Proofs.Store.Transactions
import Rdf.Proofs.Store.Publishing
import Rdf.Proofs.Store.Steps
import Rdf.Proofs.Store.Histories
import Rdf.Proofs.Store.Runs
import Rdf.Proofs.Store.Reads
import Rdf.Proofs.Store.Isolation
import Rdf.Proofs.Store.Checking
import Rdf.Proofs.Store.Integrity
import Rdf.Proofs.Store.Versions
import Rdf.Proofs.Store.NetEffect
import Rdf.Proofs.Store.Compaction
import Rdf.Proofs.Store.KeptReaders
import Rdf.Proofs.Graph.Operations
import Rdf.Proofs.Graph.Merging
import Rdf.Proofs.Graph.Adoption
import Rdf.Proofs.Iri.Characters
import Rdf.Proofs.Term.Lines
import Rdf.Proofs.Term.Exchange
import Rdf.Proofs.Text.Digits
import Rdf.Proofs.Number.Integer
import Rdf.Proofs.Temporal.Calendar
import Rdf.Proofs.Temporal.Moment
import Rdf.Proofs.Temporal.Grammar
import Rdf.Proofs.Temporal.Printing
import Rdf.Proofs.Temporal.Shapes
import Rdf.Proofs.LexicalValue.Integers
import Rdf.Proofs.LexicalValue.Temporals
import Rdf.Proofs.NativeValue.Temporals
import Rdf.Proofs.Number.FloatReading
import Rdf.Proofs.LexicalValue.Doubles
import Rdf.Proofs.Number.Spelling
import Rdf.Proofs.Number.Decimal
import Rdf.Proofs.NativeValue.Decimals
import Rdf.Proofs.NativeValue.Integers
import Rdf.Proofs.Store.Loading
import Rdf.Proofs.Graph.Loading
