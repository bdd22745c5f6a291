import ActionFlow.Main
import ActionFlow.Proofs.Graph.Lookup
import ActionFlow.Store.Exchange
import ActionFlow.Proofs.Graph.Waves
import ActionFlow.Proofs.Graph.Causality
import ActionFlow.Proofs.Lowering.Draft
import ActionFlow.Proofs.Lowering.Criteria
import ActionFlow.Proofs.Lowering.Expressions
import ActionFlow.Proofs.Lowering.Statements
import ActionFlow.Proofs.Compiler.Scheduling
import ActionFlow.Proofs.Population
import ActionFlow.Proofs.Store.Transactions
import ActionFlow.Proofs.Compiler.Ledger
import ActionFlow.Proofs.Compiler.Recovery
import ActionFlow.Proofs.Model.Lookup
import ActionFlow.Proofs.Traversal.Moves
import ActionFlow.Proofs.Traversal.Phrases
import ActionFlow.Proofs.Graph.Growth
import ActionFlow.Proofs.Traversal.Populations
import ActionFlow.Proofs.Graph.Cases
import ActionFlow.Proofs.Header
import ActionFlow.Proofs.Lowering.Walk
import ActionFlow.Proofs.Lowering.Tracking
import ActionFlow.Proofs.Lowering.Calls
import ActionFlow.Proofs.Lowering.Effects
import ActionFlow.Proofs.Lowering.Nesting
import ActionFlow.Proofs.Lowering.Switches
import ActionFlow.Proofs.Lowering.Bodies
import ActionFlow.Proofs.Compiler.Typing
import ActionFlow.Proofs.Compiler.Isolation
import ActionFlow.Proofs.Compiler.Labels
import ActionFlow.Proofs.Selection
import ActionFlow.Proofs.Compiler.Independence
import ActionFlow.Proofs.Compiler.Extension
import ActionFlow.Proofs.Compiler.Facts
import ActionFlow.Proofs.Compiler.Records
import ActionFlow.Proofs.Store.History
import ActionFlow.Proofs.Store.Brackets
import ActionFlow.Proofs.Compiler.Trace
import ActionFlow.Proofs.Compiler.Signatures
import ActionFlow.Proofs.Exchange.Values
import ActionFlow.Proofs.Exchange.Model
import ActionFlow.Proofs.Exchange.Language
import ActionFlow.Proofs.Exchange.Graph
import ActionFlow.Proofs.Exchange.Package
import ActionFlow.Proofs.Graph.Assignments
import ActionFlow.Proofs.Lowering.Twins
import ActionFlow.Proofs.Lowering.Symmetry
import ActionFlow.Proofs.Compiler.Gates
import ActionFlow.Proofs.Compiler.Merging
import ActionFlow.Proofs.Traversal.Pinning
import ActionFlow.Proofs.Traversal.Writing
import ActionFlow.Proofs.Flattening
import ActionFlow.Proofs.Store.Queries
import ActionFlow.Proofs.Header.Algebra
import ActionFlow.Proofs.Criteria.Grammar
import ActionFlow.Proofs.Criteria.Text
import ActionFlow.Proofs.Model.Identifiers
import ActionFlow.Proofs.Compiler.Casting
import ActionFlow.Proofs.Compiler.Links
import ActionFlow.Proofs.Graph.Bindings
import ActionFlow.Proofs.Model.Perspectives
import ActionFlow.Proofs.Compiler.Attributes
import ActionFlow.Proofs.Compiler.Enumeration
