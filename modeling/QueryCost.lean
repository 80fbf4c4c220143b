import QueryCost.Json.Printer
import QueryCost.Json.Reader
import QueryCost.Settings
import QueryCost.Validation
import QueryCost.Proofs.Saturation
import QueryCost.Proofs.Tables
import QueryCost.Proofs.Cost.Ranking
import QueryCost.Proofs.Cost.Directives
import QueryCost.Proofs.Cost.Exact
import QueryCost.Proofs.Cost.FoldInvariant
import QueryCost.Proofs.Cost.FoldSteps
import QueryCost.Proofs.Cost.FoldResult
import QueryCost.Proofs.Cost.Outline
import QueryCost.Proofs.DirectCost
import QueryCost.Proofs.Pass.Outlines
import QueryCost.Proofs.Pass.Walk
import QueryCost.Proofs.Pass.VariableErrors
import QueryCost.Proofs.Pass.SharedScopes
import QueryCost.Proofs.Pass.Report
import QueryCost.Proofs.Pass.Outcome
import QueryCost.Proofs.Pass.Refinement
import QueryCost.Proofs.Pass.Analyzers
import QueryCost.Proofs.Rewriting.Alike
import QueryCost.Proofs.Rewriting.Inlining
import QueryCost.Proofs.Rewriting.Insertion
import QueryCost.Proofs.Pass.Reuse
import QueryCost.Proofs.Pass.Simulation
import QueryCost.Proofs.Pass.EntryOrder
import QueryCost.Proofs.Cost.Interfaces
import QueryCost.Proofs.Rewriting.Rearrangement
import QueryCost.Proofs.Pass.SizedFields
import QueryCost.Proofs.Pass.Frames
import QueryCost.Proofs.Pass.Calls
import QueryCost.Proofs.Cost.Forest
import QueryCost.Proofs.Cost.Iterations
import QueryCost.Proofs.Cost.FoldStates
import QueryCost.Proofs.Pass.Arena
import QueryCost.Proofs.Rewriting.Erasure
import QueryCost.Proofs.Rewriting.Interchange
import QueryCost.Proofs.Rewriting.Substitution
import QueryCost.Proofs.Schema.Additions
import QueryCost.Proofs.Schema.Registry
import QueryCost.Proofs.Schema.Implementors
import QueryCost.Proofs.Schema.Merging
import QueryCost.Proofs.Schema.Duplicates
import QueryCost.Proofs.Schema.Contents
import QueryCost.Proofs.Schema.Roots
import QueryCost.Proofs.Variables.Coercion
import QueryCost.Proofs.Variables.FragmentScope
import QueryCost.Proofs.Text.ByteOrder
import QueryCost.Proofs.Variables.Routes
import QueryCost.Proofs.Rewriting.Regrouping
import QueryCost.Proofs.Rewriting.Growth
