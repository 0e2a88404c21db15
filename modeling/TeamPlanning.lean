import TeamPlanning.Belief
import TeamPlanning.Bounded
import TeamPlanning.Decimal.Shortest
import TeamPlanning.Fault.Basic
import TeamPlanning.Fault.Message
import TeamPlanning.History.Basic
import TeamPlanning.History.Build
import TeamPlanning.History.Hold
import TeamPlanning.History.Space
import TeamPlanning.History.Team
import TeamPlanning.Horizon.Basic
import TeamPlanning.Horizon.Parse
import TeamPlanning.Json.Syntax
import TeamPlanning.Machine
import TeamPlanning.Model.Basic
import TeamPlanning.Model.Random
import TeamPlanning.Planner.Basic
import TeamPlanning.Planner.History
import TeamPlanning.Planner.Policy
import TeamPlanning.Planner.Probability
import TeamPlanning.Planner.Text
import TeamPlanning.Policy.Basic
import TeamPlanning.Policy.Domain
import TeamPlanning.Policy.Graph
import TeamPlanning.ProbabilityTable
import TeamPlanning.Process
import TeamPlanning.Radix
import TeamPlanning.Realization
import TeamPlanning.Settings.Basic
import TeamPlanning.Settings.Json
import TeamPlanning.Sparse
import TeamPlanning.Stage.Boundary
import TeamPlanning.Stage.Layout
import TeamPlanning.Symbol.Basic
import TeamPlanning.Symbol.Digit
import TeamPlanning.Symbol.Joint
import TeamPlanning.Text.Blank
import TeamPlanning.Text.List
import TeamPlanning.Trie.Basic
import TeamPlanning.Trie.Display
import TeamPlanning.Trie.Edit
import TeamPlanning.Trie.Numbered
import TeamPlanning.Weight.Basic
import TeamPlanning.Weight.Float
import TeamPlanning.Weight.Rational
import TeamPlanning.Word
import TeamPlanning.Proofs.Columns
import TeamPlanning.Proofs.Filtering
import TeamPlanning.Proofs.Forward
import TeamPlanning.Proofs.Gathering
import TeamPlanning.Proofs.History.Agreement
import TeamPlanning.Proofs.History.Answers
import TeamPlanning.Proofs.History.Chart
import TeamPlanning.Proofs.History.Conversion
import TeamPlanning.Proofs.History.Creation
import TeamPlanning.Proofs.History.Demand
import TeamPlanning.Proofs.History.Enumeration
import TeamPlanning.Proofs.History.Growth
import TeamPlanning.Proofs.History.Interleaving
import TeamPlanning.Proofs.History.Levels
import TeamPlanning.Proofs.History.Modes
import TeamPlanning.Proofs.History.Numbering
import TeamPlanning.Proofs.History.Reading
import TeamPlanning.Proofs.History.Records
import TeamPlanning.Proofs.History.Requests
import TeamPlanning.Proofs.History.Roster
import TeamPlanning.Proofs.History.Splitting
import TeamPlanning.Proofs.History.Team
import TeamPlanning.Proofs.JointSymbols
import TeamPlanning.Proofs.Likelihood
import TeamPlanning.Proofs.Model
import TeamPlanning.Proofs.Normalization
import TeamPlanning.Proofs.Outcome
import TeamPlanning.Proofs.Paths
import TeamPlanning.Proofs.Planner.Answers
import TeamPlanning.Proofs.Planner.Cache
import TeamPlanning.Proofs.Planner.Composition
import TeamPlanning.Proofs.Planner.Conditional
import TeamPlanning.Proofs.Planner.Decomposition
import TeamPlanning.Proofs.Planner.Events
import TeamPlanning.Proofs.Planner.JointPolicies
import TeamPlanning.Proofs.Planner.Modes
import TeamPlanning.Proofs.Planner.Overrides
import TeamPlanning.Proofs.Planner.PathSum
import TeamPlanning.Proofs.Planner.Policies
import TeamPlanning.Proofs.Planner.Predecessors
import TeamPlanning.Proofs.Planner.Pruning
import TeamPlanning.Proofs.Planner.Queries
import TeamPlanning.Proofs.Planner.Rejections
import TeamPlanning.Proofs.Planner.Service
import TeamPlanning.Proofs.Planner.TotalProbability
import TeamPlanning.Proofs.Planner.Upkeep
import TeamPlanning.Proofs.Planner.Walk
import TeamPlanning.Proofs.Planner.Weighting
import TeamPlanning.Proofs.Prediction
import TeamPlanning.Proofs.Pruning
import TeamPlanning.Proofs.Radix
import TeamPlanning.Proofs.Realization
import TeamPlanning.Proofs.Refusals
import TeamPlanning.Proofs.Rows
import TeamPlanning.Proofs.Shortlex
import TeamPlanning.Proofs.SparseBeliefs
import TeamPlanning.Proofs.Stages
import TeamPlanning.Proofs.Storage.Agreement
import TeamPlanning.Proofs.Storage.Cells
import TeamPlanning.Proofs.Storage.Keys
import TeamPlanning.Proofs.Storage.Model
import TeamPlanning.Proofs.Storage.Successors
import TeamPlanning.Proofs.Storage.Table
import TeamPlanning.Proofs.Symbols
import TeamPlanning.Proofs.Table
import TeamPlanning.Proofs.Trie.Edits
import TeamPlanning.Proofs.Trie.Erase
import TeamPlanning.Proofs.Trie.Insert
import TeamPlanning.Proofs.Trie.Links
import TeamPlanning.Proofs.Trie.Subtree
import TeamPlanning.Proofs.Weight
import TeamPlanning.Proofs.History.Sequences
import TeamPlanning.Proofs.Planner.Sequences
import TeamPlanning.Proofs.Trie.Queries
import TeamPlanning.Proofs.Trie.Filing
import TeamPlanning.Proofs.Trie.Dropping
import TeamPlanning.Proofs.Trie.Counts
import TeamPlanning.Trie.InPlace
import TeamPlanning.Proofs.Trie.InPlace
import TeamPlanning.Proofs.Words
import TeamPlanning.Proofs.JointNumbers
import TeamPlanning.Proofs.Counting
import TeamPlanning.Proofs.Trie.Successors
import TeamPlanning.Proofs.Trie.Drawing
import TeamPlanning.Proofs.Tally
import TeamPlanning.Proofs.Planner.PolicyCounts
import TeamPlanning.Proofs.Planner.PolicyGraphs
import TeamPlanning.Proofs.History.Safety
import TeamPlanning.Proofs.SymbolDigits
import TeamPlanning.Proofs.Horizons
import TeamPlanning.Proofs.RandomModels
import TeamPlanning.Proofs.InitialDistributions
import TeamPlanning.Proofs.AgentOrder
import TeamPlanning.Proofs.Storage.Outside
