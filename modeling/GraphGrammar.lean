import GraphGrammar.Graph.Lemmas
import GraphGrammar.Label.Merge
import GraphGrammar.Main
import GraphGrammar.Rule.Inspect
import GraphGrammar.Proofs.Graph.Sound
import GraphGrammar.Proofs.Graph.Allowed
import GraphGrammar.Proofs.Graph.Application
import GraphGrammar.Proofs.Engine.Step
import GraphGrammar.Proofs.Engine.Development
import GraphGrammar.Proofs.Graph.History
import GraphGrammar.Proofs.Engine.Follow
import GraphGrammar.Proofs.Id.Text
import GraphGrammar.Proofs.Label.Reading
import GraphGrammar.Proofs.Dungeon.Reach
import GraphGrammar.Proofs.Dungeon.Rules
import GraphGrammar.Proofs.Dungeon.Solvable
import GraphGrammar.Proofs.Label.Erasure
import GraphGrammar.Proofs.Graph.Erasure
import GraphGrammar.Proofs.Engine.Erasure
import GraphGrammar.Proofs.Dungeon.Text
import GraphGrammar.Proofs.Json.Numeral
import GraphGrammar.Proofs.Json.Within
import GraphGrammar.Proofs.Label.Within
import GraphGrammar.Proofs.Json.Reading
import GraphGrammar.Proofs.Label.Document
import GraphGrammar.Proofs.Grammar.Document
import GraphGrammar.Proofs.Graph.Document
import GraphGrammar.Proofs.Json.Scanning
import GraphGrammar.Proofs.Json.Word
import GraphGrammar.Proofs.Json.RoundTrip
import GraphGrammar.Proofs.Graph.RoundTrip
import GraphGrammar.Proofs.CommandLine.Reload
import GraphGrammar.Proofs.Graph.Issue
import GraphGrammar.Proofs.Graph.Placement
import GraphGrammar.Proofs.Engine.Diff
import GraphGrammar.Proofs.Engine.Draws
import GraphGrammar.Proofs.Number.Whole
import GraphGrammar.Proofs.Graph.Tally
import GraphGrammar.Proofs.Dungeon.Effort
import GraphGrammar.Proofs.Dungeon.Production
import GraphGrammar.Proofs.Dungeon.Layout
import GraphGrammar.Proofs.Dungeon.Finished
import GraphGrammar.Proofs.Id.Ledger
import GraphGrammar.Proofs.Graph.Chronicle
import GraphGrammar.Proofs.Dungeon.Ways
import GraphGrammar.Proofs.Engine.Composition
import GraphGrammar.Proofs.Label.Place
import GraphGrammar.Proofs.Grammar.Substitution
import GraphGrammar.Proofs.Grammar.Reserved
import GraphGrammar.Proofs.Number.Rounding
import GraphGrammar.Proofs.Label.Encoding
import GraphGrammar.Proofs.Graph.Digest
import GraphGrammar.Proofs.Engine.Search
import GraphGrammar.Proofs.Dungeon.Depths
import GraphGrammar.Proofs.Dungeon.Workload
import GraphGrammar.Proofs.Dungeon.Phases
import GraphGrammar.Proofs.Dungeon.Termination
import GraphGrammar.Proofs.Graph.Binding
import GraphGrammar.Proofs.Graph.Realization
import GraphGrammar.Proofs.Graph.Renaming
import GraphGrammar.Proofs.Random.Eligible
import GraphGrammar.Proofs.Label.Texts
import GraphGrammar.Proofs.Random.Proportion
import GraphGrammar.Proofs.Label.Equality
import GraphGrammar.Proofs.Label.Subset
import GraphGrammar.Proofs.Label.Merging
import GraphGrammar.Proofs.Label.Paths
import GraphGrammar.Proofs.Engine.Patching
import GraphGrammar.Proofs.Engine.Narrowing
import GraphGrammar.Proofs.Graph.Acceptance
import GraphGrammar.Proofs.Graph.Refusal
import GraphGrammar.Proofs.Engine.Staleness
import GraphGrammar.Proofs.Random.Linear
import GraphGrammar.Proofs.Random.Period
import GraphGrammar.Proofs.Random.Rejection
import GraphGrammar.Proofs.Random.Uniform
import GraphGrammar.Proofs.Dot.Drawing
import GraphGrammar.Proofs.Grammar.RoundTrip
import GraphGrammar.Proofs.Id.Reading
import GraphGrammar.Proofs.Label.Visit
import GraphGrammar.Proofs.Settings.Document
import GraphGrammar.Proofs.Settings.Store
import GraphGrammar.Proofs.CommandLine.Saving
import GraphGrammar.Proofs.Files
