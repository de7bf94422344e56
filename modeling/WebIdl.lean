import WebIdl.Model
import WebIdl.Proofs.StableOrder
import WebIdl.Proofs.Registration
import WebIdl.Proofs.Interning
import WebIdl.Proofs.Shelving
import WebIdl.Proofs.History
import WebIdl.Proofs.Consensus
import WebIdl.Proofs.Merging
import WebIdl.Proofs.Contents
import WebIdl.Proofs.Reporting
import WebIdl.Proofs.Occurrences
import WebIdl.Proofs.Ancestry
import WebIdl.Proofs.Rounds
import WebIdl.Proofs.Resolving
import WebIdl.Proofs.Names
import WebIdl.Proofs.Building
import WebIdl.Proofs.Scoping
import WebIdl.Proofs.Acceptance
import WebIdl.Proofs.Cycles
import WebIdl.Proofs.Outcome
import WebIdl.Proofs.Closure
import WebIdl.Proofs.Gathering
import WebIdl.Proofs.Renaming
import WebIdl.Proofs.RenamedMerging
import WebIdl.Proofs.RenamedCorpus
import WebIdl.Proofs.RenamedResolving
import WebIdl.Proofs.Numbering
import WebIdl.Proofs.Aggregation
import WebIdl.Proofs.Arrival
import WebIdl.Proofs.Accounting
import WebIdl.Proofs.Bounds
import WebIdl.Proofs.Extension
import WebIdl.Proofs.Conservativity
import WebIdl.Proofs.Unresolved
import WebIdl.Proofs.Referents
import WebIdl.Proofs.BadReferences
import WebIdl.Proofs.Conflicts
import WebIdl.Proofs.MergeConflicts
import WebIdl.Proofs.Rearrangement
import WebIdl.Proofs.Turns
import WebIdl.Proofs.AttributeUnion
import WebIdl.Proofs.Overrides
import WebIdl.Proofs.Labels
import WebIdl.Proofs.Accumulation
import WebIdl.Proofs.Packing
import WebIdl.Proofs.HandleOrder
import WebIdl.Proofs.LineCounts
