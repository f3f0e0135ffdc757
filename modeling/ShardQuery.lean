import ShardQuery.Main
import ShardQuery.Proofs.Bindings.Digest
import ShardQuery.Proofs.Bindings.Reachability
import ShardQuery.Proofs.Distinct.Strategies
import ShardQuery.Proofs.Failure
import ShardQuery.Proofs.Formula.Integers
import ShardQuery.Proofs.Grouping.Boundaries
import ShardQuery.Proofs.Grouping.Exactness
import ShardQuery.Proofs.Meaning.Sorting
import ShardQuery.Proofs.Memory.Budget
import ShardQuery.Proofs.Memory.Exactness
import ShardQuery.Proofs.Pagination.Equivalence
import ShardQuery.Proofs.Pagination.Projections
import ShardQuery.Proofs.Plan.Codec
import ShardQuery.Proofs.Resolution
import ShardQuery.Proofs.Resume.Fitting
import ShardQuery.Proofs.Resume.Reencoding
import ShardQuery.Proofs.Row.Insertion
import ShardQuery.Proofs.Shard.Paging
import ShardQuery.Proofs.Stage.Aggregates
import ShardQuery.Proofs.Termination.Idling
import ShardQuery.Proofs.Token.Damage
import ShardQuery.Proofs.Value.RoundTrip
import ShardQuery.Proofs.Value.Sameness
import ShardQuery.Statement
