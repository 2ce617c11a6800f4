import Hekaton.Aggregation
import Hekaton.AggregationSoundness
import Hekaton.AppendOnly
import Hekaton.Bits
import Hekaton.ByteBits
import Hekaton.CPGroth16
import Hekaton.Chaining
import Hekaton.CliFiles
import Hekaton.CliKeys
import Hekaton.ClockIncrement
import Hekaton.ClockOrder
import Hekaton.Codecs
import Hekaton.Collectives
import Hekaton.CollisionSoundness
import Hekaton.CommitmentConsistency
import Hekaton.CommitmentLists
import Hekaton.Comparisons
import Hekaton.Completeness
import Hekaton.ConstraintSystems
import Hekaton.Contracts
import Hekaton.Coordinator
import Hekaton.DeployedFiles
import Hekaton.Deployment
import Hekaton.DigestPacking
import Hekaton.Documents
import Hekaton.EvalTree
import Hekaton.FieldGadgets
import Hekaton.FileSystems
import Hekaton.FilterCircuit
import Hekaton.HashCollisions
import Hekaton.HonestRuns
import Hekaton.InstanceScale
import Hekaton.KeyDirectory
import Hekaton.KeyFiles
import Hekaton.KeyPackages
import Hekaton.KeyReuse
import Hekaton.LibsnarkReduction
import Hekaton.LinearCombinations
import Hekaton.MemoryTraces
import Hekaton.MergeSortCircuit
import Hekaton.MergeSortCodec
import Hekaton.MergeSortEffects
import Hekaton.MergeSortTies
import Hekaton.MergeSortTraces
import Hekaton.Merging
import Hekaton.MerkleTrees
import Hekaton.MirroredRuns
import Hekaton.MismatchedKeys
import Hekaton.NameBinding
import Hekaton.Networks
import Hekaton.NodeFormats
import Hekaton.Nodes
import Hekaton.Outcomes
import Hekaton.Packing
import Hekaton.PaddingEntries
import Hekaton.ParallelResponses
import Hekaton.PathGadgets
import Hekaton.PathPieces
import Hekaton.PermutationFingerprint
import Hekaton.PortalChecks
import Hekaton.PortalManager
import Hekaton.PrimeFields
import Hekaton.PrimeOrders
import Hekaton.Processes
import Hekaton.ProductAgreements
import Hekaton.ProofAcceptance
import Hekaton.PublicInputs
import Hekaton.QuadraticPrograms
import Hekaton.RamSoundness
import Hekaton.Recordings
import Hekaton.Reruns
import Hekaton.ResponseOrder
import Hekaton.Scripts
import Hekaton.Sha256Digests
import Hekaton.SizedCodecs
import Hekaton.SparseMerkleTrees
import Hekaton.SparseTree
import Hekaton.SparseTreeHistory
import Hekaton.StableSorting
import Hekaton.StageRanges
import Hekaton.SubcircuitAggregation
import Hekaton.SubcircuitChains
import Hekaton.SubcircuitCircuit
import Hekaton.SubcircuitShapes
import Hekaton.Synthesis
import Hekaton.TraceSorting
import Hekaton.Transcript
import Hekaton.Transport
import Hekaton.TreeHashAgreement
import Hekaton.TreeHashCircuit
import Hekaton.TreeHashKeys
import Hekaton.TreeHashRecording
import Hekaton.TreeHashRoot
import Hekaton.TreeHashRuns
import Hekaton.TreeHashTraces
import Hekaton.TreeIndexing
import Hekaton.TreeNumbering
import Hekaton.TwistedSums
import Hekaton.Uint32
import Hekaton.VirtualMachine
import Hekaton.VkdAddresses
import Hekaton.VkdAgreement
import Hekaton.VkdBatches
import Hekaton.VkdCircuits
import Hekaton.VkdCodecs
import Hekaton.VkdCompleteness
import Hekaton.VkdGadgets
import Hekaton.VkdHash
import Hekaton.VkdIdeal
import Hekaton.VkdInstances
import Hekaton.VkdKeys
import Hekaton.VkdNames
import Hekaton.VkdRows
import Hekaton.VkdSoundness
import Hekaton.VkdSubcircuits
import Hekaton.VkdTraces
import Hekaton.VkdWires
import Hekaton.Wires
import Hekaton.WitnessLocality
import Hekaton.Workers
