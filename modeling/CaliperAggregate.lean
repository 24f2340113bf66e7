import CaliperAggregate.Vlenc
import CaliperAggregate.BlockAlloc
import CaliperAggregate.Snapshot
import CaliperAggregate.KeyEncoding
import CaliperAggregate.Database
import CaliperAggregate.FindEntry
import CaliperAggregate.Process
import CaliperAggregate.Flush
import CaliperAggregate.Preempt
import CaliperAggregate.Registry
import CaliperAggregate.KeyAttributes
import CaliperAggregate.Service
import CaliperAggregate.Proofs.KeyLayout
import CaliperAggregate.Proofs.KeyDecoding
import CaliperAggregate.Proofs.Signal
import CaliperAggregate.Proofs.KeyNodeList
import CaliperAggregate.Proofs.Canonical
import CaliperAggregate.Proofs.Kernels
import CaliperAggregate.Proofs.BlockCount
import CaliperAggregate.Proofs.Trie
import CaliperAggregate.Proofs.TrieSteps
import CaliperAggregate.Proofs.FlushRecords
import CaliperAggregate.Proofs.TrieDepth
import CaliperAggregate.Proofs.Refinement
import CaliperAggregate.Proofs.PreemptRuns
import CaliperAggregate.Proofs.PreemptSafety
import CaliperAggregate.Proofs.BlockBound
import CaliperAggregate.Proofs.KernelCounter
import CaliperAggregate.Proofs.Report
import CaliperAggregate.Proofs.Acceptance
import CaliperAggregate.Proofs.KeyGroups
import CaliperAggregate.Proofs.Accounting
import CaliperAggregate.Proofs.RegistryList
import CaliperAggregate.Proofs.Reclaim
import CaliperAggregate.Proofs.KeyAttributeIds
import CaliperAggregate.Proofs.ServiceSafety
import CaliperAggregate.Proofs.ServiceIsolation
import CaliperAggregate.Proofs.ServiceAccounting
import CaliperAggregate.Proofs.ServiceRegistry
import CaliperAggregate.Proofs.ServiceStatistics
import CaliperAggregate.StopFlag
