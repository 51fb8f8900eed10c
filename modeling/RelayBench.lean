import RelayBench.Common.Ports
import RelayBench.Common.Report
import RelayBench.Common.Timing
import RelayBench.Grpc.ErrorReporting
import RelayBench.Grpc.Model
import RelayBench.Grpc.Serialisation
import RelayBench.Grpc.Termination
import RelayBench.Grpc.Threads
import RelayBench.Library.Batches
import RelayBench.Library.BinaryProtocol
import RelayBench.Library.BinaryValues
import RelayBench.Library.CompactMessages
import RelayBench.Library.CompactProtocol
import RelayBench.Library.CompactValues
import RelayBench.Library.Execution
import RelayBench.Library.HopQueues
import RelayBench.Library.LossyHops
import RelayBench.Library.OrderStatistics
import RelayBench.Library.Readers
import RelayBench.Library.RemoteCall
import RelayBench.Library.Stages
import RelayBench.Library.Varint
import RelayBench.Library.Work
import RelayBench.Pnode.Delivery
import RelayBench.Pnode.Flow
import RelayBench.Pnode.Model
import RelayBench.Pnode.Overwriting
import RelayBench.Pnode.SampleIntegrity
import RelayBench.Pnode.Stamp
import RelayBench.Psrv.Completeness
import RelayBench.Psrv.Conservation
import RelayBench.Psrv.Model
import RelayBench.Psrv.Pending
import RelayBench.Psrv.Termination
import RelayBench.Sinks.Interchange
import RelayBench.Sinks.Percentiles
import RelayBench.Thrift.Interoperation
import RelayBench.Thrift.SameService
import RelayBench.ThriftCpp.Acknowledgement
import RelayBench.ThriftCpp.Model
import RelayBench.ThriftCpp.Protocol
import RelayBench.ThriftCpp.Rpc
import RelayBench.ThriftCpp.StructReading
import RelayBench.ThriftCpp.Structs
import RelayBench.ThriftCpp.Transparency
import RelayBench.ThriftCpp.Unexpected
import RelayBench.ThriftCpp.WireChain
import RelayBench.ThriftRs.Batching
import RelayBench.ThriftRs.Callers
import RelayBench.ThriftRs.Crate
import RelayBench.ThriftRs.ErrorHandling
import RelayBench.ThriftRs.Exclusion
import RelayBench.ThriftRs.Faultless
import RelayBench.ThriftRs.Linearisation
import RelayBench.ThriftRs.Model
import RelayBench.ThriftRs.OutOfStep
import RelayBench.ThriftRs.Reporting
import RelayBench.ThriftRs.Rpc
import RelayBench.ThriftRs.Startup
import RelayBench.ThriftRs.StructReading
import RelayBench.ThriftRs.Structs
import RelayBench.ThriftRs.Termination
import RelayBench.ThriftRs.Threads
import RelayBench.ThriftRs.WireCalls
import RelayBench.ThriftRs.WireChain
import RelayBench.Zenoh.Delivery
import RelayBench.Zenoh.Exit
import RelayBench.Zenoh.Flow
import RelayBench.Zenoh.Model
import RelayBench.Zenoh.Moves
import RelayBench.Zenoh.MultiProcess
import RelayBench.Zenoh.ProcessCompletion
import RelayBench.Zenoh.ProcessFlow
import RelayBench.Zenoh.ProcessReports
import RelayBench.Zenoh.ProcessRoutes
import RelayBench.Zenoh.Processes
import RelayBench.Zenoh.Termination
import RelayBench.Zenoh.Thrift
import RelayBench.Zenoh.Transparency
import RelayBench.Zenoh.Wire
