import Archon.Kernel.Retired
import Archon.Kernel.Watermark
import Archon.Kernel.Enforced
import Archon.Kernel.Capacity
import Archon.Kernel.Routing
import Archon.Kernel.Retries
import Archon.Kernel.Bindable
import Archon.Kernel.Topology
import Archon.Kernel.Legacy
import Archon.Node.Stirs
import Archon.Node.Fencing
import Archon.Sim.Protocol
import Archon.Kernel.Quota
import Archon.Kernel.Preempt
import Archon.Kernel.Stranded
import Archon.Kernel.Soft
import Archon.Node.Chronicle
import Archon.Control.Leases
import Archon.Node.DeviceFilter
import Archon.Control.Log
import Archon.Control.Journal
import Archon.Control.Recovery
import Archon.Kernel.FairShare
import Archon.Kernel.QueueOrder
import Archon.Kernel.Budget
import Archon.Node.Pinning
import Archon.Node.Transport
import Archon.Kernel.Search
import Archon.Kernel.Accounting
import Archon.Node.CpuLists
import Archon.Node.Stopping
import Archon.Node.Starting
import Archon.Node.Adopting
import Archon.Node.Holding
import Archon.Node.Restarting
import Archon.Node.Requests
import Archon.Node.Replaying
import Archon.Node.Durable
import Archon.Node.Tracing
import Archon.Agent.Vacating
import Archon.Control.Answering
