import Dynamod.Svmgr.Proofs.SpawnFailure
import Dynamod.Svmgr.Proofs.FrontierOutcome
import Dynamod.Init.Proofs.Requests
import Dynamod.Svmgr.Cycle
import Dynamod.Client.Proofs.Exchange
import Dynamod.Pam.Proofs.Remote
import Dynamod.Logind.Proofs.Controller
import Dynamod.Logind.Proofs.Power
import Dynamod.Svmgr.Proofs.Validate
import Dynamod.Svmgr.Proofs.Limits
import Dynamod.Svmgr.Proofs.Cgroup
import Dynamod.Svmgr.Proofs.Subtree
import Dynamod.Svmgr.Proofs.Reload
import Dynamod.Init.Proofs.Backoff
import Dynamod.Svmgr.Proofs.Monitor
import Dynamod.Svmgr.Proofs.Relay
import Dynamod.Svmgr.Proofs.Notify
import Dynamod.Init.Proofs.Batches
import Dynamod.Init.Proofs.Depth
import Dynamod.Init.Proofs.Resync
import Dynamod.Sd1bridge.Mapping
import Dynamod.Logind.Proofs.Leaders
import Dynamod.Init.Proofs.Rootdev
import Dynamod.Init.Shutdown
import Dynamod.Init.Proofs.Live
import Dynamod.Logd.Proofs.Rotation
import Dynamod.Logind.Proofs.Cleanups
import Dynamod.Init.Proofs.IsoDirectory
import Dynamod.Init.Proofs.Lookup
import Dynamod.Init.Proofs.RoundTrip
import Dynamod.Init.Proofs.Switchroot
import Dynamod.Logind.Proofs.Acpi
import Dynamod.Hostnamed.Proofs.MachineInfo
import Dynamod.Init.Proofs.Causes
import Dynamod.Init.Proofs.Cleanup
import Dynamod.Svmgr.Proofs.InitChannel
import Dynamod.Init.Cmdline
