import NetworkSimulator.Proofs.SilentFaults
import NetworkSimulator.Proofs.FaultFree
import NetworkSimulator.Proofs.Totality
import NetworkSimulator.Proofs.ExitPanic
import NetworkSimulator.Proofs.WireRoundTrip
import NetworkSimulator.Proofs.LinkOrder
import NetworkSimulator.Proofs.Unobservable
import NetworkSimulator.Proofs.GlobalProgress
import NetworkSimulator.Proofs.MergeOrder
import NetworkSimulator.Proofs.PolledDelivery
import NetworkSimulator.Proofs.FrozenClock
import NetworkSimulator.Proofs.EchoQuorum
import NetworkSimulator.Proofs.TornMessages
import NetworkSimulator.Proofs.ReadyDelivery
import NetworkSimulator.Proofs.ValueStates
import NetworkSimulator.Proofs.EnabledReady
import NetworkSimulator.Proofs.ClosedLoop
import NetworkSimulator.Proofs.LineFraming
import NetworkSimulator.Proofs.FrameDispatch
import NetworkSimulator.Proofs.LatencyFile
import NetworkSimulator.Proofs.VmIdentity
import NetworkSimulator.Proofs.SetupCompletion
import NetworkSimulator.Proofs.SliceRange
import NetworkSimulator.Proofs.ValueNumbering
import NetworkSimulator.Proofs.HostTermination
import NetworkSimulator.Proofs.ShortWrites
import NetworkSimulator.Proofs.DeliveryLines
import NetworkSimulator.Proofs.LoopLiveness
import NetworkSimulator.Proofs.LoopProgress
import NetworkSimulator.Proofs.LoopCausality
import NetworkSimulator.Bracha.Config
import NetworkSimulator.Proofs.ConfigFile
import NetworkSimulator.Proofs.LoopFrames
