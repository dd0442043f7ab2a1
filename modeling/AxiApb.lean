import AxiApb.Clocked
import AxiApb.ByteStore
import AxiApb.Ports
import AxiApb.ApbProtocol
import AxiApb.Burst
import AxiApb.BurstSpec
import AxiApb.BurstRefine
import AxiApb.BurstTrace
import AxiApb.Contract
import AxiApb.BurstWrite
import AxiApb.BurstRead
import AxiApb.BurstReject
import AxiApb.BurstSafety
import AxiApb.BurstSerial
import AxiApb.BurstProgress
import AxiApb.BurstMemory
import AxiApb.Simple
import AxiApb.SimpleSpec
import AxiApb.SimpleRefine
import AxiApb.SimpleStall
import AxiApb.SimplePairing
import AxiApb.SimpleSafety
import AxiApb.Independence
import AxiApb.Windows
import AxiApb.Crossing
import AxiApb.RegBlock
import AxiApb.RegBlockSpec
import AxiApb.RegBlockStore
import AxiApb.RegBlockWrite
import AxiApb.Serial
import AxiApb.SingleBeats
import AxiApb.Prediction
import AxiApb.Strobes
import AxiApb.WaitStates
import AxiApb.Observers
import AxiApb.RegBlockMonitor
import AxiApb.Pairing
import AxiApb.Scoreboard
import AxiApb.ScoreboardQueues
import AxiApb.ScoreboardAcceptance
import AxiApb.ScoreboardContract
import AxiApb.BridgeMonitors
import AxiApb.MonitorReports
import AxiApb.DualMemories
import AxiApb.TestBench
import AxiApb.FormalWrapper
import AxiApb.BurstProps
import AxiApb.BurstDeadlines
import AxiApb.SimpleProps
import AxiApb.SimpleExclusions
import AxiApb.RegBlockBench
import AxiApb.RegBlockScoreboard
import AxiApb.BurstLatency
import AxiApb.PerfBench
import AxiApb.StressRuns
import AxiApb.StressTest
