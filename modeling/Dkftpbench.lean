import Dkftpbench.SkedRunAll
import Dkftpbench.NbbioQueue
import Dkftpbench.NbbioLines
import Dkftpbench.LineReads
import Dkftpbench.LoginRetry
import Dkftpbench.PortReady
import Dkftpbench.CommandLines
import Dkftpbench.StatusReports
import Dkftpbench.LinesKept
import Dkftpbench.PipeReports
import Dkftpbench.PipeClean
import Dkftpbench.PipeSockets
import Dkftpbench.PipePace
import Dkftpbench.PollRound
import Dkftpbench.SelectRound
import Dkftpbench.SigioRound
import Dkftpbench.SigioReady
import Dkftpbench.KqueueEvents
import Dkftpbench.DevpollRound
import Dkftpbench.Census
import Dkftpbench.Faults
import Dkftpbench.PipeCalls
import Dkftpbench.PipeLogin
import Dkftpbench.PlatoonCalls
import Dkftpbench.PlatoonRuns
import Dkftpbench.RetrAsked
import Dkftpbench.LinesRejected
import Dkftpbench.ControlLoop
import Dkftpbench.PollMisuse
import Dkftpbench.SigioMisuse
import Dkftpbench.SelectMap
import Dkftpbench.DevpollFailure
import Dkftpbench.ClockOrder
import Dkftpbench.EphemeralPort
import Dkftpbench.PlatoonRamp
import Dkftpbench.SubstateStack
import Dkftpbench.EventLoops
import Dkftpbench.PipeInHand
import Dkftpbench.PlatoonReset
import Dkftpbench.DialogueEnds
import Dkftpbench.BenchVerdict
import Dkftpbench.PlatoonScript
import Dkftpbench.PlatoonWake
import Dkftpbench.ControlProgress
import Dkftpbench.CoordinatorVerdict
import Dkftpbench.PollersAlike
import Dkftpbench.WakeUpHeard
import Dkftpbench.Timetable
