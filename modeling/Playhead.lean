import Playhead.Bench
import Playhead.Config.Reading
import Playhead.FrameChannel
import Playhead.Lockstep
import Playhead.Script.Source
import Playhead.Stream.Reading
import Playhead.TestPattern.Source
import Playhead.Proofs.HostRuns
import Playhead.Proofs.SeekRequests
import Playhead.Proofs.EndOfMedium
import Playhead.Proofs.Timelines
import Playhead.Proofs.EpochPictures
import Playhead.Proofs.BackPressure
import Playhead.Proofs.BoundedLine
import Playhead.Proofs.Unwinding
import Playhead.Proofs.Rounds
import Playhead.Proofs.PlayingOut
import Playhead.Proofs.EarlyPictures
import Playhead.Proofs.FailedReads
import Playhead.Proofs.HostCalls
import Playhead.Proofs.RefusedSeeks
import Playhead.Proofs.QueueHistories
import Playhead.Proofs.BufferRotation
import Playhead.Proofs.Doubles
import Playhead.Proofs.FrameTimes
import Playhead.Proofs.PatternReads
import Playhead.Proofs.FirstFrames
import Playhead.Proofs.Schedules
import Playhead.Proofs.PatternWorkers
import Playhead.Proofs.SeekProgress
import Playhead.Proofs.SeekAccuracy
import Playhead.Proofs.ClockReadings
import Playhead.Proofs.DecodeLoop
import Playhead.Proofs.Rescaling
import Playhead.Proofs.PausedSessions
import Playhead.Proofs.ServedRequests
import Playhead.Proofs.PatternRuns
import Playhead.Proofs.PatternPictures
import Playhead.Proofs.JsonTexts
import Playhead.Proofs.Settings
import Playhead.Proofs.ShutRing
