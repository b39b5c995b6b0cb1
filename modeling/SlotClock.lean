import SlotClock.Bench.FrameSession
import SlotClock.Bench.RateSession
import SlotClock.Bench.Recorder
import SlotClock.Bench.SignalSession
import SlotClock.Bench.SourceSession
import SlotClock.Bench.TimerSession
import SlotClock.Proofs.Counter
import SlotClock.Proofs.Conversion
import SlotClock.Proofs.Totals
import SlotClock.Proofs.Clock
import SlotClock.Proofs.Readings
import SlotClock.Proofs.Outcome
import SlotClock.Proofs.Run
import SlotClock.Proofs.Conservation
import SlotClock.Proofs.Kick
import SlotClock.Proofs.Invariant
import SlotClock.Proofs.Target
import SlotClock.Proofs.Anchor
import SlotClock.Proofs.OnClock
import SlotClock.Proofs.Chain
import SlotClock.Proofs.OnCourse
import SlotClock.Proofs.Protocol
import SlotClock.Proofs.Interval
import SlotClock.Proofs.Debt
import SlotClock.Proofs.SymbolClock
import SlotClock.Proofs.Simulation
import SlotClock.Proofs.Backends
import SlotClock.Proofs.TimedHost
import SlotClock.Proofs.Punctual
import SlotClock.Proofs.Reliable
import SlotClock.Proofs.Contained
import SlotClock.Proofs.Faultless
import SlotClock.Proofs.OnTime
import SlotClock.Proofs.Replaced
import SlotClock.Proofs.Wakeup
import SlotClock.Proofs.Waiters
import SlotClock.Proofs.Indistinct
import SlotClock.Proofs.Spurious
import SlotClock.Proofs.Periods
import SlotClock.Proofs.FramePeriods
import SlotClock.Proofs.FrameCompare
import SlotClock.Proofs.PeriodEnd
import SlotClock.Proofs.Chunking
import SlotClock.Proofs.Missed
import SlotClock.Proofs.CatchUp
import SlotClock.Proofs.Decomposition
