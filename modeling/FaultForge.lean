import FaultForge.Lib.FixedArray
import FaultForge.Lib.Transducer
import FaultForge.Lib.FirstFit
import FaultForge.Lib.SortedTable
import FaultForge.Lib.Monitor
import FaultForge.Lib.Crc
import FaultForge.Lib.WeightedChoice
import FaultForge.Lib.Congruential
import FaultForge.Lib.Delimited
import FaultForge.Lib.FloorMean
import FaultForge.Lib.WriteLog
import FaultForge.Lib.Words
import FaultForge.Lib.Decreasing
import FaultForge.Lib.LossyQueue
import FaultForge.Lib.PatternTest
import FaultForge.Lib.Batching
import FaultForge.Lib.MarkedBlocks
import FaultForge.Wire
import FaultForge.Checksum
import FaultForge.Generator
import FaultForge.Parser
import FaultForge.Framing
import FaultForge.Resync
import FaultForge.Injector
import FaultForge.Selection
import FaultForge.Ledger
import FaultForge.Dut
import FaultForge.Codec
import FaultForge.Campaign
import FaultForge.Scoring
import FaultForge.Report
import FaultForge.Invariance
import FaultForge.Window
import FaultForge.Overflow
import FaultForge.Rate
import FaultForge.Csv
import FaultForge.Control
import FaultForge.Pipeline
import FaultForge.Bench
import FaultForge.Session
import FaultForge.Noticed
import FaultForge.Calibration
import FaultForge.Sequence
import FaultForge.Bursts
import FaultForge.Wraparound
import FaultForge.Replays
import FaultForge.Delays
import FaultForge.Analog
import FaultForge.Sampling
import FaultForge.StackCanary
import FaultForge.Commands
import FaultForge.Misread
import FaultForge.Hearing
import FaultForge.Drain
import FaultForge.Confirmation
import FaultForge.Flawless
import FaultForge.Chronology
import FaultForge.UsbTask
import FaultForge.Latecomer
import FaultForge.SelfTest
import FaultForge.Announced
import FaultForge.Elapsed
import FaultForge.Packets
import FaultForge.Budget
import FaultForge.Arguments
import FaultForge.Rotation
import FaultForge.Loopback
import FaultForge.Seeds
import FaultForge.Relevant
import FaultForge.Midstream
import FaultForge.Acceptance
import FaultForge.Losses
import FaultForge.Figures
import FaultForge.Randomness
