import Cpm80.Main
import Cpm80.Proofs.CarriedNames
import Cpm80.Proofs.Checked.Sessions
import Cpm80.Proofs.CommandEffects
import Cpm80.Proofs.ConsoleQueue
import Cpm80.Proofs.ControlFlow
import Cpm80.Proofs.DataLines
import Cpm80.Proofs.DecimalChains
import Cpm80.Proofs.DriveKinds
import Cpm80.Proofs.EditedLines
import Cpm80.Proofs.ExpressionReading
import Cpm80.Proofs.FileArguments
import Cpm80.Proofs.FlagsByte
import Cpm80.Proofs.FreshStart
import Cpm80.Proofs.HiddenEntries
import Cpm80.Proofs.HostCoherence
import Cpm80.Proofs.InputTiming
import Cpm80.Proofs.InterruptGating
import Cpm80.Proofs.Isolation
import Cpm80.Proofs.Lifetimes
import Cpm80.Proofs.LineBuffers
import Cpm80.Proofs.Listings
import Cpm80.Proofs.Looks
import Cpm80.Proofs.MemoryEffects
import Cpm80.Proofs.NamesOnDrives
import Cpm80.Proofs.ParkedReads
import Cpm80.Proofs.Patterns
import Cpm80.Proofs.ProgramFiles
import Cpm80.Proofs.ProgramRuns
import Cpm80.Proofs.ProgramStarts
import Cpm80.Proofs.PromptGivenBack
import Cpm80.Proofs.Reopening
import Cpm80.Proofs.RespelledSources
import Cpm80.Proofs.RunBounds
import Cpm80.Proofs.RunEndings
import Cpm80.Proofs.SavedBuffers
import Cpm80.Proofs.SavedMemory
import Cpm80.Proofs.SavedPrograms
import Cpm80.Proofs.SequentialAccess
import Cpm80.Proofs.ServerUsage
import Cpm80.Proofs.StatementCode
import Cpm80.Proofs.TwoPasses
import Cpm80.Recorder
