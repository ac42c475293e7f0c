import Harvest.Backend.Scripted
import Harvest.Main
import Harvest.Queue.Memory
import Harvest.Proofs.Archive.Composition
import Harvest.Proofs.Archive.Log
import Harvest.Proofs.Archive.Torn
import Harvest.Proofs.Backend.Cursor
import Harvest.Proofs.Backend.Rereading
import Harvest.Proofs.Backend.Streaming
import Harvest.Proofs.Files.Tidying
import Harvest.Proofs.Job.Admission
import Harvest.Proofs.Job.ArchivedTwice
import Harvest.Proofs.Job.Delivery
import Harvest.Proofs.Job.Fatal
import Harvest.Proofs.Job.Lossless
import Harvest.Proofs.Job.ReadBack
import Harvest.Proofs.Job.Replays
import Harvest.Proofs.Job.StartDates
import Harvest.Proofs.Job.Turns
import Harvest.Proofs.Job.Samples
import Harvest.Proofs.Job.Verdict
import Harvest.Proofs.Queue.Refinement
import Harvest.Proofs.Command.Report
import Harvest.Proofs.Command.Override
import Harvest.Proofs.Backend.Identifiers
import Harvest.Proofs.Backend.Narrowing
import Harvest.Proofs.Job.OpenArchive
import Harvest.Proofs.Job.Documents
import Harvest.Proofs.Calendar.Denoted
import Harvest.Proofs.Json.Given
import Harvest.Proofs.Json.Members
