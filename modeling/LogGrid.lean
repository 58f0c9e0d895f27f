import LogGrid.Base.LittleEndian
import LogGrid.Common.Message
import LogGrid.Base.Lines
import LogGrid.Base.Ifstream
import LogGrid.Worker.FileProcessor
import LogGrid.Base.Tiling
import LogGrid.Master.Chunks
import LogGrid.ChunkedSearch
import LogGrid.BatchCodec
import LogGrid.Net.Connection
import LogGrid.Master.SessionPath
import LogGrid.Base.Runs
import LogGrid.Base.Threads
import LogGrid.Base.TwoLevel
import LogGrid.Master.Scan
import LogGrid.Master.Server
import LogGrid.Master.System
import LogGrid.Master.Ledger
import LogGrid.Master.Polling
import LogGrid.Master.Workers
import LogGrid.Master.Slots
import LogGrid.Master.WorkConservation
import LogGrid.Net.Framing
import LogGrid.Master.Network
import LogGrid.Worker.WorkerClient
import LogGrid.Master.Answers
import LogGrid.Master.ResultFile
import LogGrid.BatchBounds
import LogGrid.Master.Malformed
import LogGrid.Master.TaskFidelity
import LogGrid.Master.LinesOnDisk
import LogGrid.Master.DirectoryTree
import LogGrid.Master.ScanCoverage
import LogGrid.Master.InputSandbox
import LogGrid.Worker.ThreadPool
import LogGrid.Net.Writer
import LogGrid.BatchSize
import LogGrid.Master.SearchController
import LogGrid.Master.EndToEnd
import LogGrid.Master.IdleSync
import LogGrid.Net.ServerInterface
import LogGrid.Base.Stoull
import LogGrid.Master.StatusLookup
import LogGrid.Master.WorkerEffects
import LogGrid.Base.Inevitable
import LogGrid.Net.Link
import LogGrid.Net.Backlog
import LogGrid.Master.CallsReturn
import LogGrid.Master.Dispatches
import LogGrid.Master.LostTasks
import LogGrid.Worker.WorkerNode
import LogGrid.Worker.Backlog
import LogGrid.BatchFits
import LogGrid.Cluster.Basic
import LogGrid.Cluster.Links
import LogGrid.Cluster.Honest
import LogGrid.Cluster.ExactlyOnce
import LogGrid.SearchService
import LogGrid.Master.ResultsSoFar
import LogGrid.Master.Refinement
import LogGrid.Cluster.Rest
import LogGrid.Cluster.Polls
import LogGrid.Cluster.Progress
