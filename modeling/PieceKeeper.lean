import PieceKeeper.Depot
import PieceKeeper.Ledger.Script
import PieceKeeper.Locks
import PieceKeeper.Main
import PieceKeeper.Proofs.Cid.Reading
import PieceKeeper.Proofs.Cid.Grammar
import PieceKeeper.Proofs.Cid.Commitments
import PieceKeeper.Proofs.Cid.Text
import PieceKeeper.Proofs.Commitment.Binding
import PieceKeeper.Proofs.Commitment.Chunks
import PieceKeeper.Proofs.Commitment.Counter
import PieceKeeper.Proofs.Commitment.Sector
import PieceKeeper.Proofs.Commitment.Sizes
import PieceKeeper.Proofs.Commitment.PieceSize
import PieceKeeper.Proofs.Commitment.Spreading
import PieceKeeper.Proofs.Commitment.Streaming
import PieceKeeper.Proofs.Commitment.Tree
import PieceKeeper.Proofs.Company.Basic
import PieceKeeper.Proofs.Company.Book
import PieceKeeper.Proofs.Company.Exclusion
import PieceKeeper.Proofs.Ledger.Endpoint
import PieceKeeper.Proofs.Ledger.Records
import PieceKeeper.Proofs.Operation.Errors
import PieceKeeper.Proofs.Operation.Executions
import PieceKeeper.Proofs.Operation.Job
import PieceKeeper.Proofs.Operation.Laws
import PieceKeeper.Proofs.Operation.Lookups
import PieceKeeper.Proofs.Operation.Submit
import PieceKeeper.Proofs.Operation.Upload
import PieceKeeper.Proofs.Run.Alone
import PieceKeeper.Proofs.Run.Basic
import PieceKeeper.Proofs.Run.Blobs
import PieceKeeper.Proofs.Run.Chronicle
import PieceKeeper.Proofs.Run.Columns
import PieceKeeper.Proofs.Run.Contents
import PieceKeeper.Proofs.Run.Course
import PieceKeeper.Proofs.Run.Drafts
import PieceKeeper.Proofs.Run.Errors
import PieceKeeper.Proofs.Run.Fidelity
import PieceKeeper.Proofs.Run.Follows
import PieceKeeper.Proofs.Run.Ledger
import PieceKeeper.Proofs.Run.Lifecycle
import PieceKeeper.Proofs.Run.Resolution
import PieceKeeper.Proofs.Run.Rows
import PieceKeeper.Proofs.Run.Rulings
import PieceKeeper.Proofs.Run.Solo
import PieceKeeper.Proofs.Run.Submission
import PieceKeeper.Proofs.Operation.Verdicts
import PieceKeeper.Proofs.Run.Verdicts
import PieceKeeper.Proofs.Store.RoundTrip
import PieceKeeper.Proofs.Operation.Answers
import PieceKeeper.Proofs.Run.RoundTrip
import PieceKeeper.Proofs.Store.Row
import PieceKeeper.Proofs.Store.Shelf
import PieceKeeper.Proofs.Store.Table
import PieceKeeper.Schedule.Engine
import PieceKeeper.Proofs.Company.Turns
import PieceKeeper.Proofs.Company.Effects
import PieceKeeper.Proofs.Company.Moves
import PieceKeeper.Proofs.Company.Exits
import PieceKeeper.Proofs.Company.Stand
import PieceKeeper.Proofs.Company.Refinement
import PieceKeeper.Proofs.Company.Requests
import PieceKeeper.Proofs.Company.Errands
import PieceKeeper.Proofs.Company.Order
import PieceKeeper.Proofs.Company.Questions
import PieceKeeper.Proofs.Company.Simulation
import PieceKeeper.Proofs.Company.Linear
import PieceKeeper.Proofs.Locks.Places
import PieceKeeper.Proofs.Locks.References
import PieceKeeper.Proofs.Locks.Safety
import PieceKeeper.Proofs.Locks.Lines
import PieceKeeper.Proofs.Schedule.Stints
import PieceKeeper.Proofs.Schedule.Dispatch
import PieceKeeper.Proofs.Schedule.Punctual
import PieceKeeper.Proofs.Locks.Discipline
import PieceKeeper.Proofs.Locks.Tallies
import PieceKeeper.Proofs.Schedule.Slices
import PieceKeeper.Proofs.Schedule.Diary
import PieceKeeper.Proofs.Schedule.Lodgings
import PieceKeeper.Proofs.Schedule.Rounds
import PieceKeeper.Proofs.Schedule.Attendance
import PieceKeeper.Proofs.Schedule.Stopping
import PieceKeeper.Proofs.Schedule.Timetable
import PieceKeeper.Proofs.Service.Rules
import PieceKeeper.Proofs.Service.Stock
import PieceKeeper.Proofs.Service.Effects
import PieceKeeper.Proofs.Service.Traffic
import PieceKeeper.Proofs.Service.Orders
import PieceKeeper.Proofs.Service.Frame
import PieceKeeper.Proofs.Service.Uploads
import PieceKeeper.Proofs.Round.Basic
import PieceKeeper.Proofs.Round.Look
import PieceKeeper.Proofs.Round.Count
import PieceKeeper.Proofs.Round.Fold
import PieceKeeper.Proofs.Round.Rows
import PieceKeeper.Proofs.Round.Repeats
import PieceKeeper.Proofs.Company.Commute
import PieceKeeper.Proofs.Store.Order
import PieceKeeper.Proofs.Piece.Format
import PieceKeeper.Proofs.Service.Start
import PieceKeeper.Proofs.Text.Percent
import PieceKeeper.Proofs.Url.Path
import PieceKeeper.Proofs.Url.Parts
import PieceKeeper.Proofs.Ledger.Lookup
