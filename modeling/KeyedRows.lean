import KeyedRows.Catalog.Basic
import KeyedRows.Client
import KeyedRows.CommandLine
import KeyedRows.Counters
import KeyedRows.Double.Decimal
import KeyedRows.Double.Integer
import KeyedRows.FilterCache
import KeyedRows.Frame
import KeyedRows.Main
import KeyedRows.Proofs.Catalog.Reached
import KeyedRows.Proofs.Client.Reached
import KeyedRows.Proofs.Frame.Chunks
import KeyedRows.Proofs.Frame.RoundTrip
import KeyedRows.Proofs.Server.Conversation
import KeyedRows.Proofs.Service.Atomicity
import KeyedRows.Proofs.Service.Isolation
import KeyedRows.Proofs.Service.Runs
import KeyedRows.Proofs.Service.Transparency
import KeyedRows.Proofs.Table.KeyCells
import KeyedRows.Proofs.Table.WellFormed
import KeyedRows.Proofs.Value.Order
import KeyedRows.Proofs.Wire.Canonical
import KeyedRows.Proofs.Wire.Lawful
import KeyedRows.Proofs.Wire.Messages
import KeyedRows.Server.Basic
import KeyedRows.Service
import KeyedRows.Session
import KeyedRows.Settings.Basic
import KeyedRows.Table.Aggregate
import KeyedRows.TaskQueue
import KeyedRows.Wire.Message
import KeyedRows.Proofs.TaskQueue.Steps
import KeyedRows.Proofs.TaskQueue.Workers
import KeyedRows.Proofs.TaskQueue.Accounts
import KeyedRows.Proofs.TaskQueue.Order
import KeyedRows.Proofs.Service.Brevity
import KeyedRows.Proofs.TaskQueue.Rejections
import KeyedRows.Proofs.Server.Effects
import KeyedRows.Proofs.Wire.Spellings
import KeyedRows.Proofs.Service.Leniency
import KeyedRows.Proofs.Catalog.Chronicle
import KeyedRows.Proofs.FilterCache.Transparency
import KeyedRows.Proofs.Table.Scan
import KeyedRows.Proofs.Table.RowByRow
import KeyedRows.Proofs.Table.Matching
import KeyedRows.Proofs.Table.Patching
import KeyedRows.Proofs.Table.SaveOrder
import KeyedRows.Proofs.Service.Batches
import KeyedRows.Proofs.Table.Extremes
import KeyedRows.Proofs.Table.Sums
import KeyedRows.Proofs.Value.Numeric
import KeyedRows.Proofs.Filter.Distinct
import KeyedRows.Proofs.Table.Combining
import KeyedRows.Proofs.FilterCache.Recency
import KeyedRows.Proofs.Frame.Headers
import KeyedRows.Proofs.Frame.Progress
import KeyedRows.Proofs.Server.Tasks
