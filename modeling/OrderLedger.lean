import OrderLedger.Main
import OrderLedger.Report
import OrderLedger.Service.Changes
import OrderLedger.Service.Questions
import OrderLedger.Service.Transaction
import OrderLedger.Settings.File
import OrderLedger.Simulation
import OrderLedger.Proofs.Store.Work
import OrderLedger.Proofs.Calculations
import OrderLedger.Proofs.Order.Drafts
import OrderLedger.Proofs.Store.Records
import OrderLedger.Proofs.Store.Statements
import OrderLedger.Proofs.Shop.LineEntries
import OrderLedger.Proofs.Shop.Basic
import OrderLedger.Proofs.Shop.Paying
import OrderLedger.Proofs.Shop.Placing
import OrderLedger.Proofs.Shop.GivingBack
import OrderLedger.Proofs.Shop.StockKeeping
import OrderLedger.Proofs.Atomicity
import OrderLedger.Proofs.Run.Actions
import OrderLedger.Proofs.Run.Basic
import OrderLedger.Proofs.Store.Statuses
import OrderLedger.Proofs.Integrity
import OrderLedger.Proofs.Stock.Conservation
import OrderLedger.Proofs.Text.Decimal
import OrderLedger.Proofs.Time.Calendar
import OrderLedger.Proofs.Time.Rfc3339
import OrderLedger.Proofs.Json.Strings
import OrderLedger.Proofs.Json.RoundTrip
import OrderLedger.Proofs.Json.Wire
import OrderLedger.Proofs.Json.Respelling
import OrderLedger.Proofs.Json.Formats
import OrderLedger.Proofs.Formats
import OrderLedger.Proofs.Receipts
import OrderLedger.Proofs.Payment.Rows
import OrderLedger.Proofs.Run.Values
import OrderLedger.Proofs.Payment.Records
import OrderLedger.Proofs.Payment.Once
import OrderLedger.Proofs.Placing.Attempts
import OrderLedger.Proofs.Placing.Steps
import OrderLedger.Proofs.Placing.Once
import OrderLedger.Proofs.Placing.Receipts
import OrderLedger.Proofs.Tally
import OrderLedger.Proofs.Sorting
import OrderLedger.Proofs.Stock.Sums
import OrderLedger.Proofs.Shop.Answers
import OrderLedger.Proofs.Order.Lifecycle
import OrderLedger.Proofs.Order.Rows
import OrderLedger.Proofs.Shop.Selling
import OrderLedger.Proofs.Placing.StockCheck
import OrderLedger.Proofs.Text.Order
import OrderLedger.Proofs.Time.Order
import OrderLedger.Proofs.Shop.Keys
import OrderLedger.Proofs.Remembered.Claims
import OrderLedger.Proofs.Remembered.Calls
import OrderLedger.Proofs.Remembered.Lifetime
import OrderLedger.Proofs.Store.Timeline
import OrderLedger.Proofs.Text.Blank
import OrderLedger.Proofs.Validation
import OrderLedger.Proofs.Order.Totals
import OrderLedger.Proofs.Order.Selections
import OrderLedger.Proofs.Order.Expansion
import OrderLedger.Proofs.Order.Acceptance
import OrderLedger.Proofs.Order.Amounts
import OrderLedger.Proofs.Order.Kept
import OrderLedger.Proofs.Order.Details
import OrderLedger.Proofs.Text.Bytes
import OrderLedger.Proofs.Stock.Events
import OrderLedger.Proofs.Stock.Announcements
import OrderLedger.Proofs.Stock.Readable
import OrderLedger.Proofs.Stock.Reads
import OrderLedger.Proofs.Order.Footprint
import OrderLedger.Proofs.Order.Moved
import OrderLedger.Proofs.Feed.Queue
import OrderLedger.Proofs.Feed.Registry
import OrderLedger.Proofs.Feed.Publications
import OrderLedger.Proofs.Feed.Visits
import OrderLedger.Proofs.Feed.Subscriptions
import OrderLedger.Proofs.Feed.Publishers
import OrderLedger.Proofs.Constraints
import OrderLedger.Proofs.Store.Preserved
import OrderLedger.Proofs.Store.Cascade
import OrderLedger.Proofs.Store.Links
import OrderLedger.Proofs.Links
import OrderLedger.Proofs.Store.Heedless
import OrderLedger.Proofs.Shop.Heedless
import OrderLedger.Proofs.Store.Agrees
import OrderLedger.Proofs.Remembered.Purged
import OrderLedger.Proofs.Remembered.Purging
import OrderLedger.Proofs.Stock.Volume
import OrderLedger.Proofs.Order.Goods
import OrderLedger.Proofs.Store.HandOvers
import OrderLedger.Proofs.Deeds.Basic
import OrderLedger.Proofs.Deeds.Writes
import OrderLedger.Proofs.Deeds.Steps
import OrderLedger.Proofs.Deeds.Locality
import OrderLedger.Proofs.Deeds.Independence
import OrderLedger.Proofs.Payment.Reports
import OrderLedger.Proofs.Order.Cleanup
import OrderLedger.Proofs.Shop.HandingOver
import OrderLedger.Proofs.HandOvers
import OrderLedger.Proofs.Text.Spans
import OrderLedger.Proofs.Money
import OrderLedger.Proofs.Payment.Totals
import OrderLedger.Proofs.Store.Listing
import OrderLedger.Proofs.Store.MenuSlots
import OrderLedger.Proofs.Toml.Strings
import OrderLedger.Proofs.Toml.Lines
import OrderLedger.Proofs.Toml.Documents
import OrderLedger.Proofs.Settings
