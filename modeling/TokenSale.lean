import TokenSale.BuildLabel
import TokenSale.Desk
import TokenSale.Ledger.Record
import TokenSale.Metrics.Exposition
import TokenSale.SaleFile
import TokenSale.Proofs.Ledger.Step
import TokenSale.Proofs.Position
import TokenSale.Proofs.Ledger.Settlement
import TokenSale.Proofs.Desk.History
import TokenSale.Proofs.Ledger.Balance
import TokenSale.Proofs.Desk.Order
import TokenSale.Proofs.Desk.Deposits
import TokenSale.Proofs.Release
import TokenSale.Proofs.Desk.Payouts
import TokenSale.Proofs.Desk.Course
import TokenSale.Proofs.Ledger.Undo
import TokenSale.Proofs.Desk.Cap
import TokenSale.Proofs.Ledger.Posting
import TokenSale.Proofs.Ledger.Books
import TokenSale.Proofs.Desk.Books
import TokenSale.Proofs.Desk.Reserve
import TokenSale.Proofs.Desk.Solvency
import TokenSale.Proofs.Desk.Receipts
import TokenSale.Proofs.Desk.Session
import TokenSale.Proofs.Desk.Lifecycle
import TokenSale.Proofs.Ledger.Applied
import TokenSale.Proofs.Ledger.Evolution
import TokenSale.Proofs.Ledger.Trade
import TokenSale.Proofs.Desk.Undo
import TokenSale.Proofs.Desk.Claims
import TokenSale.Proofs.Refusal
import TokenSale.Proofs.Terms
import TokenSale.Proofs.Weighing
import TokenSale.Proofs.Desk.Backing
import TokenSale.Proofs.Desk.Refunds
import TokenSale.Proofs.Releasable
import TokenSale.Proofs.Ledger.Defects
import TokenSale.Proofs.Desk.Defects
import TokenSale.Proofs.Desk.Payable
import TokenSale.Proofs.Filling
import TokenSale.Proofs.Desk.Shares
import TokenSale.Proofs.Counters
import TokenSale.Proofs.Desk.Reconciled
import TokenSale.Proofs.Desk.Service
import TokenSale.Proofs.SaleFile
import TokenSale.Proofs.Desk.Retry
import TokenSale.Proofs.Curve
import TokenSale.Proofs.Crediting
import TokenSale.Proofs.Intake
import TokenSale.Proofs.BuildLabel
import TokenSale.Proofs.Instant
import TokenSale.Proofs.Reading.Outcome
import TokenSale.Proofs.Conversion
import TokenSale.Proofs.Desk.Service
