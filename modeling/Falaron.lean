import Falaron.OrderCrash
import Falaron.WalletConcurrent
import Falaron.PaymentBooks
import Falaron.PaymentRun
import Falaron.MarginFloor
import Falaron.DerivedKey
import Falaron.DepositCommission
import Falaron.OrderCommission
import Falaron.Replay
import Falaron.PerfectPanel
import Falaron.DoubleTap
import Falaron.SyncGuard
import Falaron.LedgerAudit
import Falaron.LedgerReplay
import Falaron.AdminLogin
import Falaron.Engine
import Falaron.Sessions
import Falaron.MiniAppInit
import Falaron.ProviderUrl
import Falaron.RazorpayWebhook
import Falaron.Premium
import Falaron.ProviderRegistry
import Falaron.RateLimiter
import Falaron.SyncBatch
import Falaron.StripeSignature
import Falaron.StripeWebhook
import Falaron.DepositRace
import Falaron.OrderPlacing
import Falaron.OrderRefunds
import Falaron.OrderPricing
import Falaron.OrderIsolation
import Falaron.OrderMonitor
import Falaron.Txn.Run
import Falaron.PaymentConcurrent
import Falaron.ResellerProfiles
import Falaron.OrderableServices
import Falaron.OrderPayback
import Falaron.OrderCancel
import Falaron.OrderSubmission
import Falaron.OrderColumns
import Falaron.Tenants
import Falaron.TenantBots
import Falaron.Broadcasts
import Falaron.ServiceIds
import Falaron.SlidingWindow
import Falaron.RetryAfter
import Falaron.QuoteLaws
import Falaron.RawServices
import Falaron.CatalogMerge
import Falaron.Queue
import Falaron.Reconciliation
import Falaron.StatusRounds
import Falaron.Py.DecimalOrder
import Falaron.CategoryVisibility
import Falaron.BatchStatus
import Falaron.PriceLaws
import Falaron.MarkupOrder
import Falaron.CouponLimits
import Falaron.CouponOwners
import Falaron.NewInvoices
import Falaron.TextParts
import Falaron.OrderLines
import Falaron.ReferralPreview
import Falaron.StripeAmounts
import Falaron.ServiceChanges
import Falaron.Templates
import Falaron.Txn.Holds
import Falaron.Postings
import Falaron.OrderPostings
import Falaron.PaymentPostings
import Falaron.House
import Falaron.Tally
import Falaron.HouseBooks
import Falaron.HouseAccounts
import Falaron.Txn.Request
import Falaron.Members
import Falaron.MemberSteps
import Falaron.MemberRun
import Falaron.MemberCodes
import Falaron.MemberBooks
import Falaron.MemberRights
