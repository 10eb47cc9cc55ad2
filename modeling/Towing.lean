import Towing.Process.Basic
import Towing.Process.Contract
import Towing.Process.Runs
import Towing.Process.Transaction
import Towing.Db.Ledger
import Towing.Db.LedgerService
import Towing.Db.LedgerIntegrity
import Towing.Db.LedgerConcurrency
import Towing.Arith.Rounding
import Towing.Arith.Double
import Towing.Db.Keys
import Towing.Money.Settlement
import Towing.Money.World
import Towing.Money.Tables
import Towing.Money.Coupons
import Towing.Money.Gateway
import Towing.Money.Steps
import Towing.Money.Cancellation
import Towing.Money.PaymentsService
import Towing.Money.Channels
import Towing.Money.RefundsService
import Towing.Process.Workers
import Towing.Money.Frames
import Towing.Money.RefundPools
import Towing.Money.PaymentRows
import Towing.Money.Collecting
import Towing.Money.CollectingRequests
import Towing.Money.OnePayment
import Towing.Money.Sequential
import Towing.Money.SequentialRequests
import Towing.Money.TripMoney
import Towing.Money.Vouched
import Towing.Money.Sought
import Towing.Money.Funding
import Towing.Money.Reversal
import Towing.Money.ReversalCap
import Towing.Money.SettlementIdentities
import Towing.Process.Served
import Towing.Process.Calls
import Towing.Money.IntentOrders
import Towing.Money.WalletSpending
import Towing.Db.LedgerPosting
import Towing.Money.Payable
import Towing.Money.NothingToPay
import Towing.Payouts.PayoutsService
import Towing.Process.Debts
import Towing.Payouts.Conservation
import Towing.Payouts.PayoutRows
import Towing.Payouts.Executed
import Towing.Process.Lift
import Towing.Trips.Steps
import Towing.Trips.BookingsService
import Towing.Trips.DispatchService
import Towing.Trips.AdminBookingsService
import Towing.Trips.AdminDisputesService
import Towing.Money.Charging
import Towing.Trips.Operations
import Towing.Trips.Shifts
import Towing.Trips.AssignmentColumns
import Towing.Trips.FruitlessSearch
import Towing.Trips.CancellationRecord
import Towing.Trips.DisputeFreeze
import Towing.Process.ReadCommitted
import Towing.Trips.BookingStateMachineService
import Towing.Trips.LegalPath
import Towing.Money.CouponAccounting
import Towing.Money.CouponCaps
import Towing.Trips.EnRouteWatcher
import Towing.Trips.OwnJob
import Towing.Trips.AskedOnce
import Towing.Trips.ActiveBookings
import Towing.Trips.Eligibility
import Towing.Trips.Reassigning
import Towing.Process.Moments
import Towing.Process.Paths
import Towing.Trips.Clock
import Towing.Trips.EnRouteEvidence
import Towing.Trips.OfferWindows
import Towing.Trips.OneOffer
import Towing.Presence.Services
import Towing.Presence.Steps
import Towing.Presence.Justified
import Towing.Presence.LastFix
import Towing.Presence.Candidates
import Towing.Presence.Offline
import Towing.Presence.Forward
import Towing.Common.RedisLock
import Towing.Common.LockOwners
import Towing.Auth.Steps
import Towing.Auth.TokenService
import Towing.Auth.Justified
import Towing.Auth.Rotation
import Towing.Auth.Revocation
import Towing.Auth.SessionWindows
import Towing.Common.Idempotency
import Towing.Common.Intercepted
import Towing.Common.Fingerprints
import Towing.Common.Slots
import Towing.Common.OneEffect
import Towing.Common.Breaker
import Towing.Pricing.RateCard
import Towing.Pricing.World
import Towing.Pricing.AdminConfigService
import Towing.Pricing.FreshCard
import Towing.Pricing.Guardrail
import Towing.Money.PaymentStatuses
import Towing.Common.Handlers
import Towing.Sos.Justified
import Towing.Sos.OneTruth
import Towing.Handset.Flushing
import Towing.Handset.Justified
import Towing.Handset.Agreement
import Towing.Handset.Reconciled
import Towing.Handset.Draining
import Towing.Handset.BufferAgrees
import Towing.Arith.Apportion
import Towing.Money.SplitPoolN
import Towing.Money.RupeeStrings
import Towing.Money.RupeeRoundTrip
import Towing.Money.RupeeDisplay
import Towing.Money.ProjectEarnings
import Towing.Pricing.Fare
import Towing.Pricing.FareLaws
import Towing.Pricing.PublishedBands
import Towing.Arith.Tally
import Towing.Arith.Standing
import Towing.Dispatch.CandidateSelection
import Towing.Dispatch.SelectionLaws
import Towing.Common.Schema
import Towing.Dispatch.DispatchConfig
import Towing.Dispatch.ConfigLayers
import Towing.Dispatch.AdminOffer
import Towing.Dispatch.AdminJudged
import Towing.Dispatch.SearchProgress
import Towing.Tracking.EtaMath
import Towing.Tracking.Smoothing
import Towing.Tracking.EtaPace
import Towing.Tracking.EtaTriggers
import Towing.Common.Rfc4180
import Towing.Common.Csv
import Towing.Realtime.Interpolation
import Towing.Realtime.MarkerMotion
import Towing.Process.ExpiringKey
import Towing.Common.Throttling
import Towing.Common.ThrottleWindows
import Towing.Process.OrderedMap
import Towing.Realtime.LocationBatcher
import Towing.Realtime.FleetMaps
import Towing.Auth.OtpRate
import Towing.Auth.OtpLimits
import Towing.Auth.OtpRuns
import Towing.Routing.Polyline
import Towing.Routing.LegPolyline
import Towing.Process.Keyset
import Towing.Bookings.Feeds
import Towing.Money.EarningsProjector
import Towing.Money.DriftAudit
import Towing.Earnings.Queue
import Towing.Earnings.Converges
import Towing.Quotes.OneBooking
import Towing.Db.LedgerProgress
import Towing.Referrals.Rewards
import Towing.Process.Permits
import Towing.Auth.SecondFactor
import Towing.Invoices.OneInvoice
import Towing.Notifications.ToldOnce
