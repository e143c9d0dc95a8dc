import CouponIssuance.ServerB.Duplicate
import CouponIssuance.ServerB.Lemmas.Mark
import CouponIssuance.ServerC.Outbox
import CouponIssuance.ServerC.Query
import CouponIssuance.ServerC.Applications
import CouponIssuance.ServerC.EventIds
import CouponIssuance.ServerC.Redeemed
import CouponIssuance.ServerC.Redelivery
import CouponIssuance.ServerC.Settled
import CouponIssuance.ServerC.Declared
import CouponIssuance.System.Recovery
import CouponIssuance.System.ShortCircuit
import CouponIssuance.ServerB.Converged
import CouponIssuance.Kafka.Parse
import CouponIssuance.Kafka.Marked
import CouponIssuance.ServerC.Results
import CouponIssuance.System.RoundTrip
import CouponIssuance.ServerB.Find
import CouponIssuance.ServerB.Progress
import CouponIssuance.Kafka.Delivered
import CouponIssuance.System.Outcome
import CouponIssuance.System.Retry
import CouponIssuance.Common.Timestamps
import CouponIssuance.Kafka.WellTyped
import CouponIssuance.ServerC.Violated
import CouponIssuance.ServerC.RedeemApi
import CouponIssuance.ServerC.Placeholders
import CouponIssuance.ServerB.Retired
import CouponIssuance.ServerB.Punctual
import CouponIssuance.ServerB.Repeated
import CouponIssuance.ServerB.Independent
import CouponIssuance.ServerC.EventRefreshed
