import LayeredCache.Proofs.Collapse
import LayeredCache.Proofs.Counting
import LayeredCache.Proofs.Freshness
import LayeredCache.Proofs.Overdue
import LayeredCache.Session.Queue
import LayeredCache.Session.View
import LayeredCache.Stack.Config
import LayeredCache.Proofs.Ledger
import LayeredCache.Proofs.Pruning
import LayeredCache.Proofs.Aging
import LayeredCache.Proofs.Pressure
import LayeredCache.Proofs.Losses
import LayeredCache.Proofs.Fragile
import LayeredCache.Proofs.Excused
import LayeredCache.Proofs.Nested
import LayeredCache.Proofs.KeyLists
import LayeredCache.Proofs.Healing
import LayeredCache.Proofs.Bounded
import LayeredCache.Proofs.Renewal
import LayeredCache.Proofs.Accounts
import LayeredCache.Proofs.Shows
import LayeredCache.Proofs.Slots
import LayeredCache.Proofs.Crowding
import LayeredCache.Proofs.Passing
import LayeredCache.Proofs.Oldest
import LayeredCache.Proofs.Delivery
import LayeredCache.Proofs.Chosen
import LayeredCache.Proofs.Making
import LayeredCache.Proofs.Attempts
import LayeredCache.Proofs.Ring
import LayeredCache.Proofs.Purging
import LayeredCache.Proofs.Weights
import LayeredCache.Proofs.Successive
import LayeredCache.Proofs.Amortized
import LayeredCache.Proofs.CutShort
import LayeredCache.Proofs.ClosedForm
import LayeredCache.Proofs.Recycling
import LayeredCache.Proofs.Bookkeeping
import LayeredCache.Proofs.Numbered
import LayeredCache.Proofs.Refused
