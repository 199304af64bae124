import InterviewPrep.OrderMatching.Sequencer
import InterviewPrep.OrderMatching.Feed
import InterviewPrep.KvStore.Watching
import InterviewPrep.KvStore.RoundTrip
import InterviewPrep.Splitwise.Membership
import InterviewPrep.LruCache.Loads
import InterviewPrep.RateLimiting.Eviction
import InterviewPrep.Resilience.Probes
import InterviewPrep.Resilience.Tripping
import InterviewPrep.Payments.Idempotency
import InterviewPrep.Payments.Outbox
import InterviewPrep.JobScheduling.Dependencies
import InterviewPrep.Uploads.Quota
import InterviewPrep.Uploads.Assembly
import InterviewPrep.MovieBooking.Refunds
import InterviewPrep.Inventory.Replenishment
import InterviewPrep.Chess.Sessions
import InterviewPrep.Banking.Limits
import InterviewPrep.Rental.Charges
import InterviewPrep.Rental.Pickups
import InterviewPrep.PubSub.Workers
import InterviewPrep.Search.Phrases
import InterviewPrep.TaskQueue.Backoff
import InterviewPrep.TaskQueue.Cancellation
import InterviewPrep.Meetings.OffHours
import InterviewPrep.Meetings.Steps
import InterviewPrep.Hotel.Stays
import InterviewPrep.Elevators.HallCalls
import InterviewPrep.WebCrawler.BreadthFirst
import InterviewPrep.WebCrawler.Robots
import InterviewPrep.Vending.Balance
import InterviewPrep.FoodDelivery.Payments
import InterviewPrep.FoodDelivery.Batches
import InterviewPrep.CabBooking.Assignment
import InterviewPrep.CabBooking.Convergence
import InterviewPrep.Notifications.Preferences
import InterviewPrep.Logging.AsyncHandler
import InterviewPrep.Library.Fairness
import InterviewPrep.SnakesAndLadders.Game
import InterviewPrep.Mcp.CircuitBreaker
import InterviewPrep.Heaps.ReorganizeString
import InterviewPrep.Stacks.Calculator
import InterviewPrep.Palindromes.Manacher
import InterviewPrep.StringMatching.ZSearch
import InterviewPrep.AVL.Tree
import InterviewPrep.OrderMatching.FillOrKill
import InterviewPrep.OrderMatching.Ticks
import InterviewPrep.Splitwise.Allocation
import InterviewPrep.Resilience.RetryBudget
import InterviewPrep.RateLimiting.Duality
import InterviewPrep.RateLimiting.Permits
import InterviewPrep.KvStore.LeastUsed
import InterviewPrep.LruCache.LeastUsed
