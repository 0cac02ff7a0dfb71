import Turnstile.Remote.Address
import Turnstile.Settings
import Turnstile.Sim.Scenario
import Turnstile.Proofs.Runs
import Turnstile.Proofs.Schedule
import Turnstile.Proofs.Names
import Turnstile.Proofs.Admission.Course
import Turnstile.Proofs.Admission.Account
import Turnstile.Proofs.Admission.Discipline
import Turnstile.Proofs.Admission.Cancel
import Turnstile.Proofs.Admission.Booking
import Turnstile.Proofs.Admission.Ranking
import Turnstile.Proofs.Admission.Desk
import Turnstile.Proofs.Admission.Room
import Turnstile.Proofs.Admission.Tidy
import Turnstile.Proofs.Admission.Turns
import Turnstile.Proofs.Admission.Serial
import Turnstile.Proofs.Admission.Fallback
import Turnstile.Proofs.Admission.Order
import Turnstile.Proofs.Admission.Report
import Turnstile.Proofs.Admission.Custody
import Turnstile.Proofs.Admission.Tiers
import Turnstile.Proofs.Admission.Failover
import Turnstile.Proofs.Admission.Hall
import Turnstile.Proofs.Admission.Sweeps
import Turnstile.Proofs.Admission.Granted
import Turnstile.Proofs.Local.Latches
import Turnstile.Proofs.Local.Traffic
import Turnstile.Proofs.Local.Queue
import Turnstile.Proofs.Local.Sound
import Turnstile.Proofs.Local.Exclusion
import Turnstile.Proofs.Local.Fairness
import Turnstile.Proofs.Local.Overdraft
import Turnstile.Proofs.Local.Endings
import Turnstile.Proofs.Local.Conservation
import Turnstile.Proofs.Local.Callers
import Turnstile.Proofs.Local.Upkeep
import Turnstile.Proofs.Local.Pruned
import Turnstile.Proofs.Local.Tokens
import Turnstile.Proofs.Remote.Lower
import Turnstile.Proofs.Remote.Aside
import Turnstile.Proofs.Remote.Lease
import Turnstile.Proofs.Remote.Watch
import Turnstile.Proofs.Remote.Expiry
import Turnstile.Proofs.Remote.Polling
import Turnstile.Proofs.Local.Neighbors
import Turnstile.Proofs.Local.Separation
import Turnstile.Proofs.Local.Renewal
import Turnstile.Proofs.Local.Revival
import Turnstile.Proofs.Local.Abandoned
import Turnstile.Proofs.Keyspaces
import Turnstile.Proofs.Local.Deadlines
import Turnstile.Proofs.Local.Parts
import Turnstile.Proofs.Local.Heard
import Turnstile.Proofs.Settings
import Turnstile.Proofs.Admission.Accepted
import Turnstile.Proofs.Shelves
import Turnstile.Proofs.Bookkeeping
import Turnstile.Proofs.Environment
import Turnstile.Proofs.Notices
import Turnstile.Proofs.Json.Forms
import Turnstile.Proofs.Remote.Returns
import Turnstile.Proofs.Vigils
import Turnstile.Proofs.Local.Vigils
import Turnstile.Proofs.Remote.Vigils
import Turnstile.Proofs.Limiters
