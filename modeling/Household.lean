import Household.Recurrence.Writer
import Household.Calendar.Text
import Household.Calendar.Duration
import Household.Json.Reader
import Household.Text.Upper
import Household.Expansion.Occurrence
import Household.Reminder.Notice
import Household.Change
import Household.Settings
import Household.Throttle
import Household.Ledger
import Household.Worker
import Household.Simulation.Step
import Household.Proofs.Calendar.Civil
import Household.Proofs.Calendar.Comparison
import Household.Proofs.Expansion.Ascent
import Household.Proofs.Expansion.Selection
import Household.Proofs.Realtime.Place
import Household.Proofs.Realtime.Turn
import Household.Proofs.Realtime.Queue
import Household.Proofs.Realtime.Acceptance
import Household.Proofs.Realtime.Delivery
import Household.Proofs.Reminder.Course
import Household.Proofs.Reminder.Pushes
import Household.Proofs.Reminder.Notices
import Household.Proofs.Reminder.Deduplication
import Household.Proofs.Recurrence.Stamp
import Household.Proofs.Text.Pieces
import Household.Proofs.Recurrence.Entries
import Household.Proofs.Recurrence.Parts
import Household.Proofs.Recurrence.RoundTrip
import Household.Proofs.Realtime.Lifecycle
import Household.Proofs.Recurrence.Grammar
import Household.Proofs.Recurrence.Reading
import Household.Proofs.Expansion.Sequence
import Household.Proofs.Chore.Cycle
import Household.Proofs.Chore.DueToday
import Household.Proofs.Reminder.Beats
import Household.Proofs.Reminder.Coverage
import Household.Proofs.Realtime.Isolation
import Household.Proofs.Realtime.Cleanup
import Household.Proofs.Reminder.Retention
import Household.Proofs.Reminder.Faults
import Household.Proofs.Reminder.Containment
import Household.Proofs.Throttle.Isolation
import Household.Proofs.Throttle.Windows
import Household.Proofs.Reminder.Laws
import Household.Proofs.Reminder.Errands
import Household.Proofs.Reminder.Bursts
import Household.Proofs.Reminder.Occasions
import Household.Proofs.Reminder.Recipients
import Household.Proofs.Expansion.Weekdays
import Household.Proofs.Expansion.Search
import Household.Proofs.Expansion.Months
import Household.Proofs.Expansion.Shape
import Household.Proofs.Chore.Standing
import Household.Proofs.Expansion.Anchor
import Household.Proofs.Expansion.Splitting
import Household.Proofs.Expansion.Stepping
import Household.Proofs.Recurrence.Overlong
import Household.Proofs.Chore.RuleText
import Household.Proofs.Expansion.Storage
import Household.Proofs.Reminder.Accounting
import Household.Proofs.Throttle.Counting
import Household.Proofs.Worker.Pacing
import Household.Proofs.Ledger.History
import Household.Proofs.Change.Wire
import Household.Proofs.Number.Names
import Household.Proofs.Settings.Usable
import Household.Proofs.Realtime.Cancellation
import Household.Proofs.Realtime.Channel
import Household.Proofs.Realtime.Refinement
