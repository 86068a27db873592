import Roster.Report
import Roster.Defect
import Roster.WarmStart
import Roster.Exchange.Schedule
import Roster.Exchange.Finding
import Roster.Json.Reader
import Roster.Proofs.Clique
import Roster.Proofs.Growth
import Roster.Proofs.Filling
import Roster.Proofs.Seats
import Roster.Proofs.Feasibility
import Roster.Proofs.SortedMap
import Roster.Proofs.Written
import Roster.Proofs.Placement
import Roster.Proofs.Lookup
import Roster.Proofs.HardRules
import Roster.Proofs.Rerun
import Roster.Proofs.Ties
import Roster.Proofs.Pinning
import Roster.Proofs.Completeness
import Roster.Proofs.Arrangement
import Roster.Proofs.SameSession
import Roster.Proofs.Alone
import Roster.Proofs.SeatOrder
import Roster.Proofs.Rearranged
import Roster.Proofs.Defects
import Roster.Proofs.Wishes
import Roster.Proofs.OfAssignments
import Roster.Proofs.Scope
import Roster.Proofs.OrderFree
import Roster.Proofs.SaveGate
import Roster.Proofs.Recount
import Roster.Proofs.Flatten
import Roster.Proofs.Apart
import Roster.Proofs.Meetings
import Roster.Proofs.Encounters
import Roster.Proofs.Renaming
import Roster.Proofs.Equivariance
import Roster.Proofs.SessionLists
import Roster.Proofs.Exchange.RoundTrip
import Roster.Proofs.ForeignKinds
import Roster.Proofs.Components
import Roster.Proofs.CliqueSeats
import Roster.Proofs.Crowding
import Roster.Proofs.Seeding
import Roster.Proofs.Evenness
import Roster.Proofs.Arrival
import Roster.Proofs.Balance
import Roster.Proofs.BySession
import Roster.Proofs.PinnedTogether
import Roster.Proofs.Company
import Roster.Proofs.Rebuild
import Roster.Proofs.AssignmentDefects
import Roster.Proofs.ForestCalls
import Roster.Proofs.Bookkeeping
