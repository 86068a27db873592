import Roster.Forest
import Roster.Problem

/-! People whom keep-together rules force into one group in a session.
Two active people are joined when one applicable rule names both; the classes of two
or more people are the cliques. An id that is active through several declarations
counts at its last place in the active list. -/

namespace Roster

def lastIndex? (ids : List String) (id : String) : Option Nat :=
  (ids.reverse.findIdx? (· = id)).map (ids.length - 1 - ·)

/-- Split a labelled list into one list per label, labels in order of first use. -/
def classes (l : List (Nat × String)) : List (List String) :=
  (l.map Prod.fst).eraseDups.map fun label => (l.filter (·.1 = label)).map Prod.snd

namespace Problem

def togetherLists (p : Problem) (session : Nat) : List (List String) :=
  p.constraints.filterMap fun c =>
    match c with
    | .rule (.mustStayTogether people) _ => if c.AppliesTo session then some people else none
    | _ => none

def joined (p : Problem) (session : Nat) (active : List String) : Forest :=
  (p.togetherLists session).foldl
    (fun f people => f.unionAll (people.filterMap (lastIndex? active))) (.new active.length)

/-- The active list, each place with the root found for it, place after place. -/
def labelled (p : Problem) (session : Nat) (active : List String) : List (Nat × String) :=
  ((p.joined session active).findEach (List.range active.length)).zip active

/-- Cliques, largest first; those of equal size keep the order of their first members,
and members keep the order of the active list. -/
def cliques (p : Problem) (session : Nat) (active : List String) : List (List String) :=
  ((classes (p.labelled session active)).filter (1 < ·.length)).mergeSort
    fun a b => b.length ≤ a.length

end Problem

end Roster
