import Roster.SortedMap
import Roster.SessionSet

/-! People to be placed. A person carries free-form attributes and either attends
every session or exactly the listed ones. -/

namespace Roster

structure Person where
  id : String
  attributes : SortedMap String String := .empty
  sessions : Option SessionSet := none
  deriving DecidableEq

namespace Person

def attribute? (p : Person) (key : String) : Option String := p.attributes.get? key

def ActiveIn (p : Person) (session : Nat) : Prop := ∀ listed ∈ p.sessions, session ∈ listed

instance (p : Person) (session : Nat) : Decidable (p.ActiveIn session) :=
  inferInstanceAs (Decidable (∀ listed ∈ p.sessions, session ∈ listed))

end Person

end Roster
