/-! Counts and their sums. Counts of people, meetings and violations fit 32 bits;
session indices, group sizes and numbers of seats fit 64, and a list of indices fits
into less than `2 ^ 63` bytes of eight each. A sum of natural numbers overflows exactly
when its total does, so one comparison of the total decides.

All lists but one are as long as data that is already there: what an inspection notes of
each session is as long as the list of sessions it is given. That list is the exception.
It may stand for a mere number of sessions, so it is asked for before anything is looked
at and refused when no list is as long. Nowhere else does the length of a list decide
anything: what is found is found whatever the number of sessions, and how much memory
there is for a list that can be had is left out. -/

namespace Roster

def countLimit : Nat := 4294967296

def indexLimit : Nat := 18446744073709551616

/-- No list of indices is as long as this. Evaluation meets the limit when it lists the sessions
of a constraint that has no list of its own, and nowhere else. -/
def listLimit : Nat := 1152921504606846976

def total : List Nat → Nat
  | [] => 0
  | n :: rest => n + total rest

@[simp] theorem total_nil : total [] = 0 := rfl

@[simp] theorem total_cons (n : Nat) (l : List Nat) : total (n :: l) = n + total l := rfl

@[simp] theorem total_append (l m : List Nat) : total (l ++ m) = total l + total m := by
  induction l with
  | nil => simp
  | cons n rest ih => simp [ih, Nat.add_assoc]

theorem length_flatMap_eq_total {α β : Type} (f : α → List β) (l : List α) :
    (l.flatMap f).length = total (l.map fun a => (f a).length) := by
  induction l with
  | nil => rfl
  | cons a rest ih => simp [ih]

inductive Overflow
  | addition
  | capacity
  deriving DecidableEq, Repr

def Overflow.message : Overflow → String
  | addition => "attempt to add with overflow"
  | capacity => "capacity overflow"

def checkedTotal (limit : Nat) (l : List Nat) : Except Overflow Nat :=
  if total l < limit then .ok (total l) else .error .addition

end Roster
