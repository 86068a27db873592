/-! Disjoint sets of the numbers below `n`, as a forest of parent pointers whose roots
stand for their sets. `find` points every node on its way at the root it found, and
`union` hangs the tree with fewer nodes below the other, the second below the first
when they are equal. A way up has fewer steps than there are nodes. -/

namespace Roster

structure Forest where
  parent : Array Nat
  size : Array Nat
  deriving DecidableEq, Repr

namespace Forest

def new (n : Nat) : Forest := ⟨Array.range n, Array.replicate n 1⟩

def parentOf (f : Forest) (x : Nat) : Nat := f.parent[x]?.getD x

def sizeOf (f : Forest) (x : Nat) : Nat := f.size[x]?.getD 0

/-- Go up until a node is its own parent, in at most `steps` steps. -/
def climb (f : Forest) : (steps x : Nat) → Nat
  | 0, x => x
  | steps + 1, x => if f.parentOf x = x then x else f.climb steps (f.parentOf x)

def root (f : Forest) (x : Nat) : Nat := f.climb f.parent.size x

/-- Go up again and point each node passed at `root`. -/
def compress (root : Nat) : (steps : Nat) → Forest → Nat → Forest
  | 0, f, _ => f
  | steps + 1, f, x =>
    if f.parentOf x = root then f
    else compress root steps { f with parent := f.parent.setIfInBounds x root } (f.parentOf x)

def find (f : Forest) (x : Nat) : Forest × Nat :=
  (compress (f.root x) f.parent.size f x, f.root x)

def findEach : Forest → List Nat → List Nat
  | _, [] => []
  | f, x :: rest =>
    let (f, root) := f.find x
    root :: f.findEach rest

def hang (f : Forest) (low high : Nat) : Forest where
  parent := f.parent.setIfInBounds low high
  size := f.size.setIfInBounds high (f.sizeOf high + f.sizeOf low)

def union (f : Forest) (a b : Nat) : Forest :=
  let (f, ra) := f.find a
  let (f, rb) := f.find b
  if ra = rb then f
  else if f.sizeOf rb ≤ f.sizeOf ra then f.hang rb ra
  else f.hang ra rb

def unionAll (f : Forest) : List Nat → Forest
  | [] => f
  | first :: rest => rest.foldl (fun f other => f.union first other) f

theorem parentOf_new (n x : Nat) : (new n).parentOf x = x := by
  by_cases h : x < n <;> simp [new, parentOf, h]

theorem climb_of_parentOf_eq {f : Forest} {x : Nat} (h : f.parentOf x = x) (steps : Nat) :
    f.climb steps x = x := by
  cases steps <;> simp [climb, h]

theorem root_new (n x : Nat) : (new n).root x = x := climb_of_parentOf_eq (parentOf_new n x) _

end Forest

end Roster
