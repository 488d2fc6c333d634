/-!
# Entries by recency

A bounded collection of entries, the one used last in front. Looking an entry up moves it to the
front, and a new entry beyond the capacity drops the one at the end.
-/

namespace SqlAlgebra

/-- Entries in the order of their last use, latest first. -/
structure Recency (κ ν : Type) where
  entries : List (κ × ν)

namespace Recency

variable {κ ν : Type} [BEq κ] [Hashable κ]

def empty : Recency κ ν := ⟨[]⟩

def size (r : Recency κ ν) : Nat := r.entries.length

/-- The entry is that of the key. Keys are compared only if they have the same hash. -/
def isAt (key : κ) (entry : κ × ν) : Bool := hash entry.1 == hash key && entry.1 == key

/-- The value of a key. -/
def get? (r : Recency κ ν) (key : κ) : Option ν := (r.entries.find? (isAt key)).map (·.2)

/-- The entries of all other keys. -/
def others (r : Recency κ ν) (key : κ) : List (κ × ν) := r.entries.filter (!isAt key ·)

/-- The key has been used: its entry goes to the front. -/
def use (r : Recency κ ν) (key : κ) (value : ν) : Recency κ ν := ⟨(key, value) :: r.others key⟩

/-- A new entry in front, and of the others as many as the capacity leaves room for. -/
def push (r : Recency κ ν) (capacity : Nat) (key : κ) (value : ν) : Recency κ ν :=
  ⟨((key, value) :: r.others key).take capacity⟩

/-- A new entry for the key drops another one. -/
def overflows (r : Recency κ ν) (capacity : Nat) (key : κ) : Bool :=
  capacity ≤ (r.others key).length

end Recency

end SqlAlgebra
