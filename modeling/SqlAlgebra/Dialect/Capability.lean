/-!
# Capabilities

The features of SQL that a dialect may lack, and sets of them.
-/

namespace SqlAlgebra

/-- A feature that not every dialect has. -/
inductive Capability where
  | cte | returning | upsert | window | lateral | bulkCopy | savepoint | advisoryLock
deriving DecidableEq

namespace Capability

/-- Every capability once, in the order in which they are listed. -/
def all : List Capability :=
  [cte, returning, upsert, window, lateral, bulkCopy, savepoint, advisoryLock]

def label : Capability → String
  | cte => "CTE"
  | returning => "RETURNING"
  | upsert => "UPSERT"
  | window => "WINDOW"
  | lateral => "LATERAL"
  | bulkCopy => "BULK_COPY"
  | savepoint => "SAVEPOINT"
  | advisoryLock => "ADVISORY_LOCK"

/-- Every capability is listed. -/
theorem mem_all (c : Capability) : c ∈ all := by cases c <;> decide

end Capability

/-- A set of capabilities, by membership. -/
structure CapabilitySet where
  contains : Capability → Bool

namespace CapabilitySet

/-- Sets of capabilities are equal if they have the same members. -/
@[ext] theorem ext {s t : CapabilitySet} (h : ∀ c, s.contains c = t.contains c) : s = t := by
  cases s
  cases t
  simp only [mk.injEq]
  exact funext h

/-- Sets are equal when they agree on every capability. -/
instance : DecidableEq CapabilitySet := fun s t =>
  decidable_of_iff (∀ c ∈ Capability.all, s.contains c = t.contains c)
    ⟨fun h => ext fun c => h c c.mem_all, fun h c _ => by rw [h]⟩

/-- The set of the listed capabilities. -/
def ofList (members : List Capability) : CapabilitySet := ⟨fun c => members.contains c⟩

/-- The members in their fixed order. -/
def toList (s : CapabilitySet) : List Capability := Capability.all.filter s.contains

def insert (s : CapabilitySet) (c : Capability) : CapabilitySet :=
  ⟨fun x => x == c || s.contains x⟩

def erase (s : CapabilitySet) (c : Capability) : CapabilitySet :=
  ⟨fun x => x != c && s.contains x⟩

/-- The members of a set made from a list are those of the list. -/
theorem contains_ofList (members : List Capability) (c : Capability) :
    (ofList members).contains c = true ↔ c ∈ members := by
  simp [ofList]

/-- The list of a set has the members of the set. -/
theorem mem_toList (s : CapabilitySet) (c : Capability) : c ∈ s.toList ↔ s.contains c = true := by
  simp [toList, Capability.mem_all]

/-- Inserting a capability adds this one and no other. -/
theorem contains_insert (s : CapabilitySet) (c x : Capability) :
    (s.insert c).contains x = true ↔ x = c ∨ s.contains x = true := by
  simp [insert]

/-- Erasing a capability takes away this one and no other. -/
theorem contains_erase (s : CapabilitySet) (c x : Capability) :
    (s.erase c).contains x = true ↔ x ≠ c ∧ s.contains x = true := by
  simp [erase]

end CapabilitySet

end SqlAlgebra
