import Std.Data.ExtTreeMap
import Meshcast.Address
import Meshcast.NodeId

/-!
# Meshcast — the registry of participants

The registry gives every address it is shown an identifier, counting up from zero, and keeps it for
good; beside the address it holds the participant's bandwidth. Two identifiers of one registry are
equal exactly when their addresses are: the index from addresses to identifiers is the inverse of
the list of records (`Registry.lookup?_eq_some_iff`).
-/

namespace Meshcast

/-- How much a participant can take in per second. -/
structure Bandwidth where
  maxInBytes : Nat := 0
  maxInMessages : Nat := 0
deriving DecidableEq

/-- What a path through both participants can sustain. -/
def Bandwidth.min (a b : Bandwidth) : Bandwidth :=
  ⟨Nat.min a.maxInBytes b.maxInBytes, Nat.min a.maxInMessages b.maxInMessages⟩

/-- A known participant. -/
structure Participant where
  address : Address
  bandwidth : Bandwidth := {}

/-- Every participant ever heard of, in the order of first contact. -/
structure Registry where
  participants : Array Participant := #[]
  index : Std.ExtTreeMap Address NodeId := ∅
  index_eq_some_iff : ∀ a id, index[a]? = some id ↔
      participants[id.index]?.map Participant.address = some a := by simp

namespace Registry

def empty : Registry := {}

def size (r : Registry) : Nat :=
  r.participants.size

/-- The identifier of an address, if it is known. -/
def lookup? (r : Registry) (a : Address) : Option NodeId :=
  r.index[a]?

def address? (r : Registry) (id : NodeId) : Option Address :=
  r.participants[id.index]?.map Participant.address

def bandwidth? (r : Registry) (id : NodeId) : Option Bandwidth :=
  r.participants[id.index]?.map Participant.bandwidth

theorem lookup?_eq_some_iff (r : Registry) (a : Address) (id : NodeId) :
    r.lookup? a = some id ↔ r.address? id = some a :=
  r.index_eq_some_iff a id

/-- Append a participant whose address is not known yet. -/
def append (r : Registry) (a : Address) (h : r.index[a]? = none) : Registry where
  participants := r.participants.push { address := a }
  index := r.index.insert a ⟨r.participants.size⟩
  index_eq_some_iff b id := by
    obtain ⟨i⟩ := id
    have fresh : r.participants[i]?.map Participant.address ≠ some a := fun hi => by
      simp [(r.index_eq_some_iff a ⟨i⟩).2 hi] at h
    have known := r.index_eq_some_iff b ⟨i⟩
    rw [Std.ExtTreeMap.getElem?_insert, Array.getElem?_push]
    by_cases hab : a = b
    · subst hab
      by_cases hi : i = r.participants.size
      · simp [hi]
      · simpa [hi, eq_comm] using fresh
    · have hne : compare a b ≠ .eq := fun e => hab (Std.LawfulEqOrd.eq_of_compare e)
      by_cases hi : i = r.participants.size
      · subst hi
        simpa [hne, hab] using known
      · simpa [hne, hi] using known

/-- The identifier of an address, handed out now if the address is new. -/
def intern (r : Registry) (a : Address) : NodeId × Registry :=
  match h : r.index[a]? with
  | some id => (id, r)
  | none => (⟨r.participants.size⟩, r.append a h)

def internAll (r : Registry) : List Address → List NodeId × Registry
  | [] => ([], r)
  | a :: rest =>
    let (id, r) := r.intern a
    let (ids, r) := r.internAll rest
    (id :: ids, r)

/-- Set the bandwidth of a participant; an unknown identifier is left alone. -/
def setBandwidth (r : Registry) (id : NodeId) (bandwidth : Bandwidth) : Registry where
  participants := r.participants.modify id.index fun p => { p with bandwidth }
  index := r.index
  index_eq_some_iff a other := by
    rw [r.index_eq_some_iff, Array.getElem?_modify]
    by_cases h : id.index = other.index
    · simp [h, Option.map_map, Function.comp_def]
    · simp [h]

def knows (r : Registry) (id : NodeId) : Bool :=
  id.index < r.size

/-- The addresses behind identifiers, in the same order; unknown identifiers are left out. -/
def addresses (r : Registry) (ids : List NodeId) : List Address :=
  ids.filterMap r.address?

end Registry

end Meshcast
