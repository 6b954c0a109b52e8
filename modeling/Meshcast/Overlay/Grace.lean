import Std.Data.ExtTreeMap
import Meshcast.NodeId

/-!
# Meshcast — grace periods

A member that left a group still gets its traffic for a number of ticks.
-/

namespace Meshcast

/-- The ticks that nodes have left. A period of no ticks is over, so there is none. -/
structure Grace where
  remaining : Std.ExtTreeMap NodeId Nat := ∅
  pos : ∀ (node : NodeId) (ticks : Nat), remaining[node]? = some ticks → 0 < ticks := by simp
deriving DecidableEq

namespace Grace

/-- Nobody is in a grace period. -/
def nobody : Grace := {}

def nodes (grace : Grace) : NodeSet :=
  .ofList grace.remaining.keys

def contains (grace : Grace) (node : NodeId) : Bool :=
  grace.remaining.contains node

def size (grace : Grace) : Nat :=
  grace.remaining.size

/-- Start the grace period of a node, afresh if it is in one already. One of no ticks does not
start. -/
def start (grace : Grace) (node : NodeId) (ticks : Nat) : Grace :=
  if hticks : ticks = 0 then grace
  else
    { remaining := grace.remaining.insert node ticks
      pos := by
        intro other left hleft
        rw [Std.ExtTreeMap.getElem?_insert] at hleft
        split at hleft
        · cases hleft
          omega
        · exact grace.pos other left hleft }

def stop (grace : Grace) (node : NodeId) : Grace :=
  { remaining := grace.remaining.erase node
    pos := by
      intro other left hleft
      rw [Std.ExtTreeMap.getElem?_erase] at hleft
      split at hleft
      · nomatch hleft
      · exact grace.pos other left hleft }

/-- Count a tick; answers the nodes whose grace period ended with it. -/
def tick (grace : Grace) : NodeSet × Grace :=
  let counted := grace.remaining.map fun _ ticks => ticks - 1
  let ended := counted.filter fun _ ticks => ticks = 0
  (.ofList ended.keys,
    { remaining := counted.filter fun _ ticks => 0 < ticks
      pos := by
        intro other left hleft
        rw [Std.ExtTreeMap.getElem?_filter', Option.filter_eq_some_iff] at hleft
        exact of_decide_eq_true hleft.2 })

end Grace

end Meshcast
