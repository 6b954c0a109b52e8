import Std.Data.ExtTreeMap
import Meshcast.NodeId

/-!
# Meshcast — the choice of relays

A node has some of its symmetric neighbors relay its floods, few, yet enough that every strict
two-hop node hears one of them. A strict two-hop node is the end of an arc from a symmetric neighbor
that is neither the node itself nor a symmetric neighbor.

The only neighbor to cover some node is chosen in any case. After that the choice is greedy: the
neighbor that covers the most nodes still uncovered, of several the one that covers the most nodes
at all, of several the one with the lowest identifier.
-/

namespace Meshcast

namespace RelaySelection

/-- The arcs that lead to strict two-hop nodes. -/
def strictArcs (self : NodeId) (symmetric : NodeSet) (arcs : ArcSet) : ArcSet :=
  arcs.filter fun arc =>
    symmetric.contains arc.source && arc.target != self && !symmetric.contains arc.target

/-- The strict two-hop nodes each neighbor covers; neighbors that cover none do not occur. -/
abbrev Coverage := Std.ExtTreeMap NodeId NodeSet

def Coverage.of (coverage : Coverage) (node : NodeId) : NodeSet :=
  coverage[node]?.getD ∅

def Coverage.add (coverage : Coverage) (node covered : NodeId) : Coverage :=
  coverage.insert node ((coverage.of node).insert covered)

/-- Which nodes each source of arcs covers. -/
def coverage (arcs : ArcSet) : Coverage :=
  arcs.foldl (fun c arc => c.add arc.source arc.target) ∅

/-- Which sources cover each target of arcs. -/
def coverers (arcs : ArcSet) : Coverage :=
  arcs.foldl (fun c arc => c.add arc.target arc.source) ∅

/-- The neighbors that some node has as its only coverer. -/
def soleCoverers (arcs : ArcSet) : NodeSet :=
  .ofList (((coverers arcs).values.filter (·.size = 1)).flatMap (·.toList))

/-- What is left of `uncovered` once all of `relays` are chosen. -/
def uncoveredBy (coverage : Coverage) (relays uncovered : NodeSet) : NodeSet :=
  uncovered.filter fun node => !relays.any fun relay => (coverage.of relay).contains node

/-- A neighbor that is up for choice. -/
structure Candidate where
  node : NodeId
  /-- How many nodes still uncovered it covers. -/
  reach : Nat
  /-- How many nodes it covers at all. -/
  degree : Nat

/-- Whether a candidate goes before one with a lower identifier. -/
def Candidate.beats (a b : Candidate) : Bool :=
  b.reach < a.reach || (a.reach = b.reach && b.degree < a.degree)

/-- The neighbors up for choice, by identifier: not chosen yet, and of use. -/
def candidates (coverage : Coverage) (chosen uncovered : NodeSet) : List Candidate :=
  coverage.toList.filterMap fun (node, covered) =>
    let reach := (covered.filter uncovered.contains).size
    if !chosen.contains node && 0 < reach then some { node, reach, degree := covered.size }
    else none

/-- The best candidate: the first one that no later one beats. -/
def best? (candidates : List Candidate) : Option Candidate :=
  candidates.foldl (fun best c =>
    match best with
    | none => some c
    | some b => if c.beats b then some c else some b) none

/-- Choose neighbors, at most `fuel` of them, until every node is covered. -/
def chooseGreedily (coverage : Coverage) : (fuel : Nat) → (chosen uncovered : NodeSet) → NodeSet
  | 0, chosen, _ => chosen
  | fuel + 1, chosen, uncovered =>
    if uncovered.isEmpty then chosen
    else
      match best? (candidates coverage chosen uncovered) with
      | none => chosen
      | some c =>
        chooseGreedily coverage fuel (chosen.insert c.node)
          (uncoveredBy coverage (.ofList [c.node]) uncovered)

end RelaySelection

open RelaySelection in
/-- The relays that the node `self` chooses. Each round of the greedy choice takes another neighbor,
so there are at most as many rounds as neighbors that cover anything. -/
def selectRelays (self : NodeId) (symmetric : NodeSet) (arcs : ArcSet) : NodeSet :=
  let arcs := strictArcs self symmetric arcs
  let coverage := coverage arcs
  let sole := soleCoverers arcs
  let uncovered := uncoveredBy coverage sole (.ofList (coverers arcs).keys)
  chooseGreedily coverage coverage.size sole uncovered

end Meshcast
