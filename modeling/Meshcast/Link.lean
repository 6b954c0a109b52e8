import Std.Data.ExtTreeMap
import Meshcast.Error

/-!
# Meshcast — link codes

A greeting lists every node its sender knows under a link code: the state of the link between them
and the kind of neighbor the listed node is. In an octet the kind stands above the two bits of the
link state; in a message the codes are ordered by link state first. `ofOctet_toOctet` says which
codes survive being written to an octet.
-/

namespace Meshcast

/-- The state of the link between the sender of a greeting and a listed node. -/
inductive LinkType
  | unspecified | asymmetric | symmetric | lost
deriving DecidableEq

def LinkType.rank : LinkType → Nat
  | .unspecified => 0
  | .asymmetric => 1
  | .symmetric => 2
  | .lost => 3

def LinkType.ofRank : Nat → LinkType
  | 0 => .unspecified
  | 1 => .asymmetric
  | 2 => .symmetric
  | _ => .lost

def LinkType.name : LinkType → String
  | .unspecified => "Unspec"
  | .asymmetric => "Asym"
  | .symmetric => "Sym"
  | .lost => "Lost"

/-- What kind of neighbor a listed node is to the sender of a greeting: none, one heard in both
directions, or one that moreover relays the sender's floods. -/
inductive NeighborType
  | notNeighbor | symmetric | relay
deriving DecidableEq

namespace NeighborType

def rank : NeighborType → Nat
  | .notNeighbor => 0
  | .symmetric => 1
  | .relay => 2

def name : NeighborType → String
  | .notNeighbor => "NotNeigh"
  | .symmetric => "SymNeigh"
  | .relay => "MprNeigh"

def ofName? (name : String) : Option NeighborType :=
  [.notNeighbor, .symmetric, .relay].find? (·.name = name)

theorem ofName?_name (kind : NeighborType) : ofName? kind.name = some kind := by
  cases kind <;> decide

/-- Relays are symmetric neighbors too. -/
def isSymmetric : NeighborType → Bool
  | .notNeighbor => false
  | .symmetric | .relay => true

end NeighborType

/-- How a node is listed in a greeting. -/
structure LinkCode where
  link : LinkType
  neighbor : NeighborType
deriving DecidableEq

namespace LinkCode

/-- The place of a code in a message: by link state, then by kind of neighbor. -/
def rank (code : LinkCode) : Nat :=
  code.link.rank * 3 + code.neighbor.rank

theorem rank_injective {a b : LinkCode} (h : a.rank = b.rank) : a = b := by
  revert h
  cases a with | mk al an
  cases b with | mk bl bn
  cases al <;> cases an <;> cases bl <;> cases bn <;> decide

instance : Ord LinkCode := ⟨compareOn rank⟩

instance : Std.TransOrd LinkCode :=
  inferInstanceAs (Std.TransCmp (compareOn rank))

instance : Std.LawfulEqOrd LinkCode where
  eq_of_compare {a b} h :=
    have e : a.rank = b.rank := Std.LawfulEqOrd.eq_of_compare h
    rank_injective e

/-- The code under which a node lists a neighbor of the given kind: a link is symmetric exactly when
the neighbor is. -/
def forNeighbor (neighbor : NeighborType) : LinkCode :=
  ⟨if neighbor.isSymmetric then .symmetric else .asymmetric, neighbor⟩

/-- Whether the sender of a greeting with this code has heard the node it lists. -/
def confirmsLink (code : LinkCode) : Bool :=
  code.link = .asymmetric || code.link = .symmetric || code.neighbor.isSymmetric

/-- All codes, whether or not an octet may hold them. -/
def all : List LinkCode :=
  [.unspecified, .asymmetric, .symmetric, .lost].flatMap fun link =>
    [.notNeighbor, .symmetric, .relay].map fun neighbor => ⟨link, neighbor⟩

/-- The text of a code: the link state, then the kind of neighbor. -/
def toText (code : LinkCode) : String :=
  code.link.name ++ "/" ++ code.neighbor.name

def ofText? (text : String) : Option LinkCode :=
  all.find? (·.toText = text)

theorem ofText?_toText (code : LinkCode) : ofText? code.toText = some code := by
  cases code with
  | mk link neighbor => cases link <;> cases neighbor <;> decide

def toOctet (code : LinkCode) : UInt8 :=
  UInt8.ofNat (code.neighbor.rank * 4 + code.link.rank)

/-- Read the octet of a code. The kinds of neighbor end at two, and a symmetric neighbor cannot be
reached over an asymmetric link. -/
def ofOctet (octet : UInt8) : Except DecodeError LinkCode :=
  let link := LinkType.ofRank (octet.toNat % 4)
  match octet.toNat / 4 with
  | 0 => .ok ⟨link, .notNeighbor⟩
  | 1 => if link = .asymmetric then .error (.invalidLinkCode octet) else .ok ⟨link, .symmetric⟩
  | 2 => if link = .asymmetric then .error (.invalidLinkCode octet) else .ok ⟨link, .relay⟩
  | _ => .error (.invalidLinkCode octet)

/-- An octet reads back, except that an asymmetric link to a symmetric neighbor has an octet that is
refused. -/
theorem ofOctet_toOctet (code : LinkCode) :
    ofOctet code.toOctet =
      if code.link = .asymmetric ∧ code.neighbor.isSymmetric then
        .error (.invalidLinkCode code.toOctet)
      else .ok code := by
  cases code with
  | mk link neighbor => cases link <;> cases neighbor <;> rfl

end LinkCode

end Meshcast
