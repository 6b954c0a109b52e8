import Mathlib.Data.List.Perm.Subperm
import Meshcast.Node.Announce
import Meshcast.Proofs.Greetings
import Meshcast.Proofs.Wire

/-!
# Meshcast — a node's own packets

A greeting lists every live neighbor once, under the code of its status; an announcement lists the
selectors. As long as a node knows few enough participants, both can be written.

* **`Node.mem_listedUnder_greeting`** — who is listed in a greeting, and how.
* **`Node.travels_makeHello`**, **`Node.travels_makeTc`** — these packets are understood.
-/

namespace Meshcast

theorem LinkCode.rank_lt (code : LinkCode) : code.rank < 12 := by
  obtain ⟨link, neighbor⟩ := code
  cases link <;> cases neighbor <;> decide

namespace Hello

theorem mem_listedUnder_list {hello : Hello} {code other : LinkCode} {addresses : List Address}
    {a : Address} :
    a ∈ (hello.list code addresses).listedUnder other ↔
      a ∈ hello.listedUnder other ∨ code = other ∧ a ∈ addresses := by
  unfold listedUnder
  rw [getElem?_groups_list]
  by_cases hcode : code = other
  · subst hcode
    rw [if_pos rfl, Option.getD_some, Std.ExtTreeSet.mem_insertMany_list, List.contains_iff_mem]
    simp [listedUnder]
  · simp [hcode]

/-- There are no more groups than codes. -/
theorem length_toList_groups_lt (hello : Hello) : hello.groups.toList.length < 256 := by
  have hnodup : (hello.groups.toList.map fun group => group.1.rank).Nodup := by
    rw [List.Nodup, List.pairwise_map]
    exact Std.ExtTreeMap.distinct_keys_toList.imp fun h heq =>
      h (Std.compare_eq_iff_eq.2 (LinkCode.rank_injective heq))
  have hsubset : (hello.groups.toList.map fun group => group.1.rank) ⊆ List.range 12 := by
    intro rank hrank
    obtain ⟨group, -, rfl⟩ := List.mem_map.1 hrank
    exact List.mem_range.2 group.1.rank_lt
  have hle := (hnodup.subperm hsubset).length_le
  rw [List.length_map, List.length_range] at hle
  omega

theorem exists_encodeGroups {groups : List (LinkCode × AddressSet)}
    (h : ∀ group ∈ groups, group.2.size < 256) :
    ∃ strings, groups.mapM encodeGroup = .ok strings := by
  induction groups with
  | nil => exact ⟨[], rfl⟩
  | cons group rest ih =>
    obtain ⟨strings, hstrings⟩ := ih fun other hother => h other (List.mem_cons_of_mem _ hother)
    have hgroup : encodeGroup group = .ok (group.1.toOctet ::
        ([UInt8.ofNat group.2.size] ++ group.2.toList.flatMap Address.octets)) := by
      unfold encodeGroup
      rw [encodeAddresses_of_lt (h group List.mem_cons_self)]
      rfl
    rw [List.mapM_cons, hgroup, hstrings]
    exact ⟨_, rfl⟩

/-- A legible greeting whose groups are short enough can be written. -/
theorem travels {hello : Hello} (hlegible : hello.Legible)
    (h : ∀ code, (hello.listedUnder code).size < 256) : (Body.hello hello).Travels where
  legible := hlegible
  encodes := by
    have hsizes : ∀ group ∈ hello.groups.toList, group.2.size < 256 := by
      rintro ⟨code, addresses⟩ hmem
      rw [Std.ExtTreeMap.mem_toList_iff_getElem?_eq_some] at hmem
      have hcode := h code
      unfold listedUnder at hcode
      rwa [hmem] at hcode
    obtain ⟨strings, hstrings⟩ := exists_encodeGroups hsizes
    refine ⟨[UInt8.ofNat hello.groups.toList.length] ++ strings.flatten, ?_⟩
    show hello.encode = _
    unfold encode encodeCount
    rw [writtenGroups_of_legible hlegible, if_pos hello.length_toList_groups_lt, hstrings]
    rfl

end Hello

theorem Tc.travels {tc : Tc} (hadvertised : tc.advertised.size < 256)
    (hgroups : tc.groups.size < 256) : (Body.tc tc).Travels where
  legible := trivial
  encodes := by
    show ∃ bytes, tc.encode = .ok bytes
    unfold encode
    rw [encodeAddresses_of_lt hadvertised, encodeAddresses_of_lt hgroups]
    exact ⟨_, rfl⟩

namespace Node

/-! ## Greetings -/

section Greeting

variable (r : Registry)

/-- List a neighbor, if its address is known. -/
def listNeighbor (hello : Hello) (neighbor : NodeId × Neighbor) : Hello :=
  match r.address? neighbor.1 with
  | some address => hello.list (.forNeighbor neighbor.2.status) [address]
  | none => hello

theorem greeting_eq (node : Node) (now : Nat) :
    node.greeting now = (node.neighbors.entries now).foldl (listNeighbor node.registry) {} :=
  rfl

variable {r}

theorem mem_listedUnder_foldl {neighbors : List (NodeId × Neighbor)} {hello : Hello}
    {code : LinkCode} {a : Address} :
    a ∈ (neighbors.foldl (listNeighbor r) hello).listedUnder code ↔
      a ∈ hello.listedUnder code ∨ ∃ neighbor ∈ neighbors, r.address? neighbor.1 = some a
        ∧ .forNeighbor neighbor.2.status = code := by
  induction neighbors generalizing hello with
  | nil => simp
  | cons neighbor rest ih =>
    rw [List.foldl_cons, ih]
    have hfirst : a ∈ (listNeighbor r hello neighbor).listedUnder code ↔
        a ∈ hello.listedUnder code ∨ r.address? neighbor.1 = some a
          ∧ .forNeighbor neighbor.2.status = code := by
      unfold listNeighbor
      split
      · rename_i b hb
        rw [Hello.mem_listedUnder_list, hb]
        simp [and_comm, eq_comm]
      · rename_i hb
        simp [hb]
    rw [hfirst, or_assoc]
    simp

theorem legible_foldl {neighbors : List (NodeId × Neighbor)} {hello : Hello}
    (h : hello.Legible) : (neighbors.foldl (listNeighbor r) hello).Legible := by
  induction neighbors generalizing hello with
  | nil => exact h
  | cons neighbor rest ih =>
    refine ih ?_
    unfold listNeighbor
    split
    · intro code addresses hgroup
      rw [Hello.getElem?_groups_list] at hgroup
      split at hgroup
      · rename_i b _ hcode
        obtain rfl := Option.some.inj hgroup
        subst hcode
        refine ⟨?_, ?_⟩
        · rw [Std.ExtTreeSet.isEmpty_insertMany_list]
          exact Bool.and_false _
        · cases neighbor.2.status <;> rfl
      · exact h code addresses hgroup
    · exact h

end Greeting

theorem legible_greeting (node : Node) (now : Nat) : (node.greeting now).Legible :=
  legible_foldl fun _ _ h => by
    rw [show ({} : Hello).groups[_]? = none from Std.ExtTreeMap.getElem?_empty] at h
    nomatch h

/-- A greeting lists the live neighbors, each under the code of its status. -/
theorem mem_listedUnder_greeting {node : Node} {now : Nat} {code : LinkCode} {a : Address} :
    a ∈ (node.greeting now).listedUnder code ↔
      ∃ id entry, node.neighbors.get? now id = some entry ∧ node.registry.address? id = some a
        ∧ .forNeighbor entry.status = code := by
  rw [greeting_eq, mem_listedUnder_foldl]
  constructor
  · rintro (hempty | ⟨⟨id, entry⟩, hmem, ha, hcode⟩)
    · exact absurd hempty Std.ExtTreeSet.not_mem_empty
    · exact ⟨id, entry, Neighborhood.mem_entries.1 hmem, ha, hcode⟩
  · rintro ⟨id, entry, hget, ha, hcode⟩
    exact .inr ⟨(id, entry), Neighborhood.mem_entries.2 hget, ha, hcode⟩

/-- Nobody is listed twice. -/
theorem greatestCode_greeting {node : Node} {now : Nat} {code : LinkCode} {a : Address} :
    (node.greeting now).GreatestCode a code ↔ a ∈ (node.greeting now).listedUnder code := by
  refine ⟨fun h => h.1, fun h => ⟨h, fun other hother => ?_⟩⟩
  obtain ⟨id, entry, hget, ha, rfl⟩ := mem_listedUnder_greeting.1 h
  obtain ⟨id', entry', hget', ha', rfl⟩ := mem_listedUnder_greeting.1 hother
  obtain rfl := Registry.address?_injective ha ha'
  rw [hget, Option.some.injEq] at hget'
  exact Nat.le_of_eq (by rw [hget'])

/-! ## Packets that are understood -/

section Few

/-- A set of addresses is no larger than a family that it is part of. -/
theorem size_le_of_mem {n : ℕ} (addr : Fin n → Address) {addresses : AddressSet}
    (h : ∀ a ∈ addresses, ∃ j, addr j = a) : addresses.size ≤ n := by
  have hsubset : addresses.toList ⊆ List.ofFn addr := by
    intro a ha
    rw [List.mem_ofFn]
    exact h a (Std.ExtTreeSet.mem_toList.1 ha)
  have hle := ((nodup_toList addresses).subperm hsubset).length_le
  rwa [List.length_ofFn, Std.ExtTreeSet.length_toList] at hle

variable {n : ℕ} {addr : Fin n → Address} (hn : n < 256) {node : Node}
  (hknown : ∀ a id, node.registry.lookup? a = some id → ∃ j, addr j = a)

include hn hknown

/-- Whoever knows few participants can greet them. -/
theorem travels_makeHello (now : Nat) : (node.makeHello now).1.body.Travels := by
  refine Hello.travels (node.legible_greeting now) fun code => ?_
  refine Nat.lt_of_le_of_lt (size_le_of_mem addr fun a ha => ?_) hn
  obtain ⟨id, -, -, hid, -⟩ := mem_listedUnder_greeting.1 ha
  exact hknown a id ((Registry.lookup?_eq_some_iff _ _ _).2 hid)

/-- Whoever moreover joined few groups can announce all. -/
theorem travels_makeTc (hgroups : (node.groups.joined node.self).size < 256) :
    node.makeTc.1.body.Travels := by
  refine Tc.travels (Nat.lt_of_le_of_lt (size_le_of_mem addr ?_) hn) hgroups
  intro a ha
  obtain ⟨id, -, hid⟩ := List.mem_filterMap.1 (mem_ofList.1 ha)
  exact hknown a id ((Registry.lookup?_eq_some_iff _ _ _).2 hid)

end Few

end Node

end Meshcast
