import Mathlib.Data.Set.Insert
import Meshcast.Proofs.Announcements
import Meshcast.Proofs.Supersession

/-!
# Meshcast — memberships as a relation

A node keeps, for everybody who joined a group, the groups it joined. What these rows stand for is a
relation between nodes and groups. The relation has operations of its own: add a pair, take one
away, replace what one node is in, keep some of the nodes. This module says that the rows follow
the relation through any sequence of operations, and that an operation reports a change, and raises
the flag, exactly if the relation is another one afterwards.

That the reports agree rests on there being no empty row, which every operation has to restore. To
join looks whether the group is new to the row, to leave whether it was there, and the row goes with
its last group; to replace compares rows, a missing one counting as empty; to drop nodes counts rows.
Of an empty row the second would say that nothing changes, and drop it, and the last would say that
the relation changes, which it does not.

* **`Groups.Represents`** — the rows stand for a relation, and none of them is empty.
* **`Represents.rows_eq`** — so the rows are determined by the relation.
* **`Represents.update`**, **`Represents.retain`** — the rows follow the relation; joining and
  leaving are replacements of a row.
* **`Represents.apply`** — one operation.
* **`memberships_tracked`** — any sequence of operations, with the flag lowered in between.
-/

namespace Meshcast

/-- An operation on the memberships. -/
inductive MembershipChange
  | register (node : NodeId) (group : Address)
  | unregister (node : NodeId) (group : Address)
  /-- A node is said to be in exactly these groups. -/
  | update (node : NodeId) (groups : AddressSet)
  /-- All nodes but these are dropped. -/
  | retain (keep : NodeSet)

/-- What may happen to the memberships: they are changed, or the flag is looked at and lowered. -/
inductive MembershipEvent
  | change (change : MembershipChange)
  | takeChanged

/-! ## The relation -/

/-- Who is in which group. -/
abbrev Memberships := Set (NodeId × Address)

namespace Memberships

/-- The relation in which a node is in the given groups and all others are where they were. -/
def replaced (relation : Memberships) (node : NodeId) (groups : AddressSet) : Memberships :=
  {p | if p.1 = node then p.2 ∈ groups else p ∈ relation}

/-- What an operation is to make of the relation. -/
def apply (relation : Memberships) : MembershipChange → Memberships
  | .register node group => insert (node, group) relation
  | .unregister node group => relation \ {(node, group)}
  | .update node groups => relation.replaced node groups
  | .retain keep => {p ∈ relation | p.1 ∈ keep}

def step (relation : Memberships) : MembershipEvent → Memberships
  | .change change => relation.apply change
  | .takeChanged => relation

/-- The relation after a sequence of events, with nobody in any group at first. -/
def after (events : List MembershipEvent) : Memberships :=
  events.foldl step ∅

end Memberships

/-! ## The rows -/

namespace Groups

/-- An operation, and whether it reports a change. Dropping nodes reports one by a count. -/
def apply (g : Groups) : MembershipChange → Bool × Groups
  | .register node group => g.register node group
  | .unregister node group => g.unregister node group
  | .update node groups => g.update node groups
  | .retain keep => ((g.retain keep).1 != 0, (g.retain keep).2)

def step (g : Groups) : MembershipEvent → Groups
  | .change change => (g.apply change).2
  | .takeChanged => g.takeChanged.2

/-- The rows after a sequence of events, from the empty table on. -/
def after (events : List MembershipEvent) : Groups :=
  events.foldl step {}

/-- The rows stand for a relation, and a node without groups has no row. -/
structure Represents (g : Groups) (relation : Memberships) : Prop where
  nonempty : ∀ (node : NodeId) (groups : AddressSet), g.rows[node]? = some groups →
    groups.isEmpty = false
  mem_iff : ∀ node group, (node, group) ∈ relation ↔ group ∈ g.joined node

variable {g g' : Groups} {relation : Memberships}

theorem represents_empty : ({} : Groups).Represents ∅ := by
  refine ⟨fun node groups h => ?_, fun node group => ?_⟩
  · nomatch h
  · exact iff_of_false id Std.ExtTreeSet.not_mem_empty

/-- A row is what its node joined, unless that is nothing. -/
theorem Represents.getElem?_rows (h : g.Represents relation) (node : NodeId) :
    g.rows[node]? = if (g.joined node).isEmpty then none else some (g.joined node) := by
  unfold joined
  cases hrow : g.rows[node]? with
  | none => rfl
  | some groups => rw [Option.getD_some, h.nonempty node groups hrow, if_neg Bool.false_ne_true]

/-- The rows are determined by the relation that they stand for. -/
theorem Represents.rows_eq (h : g.Represents relation) (h' : g'.Represents relation) :
    g'.rows = g.rows := by
  have hjoined : ∀ node, g'.joined node = g.joined node := fun node =>
    Std.ExtTreeSet.ext_mem fun group => (h'.mem_iff node group).symm.trans (h.mem_iff node group)
  refine Std.ExtTreeMap.ext_getElem? fun node => ?_
  rw [h'.getElem?_rows, h.getElem?_rows, hjoined]

/-! ## What the rows answer -/

theorem Represents.exists_row (h : g.Represents relation) {node : NodeId} {group : Address} :
    (∃ groups, g.rows[node]? = some groups ∧ group ∈ groups) ↔ (node, group) ∈ relation := by
  rw [h.mem_iff, mem_joined]

theorem Represents.isMember_iff (h : g.Represents relation) {node : NodeId} {group : Address} :
    g.isMember node group = true ↔ (node, group) ∈ relation := by
  rw [h.mem_iff]
  exact Std.ExtTreeSet.contains_iff_mem

theorem Represents.mem_members (h : g.Represents relation) {node : NodeId} {group : Address} :
    node ∈ g.members group ↔ (node, group) ∈ relation := by
  rw [Groups.mem_members, h.mem_iff]

theorem Represents.mem_all (h : g.Represents relation) {group : Address} :
    group ∈ g.all ↔ ∃ node, (node, group) ∈ relation := by
  rw [Groups.mem_all]
  exact exists_congr fun node => (h.mem_iff node group).symm

/-! ## One operation -/

theorem Represents.update (h : g.Represents relation) (node : NodeId) (groups : AddressSet) :
    (g.update node groups).2.Represents (relation.replaced node groups) := by
  refine ⟨fun other row hrow => ?_, fun other group => ?_⟩
  · by_cases hother : other = node
    · subst hother
      rw [update_eq] at hrow
      split at hrow
      · exact h.nonempty other row hrow
      · change (g.rowsWith other groups)[other]? = some row at hrow
        rw [getElem?_rowsWith_self] at hrow
        split at hrow
        · nomatch hrow
        · cases hrow
          exact Bool.not_eq_true _ ▸ ‹_›
    · rw [g.getElem?_rows_update_of_ne groups hother] at hrow
      exact h.nonempty other row hrow
  · show (if other = node then group ∈ groups else (other, group) ∈ relation) ↔ _
    by_cases hother : other = node
    · subst hother
      rw [if_pos rfl, g.joined_update]
    · rw [if_neg hother, g.joined_update_of_ne groups hother]
      exact h.mem_iff other group

/-- The comparison with the groups of a node so far, a missing row counting as none, tells whether
the relation changes. -/
theorem Represents.update_reports (h : g.Represents relation) (node : NodeId)
    (groups : AddressSet) :
    (g.update node groups).1 = true ↔ relation.replaced node groups ≠ relation := by
  have hreported : (g.update node groups).1 = true ↔ g.joined node ≠ groups := by
    rw [update_eq]
    split <;> simp [*]
  rw [hreported, not_iff_not]
  constructor
  · intro hsame
    ext ⟨other, group⟩
    show (if other = node then group ∈ groups else (other, group) ∈ relation) ↔ _
    split
    · rename_i hother
      rw [hother, h.mem_iff, hsame]
    · rfl
  · intro hsame
    refine Std.ExtTreeSet.ext_mem fun group => ?_
    rw [← h.mem_iff, ← hsame]
    show (if node = node then group ∈ groups else _) ↔ _
    rw [if_pos rfl]

/-- To join a group is to be in one group more. -/
theorem Represents.replaced_insert (h : g.Represents relation) (node : NodeId) (group : Address) :
    relation.replaced node ((g.joined node).insert group) = insert (node, group) relation := by
  ext ⟨other, joined⟩
  show (if other = node then joined ∈ (g.joined node).insert group else (other, joined) ∈ relation)
    ↔ (other, joined) = (node, group) ∨ (other, joined) ∈ relation
  split
  · rename_i hother
    rw [hother, mem_insert, h.mem_iff, Prod.mk.injEq, and_iff_right rfl]
  · rename_i hother
    rw [Prod.mk.injEq, or_iff_right fun heq => hother heq.1]

/-- To leave a group is to be in one group less. -/
theorem Represents.replaced_erase (h : g.Represents relation) (node : NodeId) (group : Address) :
    relation.replaced node ((g.joined node).erase group) = relation \ {(node, group)} := by
  ext ⟨other, joined⟩
  show (if other = node then joined ∈ (g.joined node).erase group else (other, joined) ∈ relation)
    ↔ (other, joined) ∈ relation ∧ (other, joined) ≠ (node, group)
  split
  · rename_i hother
    rw [hother, mem_erase, h.mem_iff, ne_eq, ne_eq, Prod.mk.injEq, and_iff_right rfl, and_comm]
  · rename_i hother
    rw [ne_eq, Prod.mk.injEq, and_iff_left fun heq => hother heq.1]

theorem Represents.retain (h : g.Represents relation) (keep : NodeSet) :
    (g.retain keep).2.Represents {p ∈ relation | p.1 ∈ keep} := by
  have hrows : ∀ node : NodeId, (g.retain keep).2.rows[node]?
      = if node ∈ keep then g.rows[node]? else none := by
    intro node
    show (g.rows.filter fun node _ => keep.contains node)[node]? = _
    rw [Std.ExtTreeMap.getElem?_filter']
    by_cases hnode : node ∈ keep
    · rw [if_pos hnode]
      cases g.rows[node]? <;> simp [Option.filter, hnode]
    · rw [if_neg hnode]
      cases g.rows[node]? <;> simp [Option.filter, hnode]
  refine ⟨fun node groups hrow => ?_, fun node group => ?_⟩
  · rw [hrows] at hrow
    split at hrow
    · exact h.nonempty node groups hrow
    · nomatch hrow
  · show (node, group) ∈ relation ∧ node ∈ keep ↔ group ∈ (g.retain keep).2.rows[node]?.getD ∅
    rw [hrows, h.mem_iff]
    by_cases hnode : node ∈ keep
    · rw [if_pos hnode, and_iff_left hnode]
      rfl
    · rw [if_neg hnode]
      exact iff_of_false (fun hboth => hnode hboth.2) Std.ExtTreeSet.not_mem_empty

/-- The number of rows that are dropped tells whether the relation changes, as no row that is
dropped is empty. -/
theorem Represents.retain_reports (h : g.Represents relation) (keep : NodeSet) :
    (g.retain keep).1 ≠ 0 ↔ {p ∈ relation | p.1 ∈ keep} ≠ relation := by
  have hkept := h.retain keep
  have hle : (g.retain keep).2.rows.size ≤ g.rows.size := Std.ExtTreeMap.size_filter_le_size
  have hcount : (g.retain keep).1 = 0 ↔ (g.retain keep).2.rows.size = g.rows.size := by
    show g.rows.size - (g.retain keep).2.rows.size = 0 ↔ _
    omega
  rw [Ne, not_iff_not, hcount]
  constructor
  · intro hsize
    have hrows : (g.retain keep).2.rows = g.rows :=
      Std.ExtTreeMap.filter_eq_self_iff.2 (Std.ExtTreeMap.size_filter_eq_size_iff.1 hsize)
    ext ⟨node, group⟩
    rw [hkept.mem_iff, h.mem_iff]
    unfold joined
    rw [hrows]
  · intro hsame
    rw [hsame] at hkept
    rw [h.rows_eq hkept]

theorem changed_update (g : Groups) (node : NodeId) (groups : AddressSet) :
    (g.update node groups).2.changed = (g.changed || (g.update node groups).1) := by
  rw [update_eq]
  split <;> simp

/-- **One operation.** The rows follow the relation, the report tells whether it changed, and the
flag is raised by what is reported. -/
theorem Represents.apply (h : g.Represents relation) (change : MembershipChange) :
    (g.apply change).2.Represents (relation.apply change)
      ∧ ((g.apply change).1 = true ↔ relation.apply change ≠ relation)
      ∧ (g.apply change).2.changed = (g.changed || (g.apply change).1) := by
  cases change with
  | register node group =>
    show (g.register node group).2.Represents (insert (node, group) relation)
      ∧ ((g.register node group).1 = true ↔ insert (node, group) relation ≠ relation)
      ∧ (g.register node group).2.changed = (g.changed || (g.register node group).1)
    rw [g.register_eq_update, ← h.replaced_insert]
    exact ⟨h.update node _, h.update_reports node _, g.changed_update node _⟩
  | unregister node group =>
    have hrow : g.rows[node]? ≠ some ∅ := by
      intro hempty
      have hnonempty := h.nonempty node ∅ hempty
      nomatch hnonempty
    show (g.unregister node group).2.Represents (relation \ {(node, group)})
      ∧ ((g.unregister node group).1 = true ↔ relation \ {(node, group)} ≠ relation)
      ∧ (g.unregister node group).2.changed = (g.changed || (g.unregister node group).1)
    rw [g.unregister_eq_update hrow, ← h.replaced_erase]
    exact ⟨h.update node _, h.update_reports node _, g.changed_update node _⟩
  | update node groups =>
    exact ⟨h.update node groups, h.update_reports node groups, g.changed_update node groups⟩
  | retain keep =>
    refine ⟨h.retain keep, ?_, ?_⟩
    · exact bne_iff_ne.trans (h.retain_reports keep)
    · show (g.changed || decide (0 < (g.retain keep).1)) = (g.changed || (g.retain keep).1 != 0)
      refine congrArg (g.changed || ·) (Bool.eq_iff_iff.2 ?_)
      rw [decide_eq_true_eq, bne_iff_ne, Nat.pos_iff_ne_zero]

theorem Represents.step (h : g.Represents relation) (event : MembershipEvent) :
    (g.step event).Represents (relation.step event) := by
  cases event with
  | change change => exact (h.apply change).1
  | takeChanged => exact ⟨h.nonempty, h.mem_iff⟩

end Groups

/-! ## Sequences of operations -/

theorem represents_after (events : List MembershipEvent) :
    (Groups.after events).Represents (Memberships.after events) := by
  have hrun : ∀ {g : Groups} {relation : Memberships}, g.Represents relation →
      (events.foldl Groups.step g).Represents (events.foldl Memberships.step relation) := by
    induction events with
    | nil => exact fun h => h
    | cons event rest ih => exact fun h => ih (h.step event)
  exact hrun Groups.represents_empty

/-- The flag is up exactly if an operation changed the relation since the flag was lowered. -/
theorem changed_after_iff (events : List MembershipEvent) :
    (Groups.after events).changed = true ↔
      ∃ before change rest, events = before ++ .change change :: rest
        ∧ (Memberships.after before).apply change ≠ Memberships.after before
        ∧ .takeChanged ∉ rest := by
  induction events using List.reverseRecOn with
  | nil => simp [Groups.after]
  | append_singleton events event ih =>
    have hstep : Groups.after (events ++ [event]) = (Groups.after events).step event :=
      List.foldl_concat _ _ _ _
    rw [hstep, exists_split_concat]
    cases event with
    | change change =>
      obtain ⟨-, hreports, hchanged⟩ := (represents_after events).apply change
      show ((Groups.after events).apply change).2.changed = true ↔ _
      rw [hchanged, Bool.or_eq_true, hreports, ih, or_comm]
      simp
    | takeChanged => simp [Groups.step, Groups.takeChanged]

/-- **Memberships are a relation, and its changes are what is reported.** After any sequence of
operations on the empty table, between which the flag may be lowered at any time, no row is empty,
the rows stand for the relation that the same operations make, and the four views are its
projections. Whatever operation comes next, it reports a change exactly if the relation is another
one afterwards, and it raises the flag exactly then: an operation leaves the flag up if it was up or
if the relation changed. -/
theorem memberships_tracked (events : List MembershipEvent) :
    let g := Groups.after events
    let relation := Memberships.after events
    -- the rows
    (∀ (node : NodeId) (groups : AddressSet), g.rows[node]? = some groups → groups ≠ ∅)
    ∧ (∀ node group, (∃ groups, g.rows[node]? = some groups ∧ group ∈ groups) ↔
        (node, group) ∈ relation)
    -- the views
    ∧ (∀ node group, node ∈ g.members group ↔ (node, group) ∈ relation)
    ∧ (∀ node group, group ∈ g.joined node ↔ (node, group) ∈ relation)
    ∧ (∀ group, group ∈ g.all ↔ ∃ node, (node, group) ∈ relation)
    ∧ (∀ node group, g.isMember node group = true ↔ (node, group) ∈ relation)
    -- the reports and the flag
    ∧ (∀ change : MembershipChange,
        ((g.apply change).1 = true ↔ relation.apply change ≠ relation)
        ∧ ((g.apply change).2.changed = true ↔
            g.changed = true ∨ relation.apply change ≠ relation))
    ∧ (g.changed = true ↔
        ∃ before change rest, events = before ++ .change change :: rest
          ∧ (Memberships.after before).apply change ≠ Memberships.after before
          ∧ .takeChanged ∉ rest) := by
  intro g relation
  have h : g.Represents relation := represents_after events
  refine ⟨fun node groups hrow hempty => ?_, fun node group => h.exists_row,
    fun node group => h.mem_members, fun node group => (h.mem_iff node group).symm,
    fun group => h.mem_all, fun node group => h.isMember_iff, fun change => ?_,
    changed_after_iff events⟩
  · have hnonempty := h.nonempty node groups hrow
    rw [hempty] at hnonempty
    nomatch hnonempty
  · obtain ⟨-, hreports, hchanged⟩ := h.apply change
    exact ⟨hreports, by rw [hchanged, Bool.or_eq_true, hreports]⟩

end Meshcast
