import Meshcast.FlaggedSet
import Meshcast.Groups
import Meshcast.LinkSensing
import Meshcast.Proofs.NodeSets

/-!
# Meshcast — reports against comparisons

An operation on a flagged set, on a row of the memberships or on the nodes behind a neighbor has its
own way to tell whether it changed something: by whether an element was new, by whether it was
there, by a look at the row, by what each of two passes did. What the reports are meant to say is
that the set or the row is another one afterwards. This module says where the two agree.

A comparison takes a missing row and an empty one for the same. To join a group and to replace a row
agree with it on any table; to leave a group does only if the row of the node is not empty, as an
empty row is dropped without a report. The two passes do not agree with it where a greeting
contradicts itself: what the first takes out the second puts back, and both count.

* **`FlaggedSet.insert_eq_update`**, **`FlaggedSet.remove_eq_update`** — one element of a set.
* **`Groups.update_eq`** — replacing a row, by comparison.
* **`Groups.register_eq_update`**, **`Groups.unregister_eq_update`** — joining and leaving, as
  replacements of a row.
* **`Groups.Agrees`** — rows that say the same of everybody: an empty one says nothing.
* **`HelloReport.updateTwoHop_eq`** — the two passes over the nodes behind a neighbor.
-/

namespace Meshcast

/-! ## One element of a set -/

namespace FlaggedSet

theorem insert_eq_update (s : FlaggedSet) (node : NodeId) :
    s.insert node = s.update (·.insert node) := by
  unfold insert update replace
  cases hcontains : s.members.contains node with
  | true =>
    have hmem : node ∈ s.members := Std.ExtTreeSet.contains_iff_mem.1 hcontains
    simp [insert_of_mem hmem]
  | false => simp [eq_insert_iff, contains_eq_false.1 hcontains]

theorem remove_eq_update (s : FlaggedSet) (node : NodeId) :
    s.remove node = s.update (·.erase node) := by
  unfold remove update replace
  cases hcontains : s.members.contains node with
  | true =>
    have hmem : node ∈ s.members := Std.ExtTreeSet.contains_iff_mem.1 hcontains
    simp [eq_erase_iff, hmem]
  | false => simp [erase_of_not_mem (contains_eq_false.1 hcontains)]

end FlaggedSet

/-! ## One row of the memberships -/

namespace Groups

variable (g : Groups) {node other : NodeId} {group : Address}

theorem joined_of_row {groups : AddressSet} (h : g.rows[node]? = some groups) :
    g.joined node = groups := by
  unfold joined
  rw [h]
  rfl

theorem joined_of_no_row (h : g.rows[node]? = none) : g.joined node = ∅ := by
  unfold joined
  rw [h]
  rfl

theorem mem_joined {g : Groups} :
    group ∈ g.joined node ↔ ∃ groups, g.rows[node]? = some groups ∧ group ∈ groups := by
  unfold joined
  cases g.rows[node]? <;> simp

theorem getElem?_rowsWith_self (node : NodeId) (groups : AddressSet) :
    (g.rowsWith node groups)[node]? = if groups.isEmpty then none else some groups := by
  unfold rowsWith
  split <;> simp

theorem getElem?_rowsWith_of_ne (h : other ≠ node) (groups : AddressSet) :
    (g.rowsWith node groups)[other]? = g.rows[other]? := by
  have hne : compare node other ≠ .eq := fun heq => h (Std.LawfulEqOrd.eq_of_compare heq).symm
  unfold rowsWith
  split
  · rw [Std.ExtTreeMap.getElem?_erase, if_neg hne]
  · rw [Std.ExtTreeMap.getElem?_insert, if_neg hne]

/-- Replacing a row is decided by a comparison, a missing row counting as an empty one. -/
theorem update_eq (node : NodeId) (groups : AddressSet) :
    g.update node groups = if g.joined node = groups then (false, g)
      else (true, { rows := g.rowsWith node groups, changed := true }) := by
  unfold update joined
  cases g.rows[node]? with
  | none =>
    have hempty : groups.isEmpty = true ↔ ∅ = groups :=
      Std.ExtTreeSet.isEmpty_iff.trans eq_comm
    simp [hempty]
  | some current => simp

theorem joined_update (node : NodeId) (groups : AddressSet) :
    (g.update node groups).2.joined node = groups := by
  rw [update_eq]
  split
  · assumption
  · show (g.rowsWith node groups)[node]?.getD ∅ = groups
    rw [getElem?_rowsWith_self]
    split
    · rename_i hempty
      exact (Std.ExtTreeSet.isEmpty_iff.1 hempty).symm
    · rfl

theorem update_update (node : NodeId) (groups : AddressSet) :
    ((g.update node groups).2.update node groups).2 = (g.update node groups).2 := by
  rw [update_eq, if_pos (g.joined_update node groups)]

theorem getElem?_rows_update_of_ne (groups : AddressSet) (h : other ≠ node) :
    (g.update node groups).2.rows[other]? = g.rows[other]? := by
  rw [update_eq]
  split
  · rfl
  · exact g.getElem?_rowsWith_of_ne h groups

theorem joined_update_of_ne (groups : AddressSet) (h : other ≠ node) :
    (g.update node groups).2.joined other = g.joined other := by
  unfold joined
  rw [g.getElem?_rows_update_of_ne groups h]

/-- To join a group is to be in one group more: the group is new to the row exactly if the row
becomes another one. -/
theorem register_eq_update (node : NodeId) (group : Address) :
    g.register node group = g.update node ((g.joined node).insert group) := by
  have hnonempty : ((g.joined node).insert group).isEmpty = false :=
    isEmpty_insert
  rw [update_eq]
  dsimp only [register]
  cases hcontains : (g.joined node).contains group with
  | true =>
    -- the row is there, and stays what it is
    have hmem : group ∈ g.joined node := Std.ExtTreeSet.contains_iff_mem.1 hcontains
    have hrow : g.rows[node]? = some (g.joined node) := by
      obtain ⟨groups, hgroups, -⟩ := mem_joined.1 hmem
      rw [g.joined_of_row hgroups, hgroups]
    simp [insert_of_mem hmem, insert_eq_self hrow]
  | false => simp [eq_insert_iff, contains_eq_false.1 hcontains, rowsWith, hnonempty]

/-- To leave a group is to be in one group less: the group was in the row exactly if the row becomes
another one. An empty row would make the difference, since it is dropped. -/
theorem unregister_eq_update (h : g.rows[node]? ≠ some ∅) (group : Address) :
    g.unregister node group = g.update node ((g.joined node).erase group) := by
  rw [update_eq]
  dsimp only [unregister]
  cases hrow : g.rows[node]? with
  | none =>
    have herase : (∅ : AddressSet).erase group = ∅ := erase_of_not_mem Std.ExtTreeSet.not_mem_empty
    simp [g.joined_of_no_row hrow, herase]
  | some groups =>
    rw [g.joined_of_row hrow]
    dsimp only
    cases hcontains : groups.contains group with
    | true =>
      have hmem : group ∈ groups := Std.ExtTreeSet.contains_iff_mem.1 hcontains
      simp [eq_erase_iff, hmem]
    | false =>
      have hsame : groups.erase group = groups := erase_of_not_mem (contains_eq_false.1 hcontains)
      have hnonempty : groups.isEmpty = false := by
        rw [← Bool.not_eq_true, Std.ExtTreeSet.isEmpty_iff]
        intro hempty
        rw [hrow, hempty] at h
        exact h rfl
      simp [hsame, rowsWith, hnonempty, insert_eq_self hrow]

theorem getElem?_rows_unregister_of_ne (group : Address) (h : other ≠ node) :
    (g.unregister node group).2.rows[other]? = g.rows[other]? := by
  unfold unregister
  split
  · rfl
  · exact g.getElem?_rowsWith_of_ne h _

theorem joined_register (node : NodeId) (group : Address) :
    (g.register node group).2.joined node = (g.joined node).insert group := by
  rw [register_eq_update, joined_update]

theorem joined_unregister (node : NodeId) (group : Address) :
    (g.unregister node group).2.joined node = (g.joined node).erase group := by
  by_cases hempty : g.rows[node]? = some ∅
  · -- an empty row goes, which nobody can tell from the groups of the node
    have hnone : (∅ : AddressSet).erase group = ∅ := erase_of_not_mem Std.ExtTreeSet.not_mem_empty
    unfold unregister joined
    rw [hempty]
    dsimp only
    rw [getElem?_rowsWith_self, hnone]
    simp [hnone]
  · rw [g.unregister_eq_update hempty, joined_update]

/-! ## What the rows say of everybody -/

theorem mem_members {g : Groups} : node ∈ g.members group ↔ group ∈ g.joined node := by
  rw [mem_joined]
  unfold members
  simp [Std.ExtTreeMap.mem_toList_iff_getElem?_eq_some]

theorem mem_all {g : Groups} : group ∈ g.all ↔ ∃ node, group ∈ g.joined node := by
  simp only [← mem_members]
  unfold members all
  simp

/-- The rows say the same of everybody. They are the same rows but for empty ones. -/
def Agrees (g g' : Groups) : Prop :=
  ∀ node, g'.joined node = g.joined node

variable {g} {g' : Groups}

theorem Agrees.of_rows_eq (h : g'.rows = g.rows) : g.Agrees g' := by
  intro node
  unfold joined
  rw [h]

theorem Agrees.isMember_eq (h : g.Agrees g') (node : NodeId) (group : Address) :
    g'.isMember node group = g.isMember node group := by
  unfold isMember
  rw [h]

theorem Agrees.members_eq (h : g.Agrees g') (group : Address) :
    g'.members group = g.members group := by
  refine Std.ExtTreeSet.ext_mem fun node => ?_
  rw [mem_members, mem_members, h]

theorem Agrees.all_eq (h : g.Agrees g') : g'.all = g.all := by
  refine Std.ExtTreeSet.ext_mem fun group => ?_
  rw [mem_all, mem_all]
  exact exists_congr fun node => by rw [h]

end Groups

/-! ## Two-hop nodes -/

namespace HelloReport

/-- Some node is reported and withdrawn at once. -/
def contradicts (report : HelloReport) : Bool :=
  report.reported.any report.withdrawn.contains

/-- Other nodes are reported than are known, or a node is taken out and put back. -/
def changesTwoHop (report : HelloReport) (known : NodeSet) : Bool :=
  known ≠ report.reported || report.contradicts

/-- The pass that adds nodes changes something exactly if one of them was missing at its start. -/
theorem foldl_insert_eq (nodes : List NodeId) (changed : Bool) (twoHop : NodeSet) :
    nodes.foldl (fun (changed, twoHop) node =>
        (changed || !twoHop.contains node, twoHop.insert node)) (changed, twoHop)
      = (changed || nodes.any (!twoHop.contains ·), nodes.foldl (·.insert ·) twoHop) := by
  induction nodes generalizing changed twoHop with
  | nil => simp
  | cons node rest ih =>
    rw [List.foldl_cons, ih, List.any_cons, List.foldl_cons]
    cases hcontains : twoHop.contains node with
    | true =>
      have hmem : node ∈ twoHop := Std.ExtTreeSet.contains_iff_mem.1 hcontains
      simp [insert_of_mem hmem]
    | false => simp

theorem mem_foldl_insert {nodes : List NodeId} {twoHop : NodeSet} {t : NodeId} :
    t ∈ nodes.foldl (·.insert ·) twoHop ↔ t ∈ nodes ∨ t ∈ twoHop := by
  induction nodes generalizing twoHop with
  | nil => simp
  | cons node rest ih => rw [List.foldl_cons, ih, mem_insert, List.mem_cons, or_left_comm, or_assoc]

theorem changesTwoHop_eq_false {report : HelloReport} {known : NodeSet} :
    report.changesTwoHop known = false ↔
      known = report.reported ∧ ∀ t ∈ report.reported, t ∉ report.withdrawn := by
  unfold changesTwoHop contradicts
  rw [Bool.or_eq_false_iff, decide_eq_false_iff_not, Decidable.not_not, ← Bool.not_eq_true,
    any_eq_true]
  simp

/-- **The two passes.** Together they leave what is reported. They count as a change if that is not
what was known, and also if a node is withdrawn that is reported. -/
theorem updateTwoHop_eq (report : HelloReport) (known : NodeSet) :
    report.updateTwoHop known = (report.changesTwoHop known, report.reported) := by
  let kept := known.filter fun node =>
    report.reported.contains node && !report.withdrawn.contains node
  have hkept : ∀ t, t ∈ kept ↔ t ∈ known ∧ t ∈ report.reported ∧ t ∉ report.withdrawn := by
    intro t
    rw [mem_filter, Bool.and_eq_true, Bool.not_eq_true', contains_eq_false,
      Std.ExtTreeSet.contains_iff_mem]
  show report.reported.foldl _ (kept.size != known.size, kept) = _
  rw [Std.ExtTreeSet.foldl_eq_foldl_toList, foldl_insert_eq]
  refine Prod.ext ?_ ?_
  · -- neither pass does anything if all that is known is kept and all that is reported is there
    have hquiet : (kept.size != known.size || report.reported.toList.any (!kept.contains ·)) = false
        ↔ (∀ t ∈ known, t ∈ kept) ∧ ∀ t ∈ report.reported, t ∈ kept := by
      have hsize := size_eq_iff_of_subset fun t ht => ((hkept t).1 ht).1
      rw [Bool.or_eq_false_iff, bne_eq_false_iff_eq, hsize]
      simp
    have hsame : known = report.reported ↔ ∀ t, t ∈ known ↔ t ∈ report.reported :=
      Std.ExtTreeSet.ext_mem_iff
    have hiff : (∀ t ∈ known, t ∈ kept) ∧ (∀ t ∈ report.reported, t ∈ kept) ↔
        known = report.reported ∧ ∀ t ∈ report.reported, t ∉ report.withdrawn := by
      constructor
      · intro ⟨hkeeps, hthere⟩
        refine ⟨hsame.2 fun t => ⟨fun ht => ?_, fun ht => ?_⟩, fun t ht => ?_⟩
        · exact ((hkept t).1 (hkeeps t ht)).2.1
        · exact ((hkept t).1 (hthere t ht)).1
        · exact ((hkept t).1 (hthere t ht)).2.2
      · intro ⟨hknown, hconsistent⟩
        have hall : ∀ t ∈ report.reported, t ∈ kept := fun t ht =>
          (hkept t).2 ⟨(hsame.1 hknown t).2 ht, ht, hconsistent t ht⟩
        exact ⟨fun t ht => hall t ((hsame.1 hknown t).1 ht), hall⟩
    rw [← hquiet, ← changesTwoHop_eq_false] at hiff
    show (kept.size != known.size || _) = report.changesTwoHop known
    rw [← Bool.not_inj_iff, Bool.eq_iff_iff, Bool.not_eq_true', Bool.not_eq_true', hiff]
  · refine Std.ExtTreeSet.ext_mem fun t => ?_
    rw [mem_foldl_insert, Std.ExtTreeSet.mem_toList, hkept]
    tauto

end HelloReport

end Meshcast
