import Mathlib.Data.Prod.Lex
import Meshcast.Proofs.NodeSets
import Meshcast.RelaySelection

/-!
# Meshcast — the chosen relays cover everybody two hops away

* **`RelaySelection.Picked`** — how far the greedy rounds have come.
* **`RelaySelection.Picked.exists_best?`** — a node still uncovered has no chosen coverer, so a
  coverer of it is up for choice; **`picked_selectRelays`** — each round takes one more candidate
  out of the finitely many, so the rounds end with every node covered.
* **`exists_relay_of_strictArc`** — whoever is two hops away is covered by a chosen relay.
* **`exists_strictArc_of_mem_selectRelays`** — only neighbors that cover somebody are chosen.
-/

namespace Meshcast

namespace RelaySelection

/-! ## Who covers whom -/

theorem mem_strictArcs {self : NodeId} {symmetric : NodeSet} {arcs : ArcSet} {arc : Arc} :
    arc ∈ strictArcs self symmetric arcs ↔
      arc ∈ arcs ∧ arc.source ∈ symmetric ∧ arc.target ≠ self ∧ arc.target ∉ symmetric := by
  unfold strictArcs
  rw [mem_filter]
  simp [and_assoc, contains_eq_false]

theorem Coverage.mem_of_add {coverage : Coverage} {node covered n t : NodeId} :
    t ∈ (coverage.add node covered).of n ↔ t ∈ coverage.of n ∨ n = node ∧ t = covered := by
  unfold add of
  rw [Std.ExtTreeMap.getElem?_insert]
  by_cases h : node = n
  · subst h
    simp only [Std.compare_self, if_true, Option.getD_some, mem_insert, true_and]
    rw [or_comm]
  · simp [h, Ne.symm h]

theorem Coverage.mem_add {coverage : Coverage} {node covered n : NodeId} :
    n ∈ coverage.add node covered ↔ n ∈ coverage ∨ n = node := by
  unfold add
  rw [Std.ExtTreeMap.mem_insert, Std.compare_eq_iff_eq, or_comm, eq_comm]

/-- A node has a row as soon as it covers somebody. -/
theorem Coverage.mem_of_mem_of {coverage : Coverage} {n t : NodeId} (h : t ∈ coverage.of n) :
    n ∈ coverage := by
  unfold of at h
  rw [Std.ExtTreeMap.mem_iff_isSome_getElem?]
  cases hrow : coverage[n]? with
  | none =>
    rw [hrow] at h
    exact absurd h Std.ExtTreeSet.not_mem_empty
  | some row => rfl

section Rows

variable (source target : Arc → NodeId)

/-- A table of rows that a set of arcs adds up to. -/
def rows (arcs : ArcSet) : Coverage :=
  arcs.foldl (fun c arc => c.add (source arc) (target arc)) ∅

theorem mem_of_foldl_add (arcs : List Arc) (coverage : Coverage) {n t : NodeId} :
    t ∈ (arcs.foldl (fun c arc => c.add (source arc) (target arc)) coverage).of n ↔
      t ∈ coverage.of n ∨ ∃ arc ∈ arcs, source arc = n ∧ target arc = t := by
  induction arcs generalizing coverage with
  | nil => simp
  | cons arc rest ih =>
    rw [List.foldl_cons, ih, Coverage.mem_of_add]
    simp [or_assoc, eq_comm]

theorem mem_foldl_add (arcs : List Arc) (coverage : Coverage) {n : NodeId} :
    n ∈ arcs.foldl (fun c arc => c.add (source arc) (target arc)) coverage ↔
      n ∈ coverage ∨ ∃ arc ∈ arcs, source arc = n := by
  induction arcs generalizing coverage with
  | nil => simp
  | cons arc rest ih =>
    rw [List.foldl_cons, ih, Coverage.mem_add]
    simp [or_assoc, eq_comm]

theorem mem_of_rows {arcs : ArcSet} {n t : NodeId} :
    t ∈ (rows source target arcs).of n ↔ ∃ arc ∈ arcs, source arc = n ∧ target arc = t := by
  unfold rows
  rw [Std.ExtTreeSet.foldl_eq_foldl_toList, mem_of_foldl_add]
  simp [Coverage.of]

theorem mem_rows {arcs : ArcSet} {n : NodeId} :
    n ∈ rows source target arcs ↔ ∃ arc ∈ arcs, source arc = n := by
  unfold rows
  rw [Std.ExtTreeSet.foldl_eq_foldl_toList, mem_foldl_add]
  simp

end Rows

theorem mem_of_coverage {arcs : ArcSet} {n t : NodeId} :
    t ∈ (coverage arcs).of n ↔ ⟨n, t⟩ ∈ arcs := by
  refine (mem_of_rows Arc.source Arc.target).trans ⟨?_, fun h => ⟨_, h, rfl, rfl⟩⟩
  rintro ⟨arc, harc, rfl, rfl⟩
  exact harc

theorem mem_of_coverers {arcs : ArcSet} {n t : NodeId} :
    n ∈ (coverers arcs).of t ↔ ⟨n, t⟩ ∈ arcs := by
  refine (mem_of_rows Arc.target Arc.source).trans ⟨?_, fun h => ⟨_, h, rfl, rfl⟩⟩
  rintro ⟨arc, harc, rfl, rfl⟩
  exact harc

theorem mem_coverers {arcs : ArcSet} {t : NodeId} :
    t ∈ coverers arcs ↔ ∃ n, (⟨n, t⟩ : Arc) ∈ arcs := by
  refine (mem_rows Arc.target Arc.source).trans ⟨?_, fun ⟨_, h⟩ => ⟨_, h, rfl⟩⟩
  rintro ⟨arc, harc, rfl⟩
  exact ⟨arc.source, harc⟩

theorem size_eq_one_iff {s : NodeSet} {n : NodeId} (hn : n ∈ s) :
    s.size = 1 ↔ ∀ m ∈ s, m = n := by
  rw [← ncard_setOf_mem, Set.ncard_eq_one]
  constructor
  · rintro ⟨a, ha⟩ m hm
    have honly : ∀ x, x ∈ s ↔ x = a := Set.ext_iff.1 ha
    rw [(honly m).1 hm, (honly n).1 hn]
  · exact fun honly => ⟨n, Set.ext fun m => ⟨honly m, fun heq => heq ▸ hn⟩⟩

theorem mem_soleCoverers {arcs : ArcSet} {n : NodeId} :
    n ∈ soleCoverers arcs ↔ ∃ t, ⟨n, t⟩ ∈ arcs ∧ ∀ m, ⟨m, t⟩ ∈ arcs → m = n := by
  have hrow {t : NodeId} {row : NodeSet} (ht : (coverers arcs)[t]? = some row) (m : NodeId) :
      m ∈ row ↔ ⟨m, t⟩ ∈ arcs := by
    rw [← mem_of_coverers]
    unfold Coverage.of
    rw [ht]
    rfl
  unfold soleCoverers
  rw [mem_ofList, List.mem_flatMap]
  constructor
  · rintro ⟨row, hvalue, hn⟩
    obtain ⟨hvalue, hsize⟩ := List.mem_filter.1 hvalue
    obtain ⟨t, ht⟩ := mem_values.1 hvalue
    rw [Std.ExtTreeSet.mem_toList] at hn
    have honly := (size_eq_one_iff hn).1 (of_decide_eq_true hsize)
    exact ⟨t, (hrow ht n).1 hn, fun m hm => honly m ((hrow ht m).2 hm)⟩
  · rintro ⟨t, hn, hsole⟩
    obtain ⟨row, ht⟩ := mem_iff_exists_getElem?.1 (Coverage.mem_of_mem_of (mem_of_coverers.2 hn))
    have hmem := (hrow ht n).2 hn
    have hsize : row.size = 1 := (size_eq_one_iff hmem).2 fun m hm => hsole m ((hrow ht m).1 hm)
    exact ⟨row, List.mem_filter.2 ⟨mem_values.2 ⟨t, ht⟩, decide_eq_true hsize⟩,
      Std.ExtTreeSet.mem_toList.2 hmem⟩

theorem mem_uncoveredBy {coverage : Coverage} {relays uncovered : NodeSet} {t : NodeId} :
    t ∈ uncoveredBy coverage relays uncovered ↔
      t ∈ uncovered ∧ ∀ relay ∈ relays, t ∉ coverage.of relay := by
  unfold uncoveredBy
  rw [mem_filter, Bool.not_eq_true', ← Bool.not_eq_true, any_eq_true]
  simp

/-! ## The best candidate -/

/-- Where a candidate stands: by its reach, then by its degree, then by its identifier. -/
def Candidate.rank (c : Candidate) : ℕ ×ₗ ℕ ×ₗ ℕᵒᵈ :=
  toLex (c.reach, toLex (c.degree, .toDual c.node.index))

theorem Candidate.rank_le {a b : Candidate} :
    a.rank ≤ b.rank ↔ a.reach < b.reach ∨ a.reach = b.reach
      ∧ (a.degree < b.degree ∨ a.degree = b.degree ∧ b.node.index ≤ a.node.index) := by
  unfold rank
  rw [Prod.Lex.toLex_le_toLex, Prod.Lex.toLex_le_toLex]
  rfl

theorem Candidate.beats_eq_true {a b : Candidate} :
    a.beats b = true ↔ b.reach < a.reach ∨ a.reach = b.reach ∧ b.degree < a.degree := by
  unfold beats
  rw [Bool.or_eq_true, Bool.and_eq_true, decide_eq_true_eq, decide_eq_true_eq, decide_eq_true_eq]

/-- What is the best so far once another candidate has come up. -/
def better (best : Option Candidate) (c : Candidate) : Option Candidate :=
  match best with
  | none => some c
  | some b => if c.beats b then some c else some b

theorem better_of_beats {b c : Candidate} (h : c.beats b = true) : better (some b) c = some c :=
  if_pos h

theorem better_of_not_beats {b c : Candidate} (h : ¬c.beats b = true) :
    better (some b) c = some b :=
  if_neg h

/-- Identifiers go up along the list, so what is best so far has the lowest one of all that are as
good. -/
theorem foldl_better (list : List Candidate) (b : Candidate)
    (hsorted : (b :: list).Pairwise fun a d => a.node.index < d.node.index) :
    ∃ c ∈ b :: list, list.foldl better (some b) = some c ∧ ∀ d ∈ b :: list, d.rank ≤ c.rank := by
  induction list generalizing b with
  | nil => exact ⟨b, List.mem_cons_self, rfl, by simp⟩
  | cons x rest ih =>
    obtain ⟨hb, hrest⟩ := List.pairwise_cons.1 hsorted
    by_cases hbeats : x.beats b = true
    · -- what is better than the best so far is better than all before it
      obtain ⟨c, hc, hfold, hbest⟩ := ih x hrest
      refine ⟨c, List.mem_cons_of_mem b hc, ?_, ?_⟩
      · rw [List.foldl_cons, better_of_beats hbeats]
        exact hfold
      · refine List.forall_mem_cons.2 ⟨?_, hbest⟩
        refine le_trans (Candidate.rank_le.2 ?_) (hbest x List.mem_cons_self)
        have := Candidate.beats_eq_true.1 hbeats
        omega
    · have hskip : (b :: rest).Pairwise fun a d => a.node.index < d.node.index :=
        List.pairwise_cons.2 ⟨fun d hd => hb d (List.mem_cons_of_mem x hd), hrest.of_cons⟩
      obtain ⟨c, hc, hfold, hbest⟩ := ih b hskip
      obtain ⟨hcb, hothers⟩ := List.forall_mem_cons.1 hbest
      refine ⟨c, ?_, ?_, List.forall_mem_cons.2 ⟨hcb, List.forall_mem_cons.2 ⟨?_, hothers⟩⟩⟩
      · rcases List.mem_cons.1 hc with rfl | hc
        · exact List.mem_cons_self
        · exact List.mem_cons_of_mem b (List.mem_cons_of_mem x hc)
      · rw [List.foldl_cons, better_of_not_beats hbeats]
        exact hfold
      · -- one that is just as good has the higher identifier
        refine le_trans (Candidate.rank_le.2 ?_) hcb
        have := hb x List.mem_cons_self
        have := mt Candidate.beats_eq_true.2 hbeats
        omega

theorem exists_best? {list : List Candidate} (hne : list ≠ [])
    (hsorted : list.Pairwise fun a d => a.node.index < d.node.index) :
    ∃ c ∈ list, best? list = some c ∧ ∀ d ∈ list, d.rank ≤ c.rank := by
  cases list with
  | nil => exact absurd rfl hne
  | cons b rest => exact foldl_better rest b hsorted

section Candidates

variable {coverage : Coverage} {chosen uncovered : NodeSet}

theorem size_filter_pos {row : NodeSet} :
    0 < (row.filter uncovered.contains).size ↔ ∃ t ∈ uncovered, t ∈ row := by
  rw [Nat.pos_iff_ne_zero, ne_eq, ← beq_iff_eq, ← Std.ExtTreeSet.isEmpty_eq_size_beq_zero,
    Std.ExtTreeSet.isEmpty_iff, Std.ExtTreeSet.eq_empty_iff_forall_not_mem]
  simp [and_comm]

/-- A neighbor as a candidate. -/
def asCandidate (coverage : Coverage) (uncovered : NodeSet) (n : NodeId) : Candidate where
  node := n
  reach := ((coverage.of n).filter uncovered.contains).size
  degree := (coverage.of n).size

theorem mem_candidates {c : Candidate} :
    c ∈ candidates coverage chosen uncovered ↔
      ∃ n, n ∉ chosen ∧ (∃ t ∈ uncovered, t ∈ coverage.of n)
        ∧ asCandidate coverage uncovered n = c := by
  have hup (node : NodeId) (row : NodeSet) :
      (!chosen.contains node && decide (0 < (row.filter uncovered.contains).size)) = true ↔
        node ∉ chosen ∧ ∃ t ∈ uncovered, t ∈ row := by
    rw [Bool.and_eq_true, Bool.not_eq_true', decide_eq_true_eq, contains_eq_false, size_filter_pos]
  unfold candidates asCandidate
  simp only [List.mem_filterMap, Prod.exists, Std.ExtTreeMap.mem_toList_iff_getElem?_eq_some,
    Option.ite_none_right_eq_some, Option.some.injEq, hup]
  constructor
  · rintro ⟨node, row, hrow, ⟨hfree, hcovers⟩, rfl⟩
    refine ⟨node, hfree, ?_⟩
    unfold Coverage.of
    rw [hrow]
    exact ⟨hcovers, rfl⟩
  · rintro ⟨n, hfree, ⟨t, ht, hcovers⟩, rfl⟩
    obtain ⟨row, hrow⟩ := mem_iff_exists_getElem?.1 (Coverage.mem_of_mem_of hcovers)
    unfold Coverage.of at hcovers ⊢
    rw [hrow] at hcovers ⊢
    exact ⟨n, row, hrow, ⟨hfree, t, ht, hcovers⟩, rfl⟩

theorem pairwise_candidates :
    (candidates coverage chosen uncovered).Pairwise fun a d => a.node.index < d.node.index := by
  refine Std.ExtTreeMap.ordered_keys_toList.filterMap _ ?_
  rintro ⟨a, row⟩ ⟨d, row'⟩ hlt x hx y hy
  simp only [Option.ite_none_right_eq_some, Option.some.injEq] at hx hy
  rw [← hx.2, ← hy.2]
  exact Nat.compare_eq_lt.1 hlt

/-- Whoever covers an uncovered node is up for choice, so somebody is the best one. -/
theorem exists_best?_candidates {n t : NodeId} (hfree : n ∉ chosen) (ht : t ∈ uncovered)
    (hcovers : t ∈ coverage.of n) :
    ∃ c, best? (candidates coverage chosen uncovered) = some c := by
  have hmem : asCandidate coverage uncovered n ∈ candidates coverage chosen uncovered :=
    mem_candidates.2 ⟨n, hfree, ⟨t, ht, hcovers⟩, rfl⟩
  obtain ⟨c, -, hc, -⟩ := exists_best? (List.ne_nil_of_mem hmem) pairwise_candidates
  exact ⟨c, hc⟩

theorem best?_candidates {c : Candidate}
    (h : best? (candidates coverage chosen uncovered) = some c) :
    c ∈ candidates coverage chosen uncovered
      ∧ ∀ d ∈ candidates coverage chosen uncovered, d.rank ≤ c.rank := by
  have hne : candidates coverage chosen uncovered ≠ [] := by
    intro hnil
    rw [hnil] at h
    nomatch h
  obtain ⟨b, hb, hbest, hrank⟩ := exists_best? hne pairwise_candidates
  obtain rfl := Option.some.inj (hbest.symm.trans h)
  exact ⟨hb, hrank⟩

end Candidates

/-! ## The greedy rounds -/

/-- How many nodes that cover anything are not chosen yet. -/
def unchosen (coverage : Coverage) (chosen : NodeSet) : Nat :=
  (coverage.keys.filter fun n => !chosen.contains n).length

section Unchosen

variable {coverage : Coverage} {chosen : NodeSet} {n : NodeId}

theorem unchosen_pos (hn : n ∈ coverage) (hfree : n ∉ chosen) : 0 < unchosen coverage chosen := by
  refine List.length_pos_of_mem (a := n) (List.mem_filter.2 ⟨Std.ExtTreeMap.mem_keys.2 hn, ?_⟩)
  rw [contains_eq_false.2 hfree]
  rfl

theorem unchosen_insert_lt (hn : n ∈ coverage) (hfree : n ∉ chosen) :
    unchosen coverage (chosen.insert n) < unchosen coverage chosen := by
  refine length_filter_lt ?_ (Std.ExtTreeMap.mem_keys.2 hn) ?_ ?_
  · intro m _ hm
    rw [Bool.not_eq_true', contains_eq_false] at hm ⊢
    exact fun hmem => hm (mem_insert.2 (.inr hmem))
  · rw [contains_eq_false.2 hfree]
    rfl
  · simp

end Unchosen

/-- The choice among the sources of some arcs has come so far: after the only coverers it has picked
`order`, one after the other, and the nodes in `uncovered` are left. -/
inductive Picked (arcs : ArcSet) : List NodeId → (chosen uncovered : NodeSet) → Prop
  | start : Picked arcs [] (soleCoverers arcs)
      (uncoveredBy (coverage arcs) (soleCoverers arcs) (.ofList (coverers arcs).keys))
  | pick {order : List NodeId} {chosen uncovered : NodeSet} {c : Candidate}
      (h : Picked arcs order chosen uncovered) (left : uncovered ≠ ∅)
      (best : best? (candidates (coverage arcs) chosen uncovered) = some c) :
      Picked arcs (order ++ [c.node]) (chosen.insert c.node)
        (uncoveredBy (coverage arcs) (.ofList [c.node]) uncovered)

namespace Picked

variable {arcs : ArcSet} {order : List NodeId} {chosen uncovered : NodeSet}

theorem mem_chosen (h : Picked arcs order chosen uncovered) {n : NodeId} :
    n ∈ chosen ↔ n ∈ soleCoverers arcs ∨ n ∈ order := by
  induction h with
  | start => simp
  | pick _ _ _ ih =>
    rw [mem_insert, ih, List.mem_append, List.mem_singleton]
    tauto

/-- What is left are the nodes that no chosen neighbor covers. -/
theorem mem_uncovered (h : Picked arcs order chosen uncovered) {t : NodeId} :
    t ∈ uncovered ↔ (∃ n, ⟨n, t⟩ ∈ arcs) ∧ ∀ n ∈ chosen, ⟨n, t⟩ ∉ arcs := by
  induction h with
  | start =>
    rw [mem_uncoveredBy, mem_ofList, Std.ExtTreeMap.mem_keys, mem_coverers]
    simp only [mem_of_coverage]
  | pick _ _ _ ih =>
    rw [mem_uncoveredBy, ih]
    simp only [mem_of_coverage, mem_ofList, List.mem_singleton, forall_eq, mem_insert, or_imp,
      forall_and]
    tauto

/-- While a node is left, there is a neighbor to pick. -/
theorem exists_best? (h : Picked arcs order chosen uncovered) (hleft : uncovered ≠ ∅) :
    ∃ c, best? (candidates (coverage arcs) chosen uncovered) = some c := by
  obtain ⟨t, ht⟩ : ∃ t, t ∈ uncovered := by
    by_contra hnone
    exact hleft (Std.ExtTreeSet.eq_empty_iff_forall_not_mem.2 (not_exists.1 hnone))
  obtain ⟨⟨n, hn⟩, hopen⟩ := h.mem_uncovered.1 ht
  exact exists_best?_candidates (fun hchosen => hopen n hchosen hn) ht (mem_of_coverage.2 hn)

theorem exists_arc (h : Picked arcs order chosen uncovered) {n : NodeId} (hn : n ∈ chosen) :
    ∃ t, ⟨n, t⟩ ∈ arcs := by
  induction h with
  | start =>
    obtain ⟨t, ht, -⟩ := mem_soleCoverers.1 hn
    exact ⟨t, ht⟩
  | pick _ _ hbest ih =>
    obtain ⟨m, -, ⟨t, -, hcovers⟩, rfl⟩ := mem_candidates.1 (best?_candidates hbest).1
    rcases mem_insert.1 hn with rfl | hn
    · exact ⟨t, mem_of_coverage.1 hcovers⟩
    · exact ih hn

/-- The rounds go on until no node is left. -/
theorem exists_chooseGreedily (h : Picked arcs order chosen uncovered) {fuel : Nat}
    (hfuel : unchosen (coverage arcs) chosen ≤ fuel) :
    ∃ order', Picked arcs order' (chooseGreedily (coverage arcs) fuel chosen uncovered) ∅ := by
  induction fuel generalizing order chosen uncovered with
  | zero =>
    by_cases hleft : uncovered = ∅
    · exact ⟨order, hleft ▸ h⟩
    · obtain ⟨c, hbest⟩ := h.exists_best? hleft
      obtain ⟨n, hfree, ⟨t, -, hcovers⟩, rfl⟩ := mem_candidates.1 (best?_candidates hbest).1
      have := unchosen_pos (Coverage.mem_of_mem_of hcovers) hfree
      omega
  | succ fuel ih =>
    unfold chooseGreedily
    by_cases hleft : uncovered = ∅
    · rw [if_pos (Std.ExtTreeSet.isEmpty_iff.2 hleft)]
      exact ⟨order, hleft ▸ h⟩
    · obtain ⟨c, hbest⟩ := h.exists_best? hleft
      obtain ⟨n, hfree, ⟨t, -, hcovers⟩, rfl⟩ := mem_candidates.1 (best?_candidates hbest).1
      rw [if_neg (mt Std.ExtTreeSet.isEmpty_iff.1 hleft), hbest]
      have hfewer := unchosen_insert_lt (Coverage.mem_of_mem_of hcovers) hfree
      exact ih (h.pick hleft hbest) (Nat.le_of_lt_succ (hfewer.trans_le hfuel))

end Picked

end RelaySelection

/-! ## The choice -/

open RelaySelection

variable {self : NodeId} {symmetric : NodeSet} {arcs : ArcSet}

/-- The choice comes to its end with every node covered. -/
theorem picked_selectRelays (self : NodeId) (symmetric : NodeSet) (arcs : ArcSet) : ∃ order,
    Picked (strictArcs self symmetric arcs) order (selectRelays self symmetric arcs) ∅ := by
  refine Picked.start.exists_chooseGreedily ?_
  rw [← Std.ExtTreeMap.length_keys]
  exact List.length_filter_le _ _

/-- Whoever is two hops away, as some neighbor's neighbor, hears a chosen relay. -/
theorem exists_relay_of_strictArc {n t : NodeId} (h : ⟨n, t⟩ ∈ strictArcs self symmetric arcs) :
    ∃ m ∈ selectRelays self symmetric arcs, ⟨m, t⟩ ∈ strictArcs self symmetric arcs := by
  obtain ⟨order, hpicked⟩ := picked_selectRelays self symmetric arcs
  by_contra hnone
  refine Std.ExtTreeSet.not_mem_empty (hpicked.mem_uncovered.2 ⟨⟨n, h⟩, fun m hm hcovers => ?_⟩)
  exact hnone ⟨m, hm, hcovers⟩

/-- Whoever is chosen as a relay covers somebody. -/
theorem exists_strictArc_of_mem_selectRelays {m : NodeId}
    (h : m ∈ selectRelays self symmetric arcs) :
    ∃ t, (⟨m, t⟩ : Arc) ∈ strictArcs self symmetric arcs := by
  obtain ⟨order, hpicked⟩ := picked_selectRelays self symmetric arcs
  exact hpicked.exists_arc h

end Meshcast
