import Mathlib.Data.List.Nodup
import Mathlib.Data.List.Perm.Subperm
import Mathlib.Logic.Relation
import Mathlib.Order.Bounds.Basic
import Mathlib.Order.Nat
import Meshcast.Graph.Contraction
import Meshcast.Proofs.WeightedGraph

/-!
# Meshcast — contraction is exact

Nodes are bypassed one after the other, and each time the weights of the edges are the numbers of
hops over whoever has been bypassed so far.

* **`Through`** — the paths all whose inner nodes are of a kind.
* **`Through.split`** — a path that may also pass `z` avoids it, or is a path to it and one from it:
  what is between two visits of `z` can be left out.
* **`StandsFor`** — the invariant: the edges of a graph are the shortest paths of another one over
  nodes that are gone.
* **`weight?_contract`**, **`mem_nodes_contract`** — the weights of a contracted graph, and its
  nodes.
* **`reachable_contract`** — kept nodes are connected as before.
* **`isLeast_lengths`**, **`weight?_contract_of_lt`** — a graph of fewer than 2³² nodes has no
  shortest path whose length counts as a shorter one.
-/

namespace Meshcast

/-! ## Least numbers -/

theorem exists_isLeast {s : Set ℕ} {n : ℕ} (h : n ∈ s) : ∃ m, IsLeast s m := by
  classical
  have hex : ∃ m, m ∈ s := ⟨n, h⟩
  exact ⟨Nat.find hex, Nat.find_spec hex, fun _ hm => Nat.find_min' hex hm⟩

/-- Elements that are not below others of the set do not matter. -/
theorem isLeast_iff_of_dominates {s t : Set ℕ} (hsubset : ∀ n ∈ s, n ∈ t)
    (hdominates : ∀ n ∈ t, ∃ m ∈ s, m ≤ n) {n : ℕ} : IsLeast s n ↔ IsLeast t n := by
  constructor
  · rintro ⟨hmem, hle⟩
    refine ⟨hsubset n hmem, fun k hk => ?_⟩
    obtain ⟨m, hm, hmk⟩ := hdominates k hk
    exact (hle hm).trans hmk
  · rintro ⟨hmem, hle⟩
    obtain ⟨m, hm, hmn⟩ := hdominates n hmem
    obtain rfl := Nat.le_antisymm hmn (hle (hsubset m hm))
    exact ⟨hm, fun k hk => hle (hsubset k hk)⟩

namespace Graph

/-! ## Paths through nodes of a kind -/

/-- A path of so many edges all whose inner nodes are as `inner` says. -/
inductive Through (g : Graph) (inner : NodeId → Prop) : NodeId → ℕ → NodeId → Prop
  | edge {u v : NodeId} (h : g.HasEdge u v) : Through g inner u 1 v
  | step {u x v : NodeId} {n : ℕ} (h : Through g inner u n x) (hx : inner x) (he : g.HasEdge x v) :
      Through g inner u (n + 1) v

namespace Through

variable {g : Graph} {inner inner' : NodeId → Prop} {u v x z : NodeId} {m n : ℕ}

theorem mono (hsubset : ∀ x y, g.HasEdge x y → inner x → inner' x)
    (h : g.Through inner u n v) : g.Through inner' u n v := by
  induction h with
  | edge he => exact .edge he
  | step _ hx he ih => exact .step ih (hsubset _ _ he hx) he

theorem trans (h : g.Through inner u m x) (hx : inner x) (h' : g.Through inner x n v) :
    g.Through inner u (m + n) v := by
  induction h' with
  | edge he => exact .step h hx he
  | step _ hy he ih => exact .step ih hy he

theorem source_mem (hg : g.Coherent) (h : g.Through inner u n v) : u ∈ g.nodes := by
  induction h with
  | edge he => exact hg.source_mem _ _ he
  | step _ _ _ ih => exact ih

/-- A path that may pass `z` too avoids it, or is a path to it and one from it. -/
theorem split (h : g.Through (fun x => x = z ∨ inner x) u n v) :
    (∃ m ≤ n, g.Through inner u m v)
      ∨ ∃ a b, a + b ≤ n ∧ g.Through inner u a z ∧ g.Through inner z b v := by
  induction h with
  | edge he => exact .inl ⟨1, Nat.le_refl 1, .edge he⟩
  | step _ hx he ih =>
    rcases hx with rfl | hx
    · -- the path is at `z`, for the first time or again
      rcases ih with ⟨m, hm, h⟩ | ⟨a, b, hab, ha, -⟩
      · exact .inr ⟨m, 1, by omega, h, .edge he⟩
      · exact .inr ⟨a, 1, by omega, ha, .edge he⟩
    · rcases ih with ⟨m, hm, h⟩ | ⟨a, b, hab, ha, hb⟩
      · exact .inl ⟨m + 1, by omega, .step h hx he⟩
      · exact .inr ⟨a, b + 1, by omega, ha, .step hb hx he⟩

end Through

/-! ## Adding edges that are cheaper -/

section Cheaper

variable {g : Graph}

theorem Coherent.addEdgeIfCheaper (h : g.Coherent) (u v : NodeId) (weight : Weight) :
    (g.addEdgeIfCheaper u v weight).2.Coherent := by
  unfold Graph.addEdgeIfCheaper
  split
  · exact h
  · exact h.addEdge u v weight

theorem weight?_addEdgeIfCheaper {u v : NodeId} {weight : Weight} {a b : NodeId} (hab : a ≠ b) :
    (g.addEdgeIfCheaper u v weight).2.weight? a b =
      if u = a ∧ v = b then some ((g.weight? a b).elim weight (min weight)) else g.weight? a b := by
  unfold addEdgeIfCheaper
  split
  · rename_i hstays
    split
    · rename_i hends
      obtain ⟨rfl, rfl⟩ := hends
      simp only [hab, decide_false, Bool.false_or, Option.any_eq_true, decide_eq_true_eq] at hstays
      obtain ⟨old, hold, hle⟩ := hstays
      rw [hold, Option.elim_some, Nat.min_eq_right hle]
    · rfl
  · rename_i hadd
    simp only [Bool.or_eq_true, decide_eq_true_eq, not_or, Bool.not_eq_true, Option.any_eq_false,
      decide_eq_false_iff_not] at hadd
    rw [weight?_addEdge hadd.1]
    by_cases hends : u = a ∧ v = b
    · obtain ⟨rfl, rfl⟩ := hends
      rw [if_pos ⟨rfl, rfl⟩, if_pos ⟨rfl, rfl⟩]
      cases hold : g.weight? u v with
      | none => rfl
      | some old =>
        rw [Option.elim_some, Nat.min_eq_left (Nat.le_of_lt (Nat.lt_of_not_le (hadd.2 old hold)))]
    · rw [if_neg hends, if_neg fun h => hends ⟨h.1.symm, h.2.symm⟩]

theorem isLeast_addEdgeIfCheaper {u v : NodeId} {weight : Weight} {a b : NodeId} (hab : a ≠ b)
    {n : ℕ} : (g.addEdgeIfCheaper u v weight).2.weight? a b = some n ↔
      IsLeast {m | g.weight? a b = some m ∨ u = a ∧ v = b ∧ m = weight} n := by
  rw [weight?_addEdgeIfCheaper hab]
  by_cases hends : u = a ∧ v = b
  · have hleast : IsLeast {m | g.weight? a b = some m ∨ u = a ∧ v = b ∧ m = weight}
        ((g.weight? a b).elim weight (min weight)) := by
      cases g.weight? a b with
      | none =>
        refine ⟨.inr ⟨hends.1, hends.2, rfl⟩, ?_⟩
        rintro m (hm | ⟨-, -, rfl⟩)
        · nomatch hm
        · exact Nat.le_refl m
      | some old =>
        rw [Option.elim_some]
        constructor
        · rcases Nat.le_total weight old with hle | hle
          · exact .inr ⟨hends.1, hends.2, Nat.min_eq_left hle⟩
          · exact .inl (congrArg some (Nat.min_eq_right hle).symm)
        · rintro m (hm | ⟨-, -, rfl⟩)
          · cases hm
            exact Nat.min_le_right weight old
          · exact Nat.min_le_left m old
    rw [if_pos hends]
    constructor
    · rintro ⟨⟩
      exact hleast
    · intro hn
      rw [hleast.unique hn]
  · have hset : {m | g.weight? a b = some m ∨ u = a ∧ v = b ∧ m = weight} =
        {m | g.weight? a b = some m} := by
      ext m
      exact or_iff_left fun h => hends ⟨h.1, h.2.1⟩
    rw [if_neg hends, hset]
    constructor
    · exact fun h => ⟨h, fun m hm => Nat.le_of_eq (Option.some.inj (h.symm.trans hm))⟩
    · exact And.left

/-- Of an edge and those added later between the same nodes, the cheapest stays. -/
theorem weight?_foldl_addEdgeIfCheaper (edges : List Edge) {a b : NodeId} (hab : a ≠ b) {n : ℕ} :
    (edges.foldl (fun g e => (g.addEdgeIfCheaper e.source e.target e.weight).2) g).weight? a b
        = some n ↔
      IsLeast {m | g.weight? a b = some m ∨ ∃ e ∈ edges, e.source = a ∧ e.target = b ∧ m = e.weight}
        n := by
  induction edges generalizing g with
  | nil =>
    constructor
    · intro h
      refine ⟨.inl h, ?_⟩
      rintro m (hm | ⟨e, he, -⟩)
      · rw [List.foldl_nil, hm] at h
        exact Nat.le_of_eq (Option.some.inj h).symm
      · nomatch he
    · rintro ⟨h | ⟨e, he, -⟩, -⟩
      · exact h
      · nomatch he
  | cons e rest ih =>
    rw [List.foldl_cons, ih]
    simp only [isLeast_addEdgeIfCheaper hab, List.mem_cons, exists_eq_or_imp]
    refine isLeast_iff_of_dominates ?_ ?_
    · rintro m (⟨hm | hm, -⟩ | hm)
      · exact .inl hm
      · exact .inr (.inl hm)
      · exact .inr (.inr hm)
    · rintro m (hm | hm | hm)
      · obtain ⟨k, hk⟩ := exists_isLeast
          (s := {m | g.weight? a b = some m ∨ e.source = a ∧ e.target = b ∧ m = e.weight}) (.inl hm)
        exact ⟨k, .inl hk, hk.2 (.inl hm)⟩
      · obtain ⟨k, hk⟩ := exists_isLeast
          (s := {m | g.weight? a b = some m ∨ e.source = a ∧ e.target = b ∧ m = e.weight}) (.inr hm)
        exact ⟨k, .inl hk, hk.2 (.inr hm)⟩
      · exact ⟨m, .inr hm, Nat.le_refl m⟩

theorem foldl_addEdgeIfCheaper (edges : List Edge) (h : g.Coherent)
    (hends : ∀ e ∈ edges, e.source ∈ g.nodes ∧ e.target ∈ g.nodes) :
    (edges.foldl (fun g e => (g.addEdgeIfCheaper e.source e.target e.weight).2) g).Coherent
      ∧ ∀ x,
        x ∈ (edges.foldl (fun g e => (g.addEdgeIfCheaper e.source e.target e.weight).2) g).nodes
          ↔ x ∈ g.nodes := by
  induction edges generalizing g with
  | nil => exact ⟨h, fun _ => Iff.rfl⟩
  | cons e rest ih =>
    obtain ⟨hsource, htarget⟩ := hends e List.mem_cons_self
    have hsame : ∀ x,
        x ∈ (g.addEdgeIfCheaper e.source e.target e.weight).2.nodes ↔ x ∈ g.nodes := by
      intro x
      unfold addEdgeIfCheaper
      split
      · rfl
      · rename_i hadd
        have hne : e.source ≠ e.target := fun heq => hadd (by simp [heq])
        rw [mem_nodes_addEdge hne]
        constructor
        · rintro (rfl | rfl | hx)
          · exact htarget
          · exact hsource
          · exact hx
        · exact fun hx => .inr (.inr hx)
    obtain ⟨hcoherent, hnodes⟩ := ih (h.addEdgeIfCheaper e.source e.target e.weight)
      fun e' he' => by
        rw [hsame, hsame]
        exact hends e' (List.mem_cons_of_mem e he')
    refine ⟨hcoherent, fun x => ?_⟩
    rw [List.foldl_cons, hnodes, hsame]

end Cheaper

/-! ## Bypassing a node -/

section Bypass

variable {g : Graph} (h : g.Coherent) {z : NodeId}

include h

theorem mem_shortcuts {e : Edge} :
    e ∈ g.shortcuts z ↔ e.source ≠ e.target ∧ ∃ p q, g.weight? e.source z = some p
      ∧ g.weight? z e.target = some q ∧ e.weight = min (p + q) maxWeight := by
  obtain ⟨u, v, weight⟩ := e
  unfold shortcuts
  simp only [List.mem_flatMap, List.mem_filterMap, Prod.exists, Std.ExtTreeSet.mem_toList,
    Std.ExtTreeMap.mem_toList_iff_getElem?_eq_some, h.mem_predecessors]
  constructor
  · rintro ⟨source, -, target, q, hq, he⟩
    split at he
    · nomatch he
    · rename_i hne
      obtain ⟨p, hp, heq⟩ := Option.map_eq_some_iff.1 he
      cases heq
      exact ⟨hne, p, q, hp, hq, rfl⟩
  · rintro ⟨hne, p, q, hp, hq, rfl⟩
    exact ⟨u, ⟨p, hp⟩, v, q, hq, by rw [if_neg hne, hp, Option.map_some]⟩

theorem coherent_bypass : (g.bypass z).Coherent ∧
    ∀ x, x ∈ (g.bypass z).nodes ↔ x ≠ z ∧ x ∈ g.nodes := by
  obtain ⟨hcoherent, hnodes⟩ := foldl_addEdgeIfCheaper (g.shortcuts z) h fun e he => by
    obtain ⟨-, p, q, hp, hq, -⟩ := (mem_shortcuts h).1 he
    exact ⟨h.source_mem _ _ ⟨p, hp⟩, h.target_mem _ _ ⟨q, hq⟩⟩
  refine ⟨hcoherent.removeNode z, fun x => ?_⟩
  unfold bypass
  rw [mem_nodes_removeNode, hnodes]

theorem weight?_bypass {a b : NodeId} (hab : a ≠ b) (ha : a ≠ z) (hb : b ≠ z) {n : ℕ} :
    (g.bypass z).weight? a b = some n ↔
      IsLeast {m | g.weight? a b = some m ∨ ∃ p q, g.weight? a z = some p ∧ g.weight? z b = some q
        ∧ m = min (p + q) maxWeight} n := by
  have hcoherent := (foldl_addEdgeIfCheaper (g.shortcuts z) h fun e he => by
    obtain ⟨-, p, q, hp, hq, -⟩ := (mem_shortcuts h).1 he
    exact ⟨h.source_mem _ _ ⟨p, hp⟩, h.target_mem _ _ ⟨q, hq⟩⟩).1
  have hcuts (m : ℕ) : (∃ e ∈ g.shortcuts z, e.source = a ∧ e.target = b ∧ m = e.weight) ↔
      ∃ p q, g.weight? a z = some p ∧ g.weight? z b = some q ∧ m = min (p + q) maxWeight := by
    simp only [mem_shortcuts h]
    constructor
    · rintro ⟨e, ⟨-, p, q, hp, hq, hweight⟩, rfl, rfl, rfl⟩
      exact ⟨p, q, hp, hq, hweight⟩
    · rintro ⟨p, q, hp, hq, rfl⟩
      exact ⟨⟨a, b, _⟩, ⟨hab, p, q, hp, hq, rfl⟩, rfl, rfl, rfl⟩
  unfold bypass
  rw [weight?_removeNode hcoherent, if_neg (by simp [ha, hb]), weight?_foldl_addEdgeIfCheaper _ hab]
  simp only [hcuts]

end Bypass

/-! ## Nodes that are gone -/

/-- The numbers of hops of paths, as weights. -/
def lengths (g : Graph) (inner : NodeId → Prop) (u v : NodeId) : Set ℕ :=
  {w | ∃ n, g.Through inner u n v ∧ w = min n maxWeight}

/-- The graph `c` is what is left of `g` without the nodes that are gone: its edges are the shortest
paths over these. -/
structure StandsFor (c g : Graph) (gone : NodeId → Prop) : Prop where
  coherent : c.Coherent
  mem_nodes : ∀ x, x ∈ c.nodes ↔ x ∈ g.nodes ∧ ¬gone x
  weight? : ∀ u v, u ≠ v → ¬gone u → ¬gone v →
    ∀ n, c.weight? u v = some n ↔ IsLeast (g.lengths gone u v) n

variable {g : Graph}

theorem standsFor_withUnitWeights (h : g.Coherent) :
    StandsFor g.withUnitWeights g fun _ => False where
  coherent := h.withUnitWeights
  mem_nodes x := (and_iff_left not_false).symm
  weight? u v hne _ _ n := by
    have hlengths : ∀ m, m ∈ g.lengths (fun _ => False) u v ↔ g.HasEdge u v ∧ m = 1 := by
      intro m
      constructor
      · rintro ⟨k, hk, rfl⟩
        cases hk with
        | edge he => exact ⟨he, rfl⟩
        | step _ hx => exact hx.elim
      · rintro ⟨he, rfl⟩
        exact ⟨1, .edge he, rfl⟩
    rw [weight?_withUnitWeights]
    constructor
    · intro hweight
      obtain ⟨w, hw, rfl⟩ := Option.map_eq_some_iff.1 hweight
      refine ⟨(hlengths _).2 ⟨⟨w, hw⟩, rfl⟩, fun m hm => ?_⟩
      exact Nat.le_of_eq ((hlengths m).1 hm).2.symm
    · rintro ⟨hmem, -⟩
      obtain ⟨⟨w, hw⟩, rfl⟩ := (hlengths n).1 hmem
      rw [hw]
      rfl

theorem StandsFor.bypass {c : Graph} {gone : NodeId → Prop} (h : StandsFor c g gone) {z : NodeId}
    (hz : ¬gone z) : StandsFor (c.bypass z) g fun x => x = z ∨ gone x where
  coherent := (coherent_bypass h.coherent).1
  mem_nodes x := by
    rw [(coherent_bypass h.coherent).2, h.mem_nodes, not_or]
    tauto
  weight? u v hne hu hv n := by
    rw [not_or] at hu hv
    rw [weight?_bypass h.coherent hne hu.1 hv.1]
    simp only [h.weight? u v hne hu.2 hv.2, h.weight? u z hu.1 hu.2 hz,
      h.weight? z v (Ne.symm hv.1) hz hv.2]
    have hmore : ∀ {a b : NodeId} {k : ℕ}, g.Through gone a k b →
        g.Through (fun x => x = z ∨ gone x) a k b := fun hk => hk.mono fun _ _ _ => .inr
    refine isLeast_iff_of_dominates ?_ ?_
    · rintro m (⟨⟨k, hk, rfl⟩, -⟩ | ⟨p, q, ⟨⟨i, hi, rfl⟩, -⟩, ⟨⟨j, hj, rfl⟩, -⟩, rfl⟩)
      · exact ⟨k, hmore hk, rfl⟩
      · exact ⟨i + j, (hmore hi).trans (.inl rfl) (hmore hj), by omega⟩
    · rintro m ⟨k, hk, rfl⟩
      rcases hk.split with ⟨i, hik, hi⟩ | ⟨a, b, hab, ha, hb⟩
      · obtain ⟨w, hw⟩ := exists_isLeast (s := g.lengths gone u v) ⟨i, hi, rfl⟩
        have := hw.2 ⟨i, hi, rfl⟩
        exact ⟨w, .inl hw, by omega⟩
      · obtain ⟨p, hp⟩ := exists_isLeast (s := g.lengths gone u z) ⟨a, ha, rfl⟩
        obtain ⟨q, hq⟩ := exists_isLeast (s := g.lengths gone z v) ⟨b, hb, rfl⟩
        have hpa := hp.2 ⟨a, ha, rfl⟩
        have hqb := hq.2 ⟨b, hb, rfl⟩
        exact ⟨min (p + q) maxWeight, .inr ⟨p, q, hp, hq, rfl⟩, by omega⟩

/-- Bypassing several nodes, none of them twice. -/
theorem StandsFor.foldl_bypass {c : Graph} {gone : NodeId → Prop} (h : StandsFor c g gone)
    (nodes : List NodeId) (hnodup : nodes.Nodup) (hnodes : ∀ z ∈ nodes, ¬gone z) :
    StandsFor (nodes.foldl Graph.bypass c) g fun x => x ∈ nodes ∨ gone x := by
  induction nodes generalizing c gone with
  | nil => simpa using h
  | cons z rest ih =>
    rw [List.nodup_cons] at hnodup
    have hrest := ih (h.bypass (hnodes z List.mem_cons_self)) hnodup.2 fun x hx => by
      rw [not_or]
      refine ⟨?_, hnodes x (List.mem_cons_of_mem z hx)⟩
      rintro rfl
      exact hnodup.1 hx
    rw [List.foldl_cons]
    simpa only [List.mem_cons, or_assoc, or_left_comm] using hrest

/-! ## The contracted graph -/

section Contract

variable (h : g.Coherent) (keep : NodeSet)

include h

theorem standsFor_contract :
    StandsFor (g.contract keep) g fun x => x ∈ g.nodes ∧ x ∉ keep := by
  have hfold := (standsFor_withUnitWeights h).foldl_bypass
    (g.nodes.toList.filter fun node => !keep.contains node) ((nodup_toList g.nodes).filter _)
    fun _ _ => not_false
  unfold contract
  simpa only [List.mem_filter, Std.ExtTreeSet.mem_toList, Bool.not_eq_true', contains_eq_false,
    or_false] using hfold

theorem coherent_contract : (g.contract keep).Coherent :=
  (standsFor_contract h keep).coherent

theorem mem_nodes_contract {x : NodeId} :
    x ∈ (g.contract keep).nodes ↔ x ∈ g.nodes ∧ x ∈ keep := by
  rw [(standsFor_contract h keep).mem_nodes]
  tauto

theorem weight?_contract {u v : NodeId} (hne : u ≠ v) (hu : u ∈ keep) (hv : v ∈ keep) {n : ℕ} :
    (g.contract keep).weight? u v = some n ↔ IsLeast (g.lengths (· ∉ keep) u v) n := by
  have hlengths : g.lengths (fun x => x ∈ g.nodes ∧ x ∉ keep) u v = g.lengths (· ∉ keep) u v := by
    ext w
    constructor
    · rintro ⟨k, hk, rfl⟩
      exact ⟨k, hk.mono fun _ _ _ hx => hx.2, rfl⟩
    · rintro ⟨k, hk, rfl⟩
      exact ⟨k, hk.mono fun x y he hx => ⟨h.source_mem x y he, hx⟩, rfl⟩
  rw [(standsFor_contract h keep).weight? u v hne (fun hgone => hgone.2 hu) fun hgone => hgone.2 hv,
    hlengths]

theorem hasEdge_contract {u v : NodeId} (hne : u ≠ v) (hu : u ∈ keep) (hv : v ∈ keep) :
    (g.contract keep).HasEdge u v ↔ ∃ n, g.Through (· ∉ keep) u n v := by
  unfold HasEdge
  simp only [weight?_contract h keep hne hu hv]
  constructor
  · rintro ⟨n, ⟨k, hk, rfl⟩, -⟩
    exact ⟨k, hk⟩
  · rintro ⟨k, hk⟩
    exact exists_isLeast (s := g.lengths (· ∉ keep) u v) ⟨k, hk, rfl⟩

/-- Nodes that are kept and connected stay connected. -/
theorem reachable_contract {u v : NodeId} (hu : u ∈ keep) (hv : v ∈ keep)
    (hpath : Relation.ReflTransGen g.HasEdge u v) :
    Relation.ReflTransGen (g.contract keep).HasEdge u v := by
  -- the path so far leads to a kept node, and from there over others to where it is now
  have hsofar : ∃ k ∈ keep, Relation.ReflTransGen (g.contract keep).HasEdge u k
      ∧ (k = v ∨ ∃ n, g.Through (· ∉ keep) k n v) := by
    clear hv
    induction hpath with
    | refl => exact ⟨u, hu, .refl, .inl rfl⟩
    | @tail x y _ he ih =>
      obtain ⟨k, hk, hreach, rfl | ⟨n, hn⟩⟩ := ih
      · exact ⟨k, hk, hreach, .inr ⟨1, .edge he⟩⟩
      by_cases hx : x ∈ keep
      · refine ⟨x, hx, ?_, .inr ⟨1, .edge he⟩⟩
        by_cases hkx : k = x
        · exact hkx ▸ hreach
        · exact hreach.tail ((hasEdge_contract h keep hkx hk hx).2 ⟨n, hn⟩)
      · exact ⟨k, hk, hreach, .inr ⟨n + 1, .step hn hx he⟩⟩
  obtain ⟨k, hk, hreach, rfl | hn⟩ := hsofar
  · exact hreach
  by_cases hkv : k = v
  · exact hkv ▸ hreach
  · exact hreach.tail ((hasEdge_contract h keep hkv hk hv).2 hn)

end Contract

/-! ## No path is too long -/

/-- A shortest path to `v` visits as many nodes as it has hops, the start apart, and each of them at
another distance. -/
theorem exists_nodup_of_isLeast (h : g.Coherent) {inner : NodeId → Prop} {u v : NodeId} {n : ℕ}
    (hleast : IsLeast {n | g.Through inner u n v} n) :
    ∃ visited : List NodeId, visited.length = n ∧ visited.Nodup
      ∧ ∀ x ∈ visited, x ∈ g.nodes ∧ (x = v ∨ inner x)
        ∧ ∃ k ≤ n, IsLeast {n | g.Through inner u n x} k := by
  obtain ⟨hpath, hle⟩ := hleast
  induction hpath with
  | @edge v he =>
    refine ⟨[v], rfl, List.nodup_singleton v, fun x hx => ?_⟩
    rw [List.mem_singleton] at hx
    rw [hx]
    exact ⟨h.target_mem _ _ he, .inl rfl, 1, Nat.le_refl 1, Through.edge he, hle⟩
  | @step x v n hpath hx he ih =>
    have hleast : IsLeast {n | g.Through inner u n x} n := by
      refine ⟨hpath, fun k hk => ?_⟩
      have := hle (Through.step hk hx he)
      omega
    obtain ⟨visited, hlength, hnodup, hvisited⟩ := ih hleast.2
    refine ⟨v :: visited, by rw [List.length_cons, hlength], ?_, ?_⟩
    · refine List.nodup_cons.2 ⟨fun hv => ?_, hnodup⟩
      obtain ⟨-, -, k, hk, hvk⟩ := hvisited v hv
      have := hle hvk.1
      omega
    · intro y hy
      rcases List.mem_cons.1 hy with rfl | hy
      · exact ⟨h.target_mem _ _ he, .inl rfl, n + 1, Nat.le_refl _, Through.step hpath hx he, hle⟩
      · obtain ⟨hnode, hinner, k, hk, hyk⟩ := hvisited y hy
        refine ⟨hnode, .inr ?_, k, by omega, hyk⟩
        rcases hinner with rfl | hinner
        · exact hx
        · exact hinner

theorem length_le_nodeCount {nodes : List NodeId} (hnodup : nodes.Nodup)
    (hmem : ∀ x ∈ nodes, x ∈ g.nodes) : nodes.length ≤ g.nodeCount := by
  have hsubset : nodes ⊆ g.nodes.toList := fun x hx => Std.ExtTreeSet.mem_toList.2 (hmem x hx)
  have hle := (List.subperm_of_subset hnodup hsubset).length_le
  rw [Std.ExtTreeSet.length_toList] at hle
  exact hle

section Lengths

variable (h : g.Coherent) {inner : NodeId → Prop} {u v : NodeId} {n : ℕ} (hne : u ≠ v)
  (hu : ¬inner u) (hleast : IsLeast {n | g.Through inner u n v} n)

include h hne hu hleast

/-- With its start, a shortest path visits one node more than it has hops. -/
theorem exists_visited_of_isLeast : ∃ visited : List NodeId, visited.length = n + 1
    ∧ visited.Nodup ∧ ∀ x ∈ visited, x ∈ g.nodes ∧ (x = u ∨ x = v ∨ inner x) := by
  obtain ⟨visited, hlength, hnodup, hvisited⟩ := exists_nodup_of_isLeast h hleast
  have hstart : u ∉ visited := by
    intro hmem
    rcases (hvisited u hmem).2.1 with heq | hinner
    · exact hne heq
    · exact hu hinner
  refine ⟨u :: visited, by rw [List.length_cons, hlength], List.nodup_cons.2 ⟨hstart, hnodup⟩, ?_⟩
  intro x hx
  rcases List.mem_cons.1 hx with rfl | hx
  · exact ⟨hleast.1.source_mem h, .inl rfl⟩
  · exact ⟨(hvisited x hx).1, .inr (hvisited x hx).2.1⟩

theorem lt_nodeCount_of_isLeast : n < g.nodeCount := by
  obtain ⟨visited, hlength, hnodup, hvisited⟩ := exists_visited_of_isLeast h hne hu hleast
  have hle := length_le_nodeCount hnodup fun x hx => (hvisited x hx).1
  rwa [hlength] at hle

/-- A node that the path must not visit counts too. -/
theorem succ_lt_nodeCount_of_isLeast {x : NodeId} (hx : x ∈ g.nodes) (hxu : x ≠ u) (hxv : x ≠ v)
    (hinner : ¬inner x) : n + 1 < g.nodeCount := by
  obtain ⟨visited, hlength, hnodup, hvisited⟩ := exists_visited_of_isLeast h hne hu hleast
  have hout : x ∉ visited := by
    intro hmem
    rcases (hvisited x hmem).2 with heq | heq | hgone
    · exact hxu heq
    · exact hxv heq
    · exact hinner hgone
  have hle : (x :: visited).length ≤ g.nodeCount := by
    refine length_le_nodeCount (List.nodup_cons.2 ⟨hout, hnodup⟩) fun y hy => ?_
    rcases List.mem_cons.1 hy with rfl | hy
    · exact hx
    · exact (hvisited y hy).1
  rwa [List.length_cons, hlength] at hle

end Lengths

/-- In a graph of fewer than 2³² nodes, the weight that counts for the shortest path is its number
of hops. -/
theorem isLeast_lengths (h : g.Coherent) (hsize : g.nodeCount ≤ maxWeight) {inner : NodeId → Prop}
    {u v : NodeId} (hne : u ≠ v) (hu : ¬inner u) {n : ℕ} :
    IsLeast (g.lengths inner u v) n ↔ IsLeast {n | g.Through inner u n v} n := by
  have hshort {k : ℕ} (hk : IsLeast {n | g.Through inner u n v} k) : min k maxWeight = k :=
    Nat.min_eq_left ((lt_nodeCount_of_isLeast h hne hu hk).le.trans hsize)
  constructor
  · rintro ⟨⟨k, hk, rfl⟩, hle⟩
    obtain ⟨m, hm⟩ := exists_isLeast (s := {n | g.Through inner u n v}) hk
    have hmk := hm.2 hk
    have hkm : min k maxWeight ≤ min m maxWeight := hle ⟨m, hm.1, rfl⟩
    have heq : min k maxWeight = m := by
      rw [hshort hm] at hkm
      have := hshort hm
      omega
    rw [heq]
    exact hm
  · intro hn
    refine ⟨⟨n, hn.1, (hshort hn).symm⟩, ?_⟩
    rintro m ⟨k, hk, rfl⟩
    have hnk := hn.2 hk
    have := hshort hn
    omega

theorem StandsFor.weight?_of_lt {c : Graph} {gone : NodeId → Prop} (hc : StandsFor c g gone)
    (h : g.Coherent) (hsize : g.nodeCount ≤ maxWeight) {u v : NodeId} (hne : u ≠ v) (hu : ¬gone u)
    (hv : ¬gone v) {n : ℕ} :
    c.weight? u v = some n ↔ IsLeast {n | g.Through gone u n v} n :=
  (hc.weight? u v hne hu hv n).trans (isLeast_lengths h hsize hne hu)

/-- In a graph of fewer than 2³² nodes, the weight of an edge of the contracted graph is the number
of hops of a shortest path over the nodes that are not kept. -/
theorem weight?_contract_of_lt (h : g.Coherent) (hsize : g.nodeCount ≤ maxWeight) {keep : NodeSet}
    {u v : NodeId} (hne : u ≠ v) (hu : u ∈ keep) (hv : v ∈ keep) {n : ℕ} :
    (g.contract keep).weight? u v = some n ↔ IsLeast {n | g.Through (· ∉ keep) u n v} n :=
  (weight?_contract h keep hne hu hv).trans (isLeast_lengths h hsize hne (not_not.2 hu))

end Graph

end Meshcast
