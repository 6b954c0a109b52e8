import Meshcast.Proofs.Turns

/-!
# Meshcast — the rounds of a mesh

A round consists of four phases. What every turn of a phase preserves holds at the end of the phase,
and the books stay in order all the way, whatever happened to the links before.

* **`Orderly.hellos`**, **`Orderly.tcs`**, **`Orderly.maintain`** — the phases, with whatever the
  turns preserve.
* **`Hearing`**, **`Orderly.hellos_hearing`** — what everybody has heard of those next to it.
* **`Rested`**, **`Rested.next`** — a mesh between rounds.
* **`rested_run`** — every history of rounds and of links that come and go ends like that.
-/

namespace Meshcast

variable {n : ℕ} {addr : Fin n → Address} {since round : ℕ} {mesh : Mesh} {net : Network n}
  {ledger : Ledger n}

/-! ## The phases -/

section Phases

variable (hinjective : Function.Injective addr) (hn : n < 256) (h : mesh.Shows net)
  (ho : Orderly addr since net.nodes net.now round ledger)

include hinjective hn h ho in
/-- Everybody greets. -/
theorem Orderly.hellos (hsent : ∀ j, ledger.sent j + 2 = 2 * round)
    {T : ℕ → (Fin n → Node) → Ledger n → Prop} (start : T 0 net.nodes ledger)
    (step : ∀ (i : Fin n) nodes ledger, Orderly addr since nodes net.now round ledger →
      T i nodes ledger →
      T (i + 1) ((net.withNodes nodes).greeted i) (ledger.greeted addr (net.withNodes nodes) i)) :
    ∃ nodes ledger', mesh.hellos.2.Shows (net.withNodes nodes)
      ∧ Orderly addr since nodes net.now round ledger'
      ∧ (∀ j, ledger'.sent j + 1 = 2 * round) ∧ T n nodes ledger' := by
  -- whoever had its turn has made a packet more
  let Q : ℕ → Network n → Prop := fun i net' => ∃ nodes ledger', net' = net.withNodes nodes
    ∧ Orderly addr since nodes net.now round ledger'
    ∧ (∀ j, ledger'.sent j + (if j.val < i then 1 else 2) = 2 * round) ∧ T i nodes ledger'
  have hphase := h.hellos (Q := Q) ?_ ?_ ?_
  · obtain ⟨_, hshows, nodes, ledger', rfl, hend, hsent', ht⟩ := hphase
    refine ⟨nodes, ledger', hshows, hend, fun j => ?_, ht⟩
    have := hsent' j
    rwa [if_pos j.isLt] at this
  · exact ⟨net.nodes, ledger, rfl, ho, by simpa using hsent, start⟩
  · rintro i _ ⟨nodes, ledger', rfl, ho', -, -⟩
    exact Node.travels_makeHello hn (ho'.resident i).known net.now
  · rintro i _ net'' ⟨nodes, ledger', rfl, ho', hsent', ht⟩ hemits
    have hi := hsent' i
    rw [if_neg (Nat.lt_irrefl _)] at hi
    obtain ⟨rfl, hend⟩ := Orderly.greet ho' hinjective (by omega) hemits
    refine ⟨_, _, rfl, hend, fun j => ?_, step i nodes ledger' ho' ht⟩
    show Function.update ledger'.sent i (ledger'.sent i + 1) j + _ = _
    by_cases hj : j = i
    · subst hj
      rw [Function.update_self, if_pos (Nat.lt_succ_self _)]
      omega
    · have hval : j.val ≠ i.val := fun heq => hj (Fin.ext heq)
      rw [Function.update_of_ne hj, ← hsent' j]
      congr 1
      simp only [show j.val < i.val + 1 ↔ j.val < i.val by omega]

include hn h ho in
/-- Everybody announces its selectors. -/
theorem Orderly.tcs (hsent : ∀ j, ledger.sent j + 1 = 2 * round)
    {T : ℕ → (Fin n → Node) → Ledger n → Prop} (start : T 0 net.nodes ledger)
    (step : ∀ (i : Fin n) nodes nodes' ledger, Orderly addr since nodes net.now round ledger →
      ledger.sent i + 1 = 2 * round → T i nodes ledger →
      (net.withNodes nodes).Emits Node.makeTc i (net.withNodes nodes') →
      T (i + 1) nodes' (ledger.made i (ledger.movesOf i (nodes i)))) :
    ∃ nodes ledger', mesh.tcs.2.Shows (net.withNodes nodes)
      ∧ Orderly addr since nodes net.now round ledger' ∧ (∀ j, ledger'.sent j = 2 * round)
      ∧ ledger'.memory = ledger.memory ∧ T n nodes ledger' := by
  let Q : ℕ → Network n → Prop := fun i net' => ∃ nodes ledger', net' = net.withNodes nodes
    ∧ Orderly addr since nodes net.now round ledger'
    ∧ (∀ j, ledger'.sent j + (if j.val < i then 0 else 1) = 2 * round)
    ∧ ledger'.memory = ledger.memory ∧ T i nodes ledger'
  have hphase := h.tcs (Q := Q) ?_ ?_ ?_
  · obtain ⟨_, hshows, nodes, ledger', rfl, hend, hsent', hmemory, ht⟩ := hphase
    refine ⟨nodes, ledger', hshows, hend, fun j => ?_, hmemory, ht⟩
    have := hsent' j
    rwa [if_pos j.isLt] at this
  · exact ⟨net.nodes, ledger, rfl, ho, by simpa using hsent, rfl, start⟩
  · rintro i _ ⟨nodes, ledger', rfl, ho', -, -, -⟩
    have hi := ho'.resident i
    refine ⟨Node.travels_makeTc hn hi.known ?_, ?_⟩
    · show ((nodes i).groups.rows[(nodes i).self]?.getD ∅).size < 256
      rw [hi.rows_eq]
      exact Nat.succ_pos 255
    · show 0 < (nodes i).config.maxTtl.toNat
      rw [hi.config_eq]
      exact Nat.succ_pos 254
  · rintro i _ net'' ⟨nodes, ledger', rfl, ho', hsent', hmemory, ht⟩ hemits
    have hi := hsent' i
    rw [if_neg (Nat.lt_irrefl _)] at hi
    obtain ⟨nodes', rfl, hend⟩ := Orderly.announce ho' hi hemits
    refine ⟨nodes', _, rfl, hend, fun j => ?_, hmemory,
      step i nodes nodes' ledger' ho' hi ht hemits⟩
    show Function.update ledger'.sent i (ledger'.sent i + 1) j + _ = _
    by_cases hj : j = i
    · subst hj
      rw [Function.update_self, if_pos (Nat.lt_succ_self _)]
      omega
    · have hval : j.val ≠ i.val := fun heq => hj (Fin.ext heq)
      rw [Function.update_of_ne hj, ← hsent' j]
      congr 1
      simp only [show j.val < i.val + 1 ↔ j.val < i.val by omega]

end Phases

/-! ## What is heard -/

/-- What everybody has heard of those next to it is as `said` has it, and of others nobody has heard
since the links became what they are. -/
structure Hearing (addr : Fin n → Address) (G : SimpleGraph (Fin n)) (frozen : ℕ)
    (said : Fin n → Fin n → Option Heard → Prop) (memory : Fin n → Memory) : Prop where
  stale : ∀ x y g, ¬G.Adj x y → memory x (addr y) = some g → g.time ≤ frozen
  said : ∀ x y, G.Adj x y → said y x (memory x (addr y))

section Hearing

variable {frozen : ℕ} {said : Fin n → Fin n → Option Heard → Prop}

theorem memory_greeted (hinjective : Function.Injective addr) (net : Network n) (i x y : Fin n) :
    (ledger.greeted addr net i).memory x (addr y) =
      if net.graph.Adj x y ∧ y = i then some ((net.nodes i).said net.now)
      else ledger.memory x (addr y) := by
  show (if net.graph.Adj i x then
    (ledger.memory x).noting (some (addr i, (net.nodes i).said net.now))
    else ledger.memory x) (addr y) = _
  by_cases hy : y = i
  · subst hy
    by_cases hadj : net.graph.Adj y x
    · rw [if_pos hadj, if_pos ⟨hadj.symm, rfl⟩]
      exact (ledger.memory x).noting_self _ _
    · rw [if_neg hadj, if_neg fun hboth => hadj hboth.1.symm]
  · simp only [hy, and_false, if_false]
    split
    · exact (ledger.memory x).noting_of_ne _ (hinjective.ne hy)
    · rfl

/-- If greetings of those who heard `said` are as `said'` has it, then so is what everybody has
heard at the end of the phase. Meanwhile everything stays true of the nodes that their turns and
the greetings of others leave true. -/
theorem Orderly.hellos_hearing (hinjective : Function.Injective addr) (hn : n < 256)
    (h : mesh.Shows net) (ho : Orderly addr since net.nodes net.now round ledger)
    (hsent : ∀ j, ledger.sent j + 2 = 2 * round)
    (hhearing : Hearing addr net.graph frozen said ledger.memory)
    (said' : Fin n → Fin n → Option Heard → Prop) (hle : ∀ y x g, said' y x g → said y x g)
    {K : Fin n → Node → Prop} (start : ∀ x, K x (net.nodes x))
    (greets : ∀ nodes ledger, Orderly addr since nodes net.now round ledger →
      Hearing addr net.graph frozen said ledger.memory → (∀ x, K x (nodes x)) →
      ∀ y x, net.graph.Adj x y → said' y x (some ((nodes y).said net.now)))
    (keeps : ∀ i nodes ledger, Orderly addr since nodes net.now round ledger →
      Hearing addr net.graph frozen said ledger.memory → (∀ x, K x (nodes x)) →
      ∀ x, K x ((net.withNodes nodes).greeted i x)) :
    ∃ nodes ledger', mesh.hellos.2.Shows (net.withNodes nodes)
      ∧ Orderly addr since nodes net.now round ledger'
      ∧ (∀ j, ledger'.sent j + 1 = 2 * round)
      ∧ Hearing addr net.graph frozen said' ledger'.memory ∧ ∀ x, K x (nodes x) := by
  let T : ℕ → (Fin n → Node) → Ledger n → Prop := fun i nodes ledger =>
    Hearing addr net.graph frozen said ledger.memory
      ∧ (∀ x y, net.graph.Adj x y → y.val < i → said' y x (ledger.memory x (addr y)))
      ∧ ∀ x, K x (nodes x)
  have hphase := Orderly.hellos hinjective hn h ho hsent (T := T) ?_ ?_
  · obtain ⟨nodes, ledger', hshows, hend, hsent', hhearing', hnew, hk⟩ := hphase
    exact ⟨nodes, ledger', hshows, hend, hsent',
      ⟨hhearing'.stale, fun x y hadj => hnew x y hadj y.isLt⟩, hk⟩
  · exact ⟨hhearing, fun _ _ _ hlt => absurd hlt (Nat.not_lt_zero _), start⟩
  · rintro i nodes ledger' ho' ⟨hhearing', hnew, hk⟩
    have hgreeting := greets nodes ledger' ho' hhearing' hk i
    refine ⟨⟨?_, ?_⟩, ?_, keeps i nodes ledger' ho' hhearing' hk⟩
    · intro x y g hadj hg
      rw [memory_greeted hinjective, if_neg fun hboth => hadj hboth.1] at hg
      exact hhearing'.stale x y g hadj hg
    · intro x y hadj
      rw [memory_greeted hinjective]
      split
      · rename_i hboth
        obtain ⟨-, rfl⟩ := hboth
        exact hle _ _ _ (hgreeting x hadj)
      · exact hhearing'.said x y hadj
    · intro x y hadj hlt
      rw [memory_greeted hinjective]
      split
      · rename_i hboth
        obtain ⟨-, rfl⟩ := hboth
        exact hgreeting x hadj
      · rename_i hother
        refine hnew x y hadj ?_
        have hval : y.val ≠ i.val := fun heq => hother ⟨hadj, Fin.ext heq⟩
        omega

end Hearing

/-! ## A round -/

/-- A mesh between rounds, its books in order. -/
structure Rested (addr : Fin n → Address) (since : ℕ) (mesh : Mesh) (net : Network n) (round : ℕ)
    (ledger : Ledger n) : Prop where
  shows : mesh.Shows net
  orderly : Orderly addr since net.nodes net.now round ledger
  sent_eq : ∀ j, ledger.sent j = 2 * round

/-- The same hosts a round later. -/
def Network.later (net : Network n) : Network n :=
  { net with now := net.now + Mesh.roundLength }

theorem Mesh.Shows.advance (h : mesh.Shows net) :
    (mesh.advance Mesh.roundLength).Shows net.later :=
  ⟨h.size_eq, h.host, congrArg (· + Mesh.roundLength) h.now_eq, h.adj_iff⟩

/-- Maintenance everywhere. -/
theorem Orderly.maintain (h : mesh.Shows net)
    (ho : Orderly addr since net.nodes net.now round ledger) :
    mesh.maintain.2.Shows (net.withNodes fun x => (net.nodes x).upkeep net.now)
      ∧ Orderly addr since (fun x => (net.nodes x).upkeep net.now) net.now round ledger :=
  ⟨h.maintain, ho.upkeep⟩

theorem Mesh.snd_round (mesh : Mesh) :
    mesh.round.2 = (mesh.advance roundLength).hellos.2.maintain.2.tcs.2.maintain.2 := by
  unfold round
  dsimp only

section Round

variable {frozen : ℕ} {said : Fin n → Fin n → Option Heard → Prop}

/-- A round, of which it matters only what is heard. It ends with maintenance. -/
theorem Rested.next (hinjective : Function.Injective addr) (hn : n < 256)
    (h : Rested addr since mesh net round ledger)
    (hhearing : Hearing addr net.graph frozen said ledger.memory)
    (said' : Fin n → Fin n → Option Heard → Prop) (hle : ∀ y x g, said' y x g → said y x g)
    (greets : ∀ nodes ledger, Orderly addr since nodes net.later.now (round + 1) ledger →
      Hearing addr net.graph frozen said ledger.memory →
      ∀ y x, net.graph.Adj x y → said' y x (some ((nodes y).said net.later.now))) :
    ∃ (net' : Network n) (nodes : Fin n → Node) (ledger' : Ledger n), net'.graph = net.graph
      ∧ net'.now = net.later.now ∧ (∀ x, net'.nodes x = (nodes x).upkeep net'.now)
      ∧ Orderly addr since nodes net'.now (round + 1) ledger'
      ∧ Rested addr since mesh.round.2 net' (round + 1) ledger'
      ∧ Hearing addr net'.graph frozen said' ledger'.memory := by
  have hsent : ∀ j, ledger.sent j + 2 = 2 * (round + 1) := by
    intro j
    rw [h.sent_eq]
    omega
  obtain ⟨nodes₁, ledger₁, hshows₁, ho₁, hsent₁, hhearing₁, -⟩ :=
    Orderly.hellos_hearing hinjective hn h.shows.advance (h.orderly.advance h.sent_eq) hsent
      hhearing said' hle (K := fun _ _ => True) (fun _ => trivial)
      (fun nodes ledger ho hhearing _ => greets nodes ledger ho hhearing)
      (fun _ _ _ _ _ _ _ => trivial)
  obtain ⟨hshows₂, ho₂⟩ := Orderly.maintain hshows₁ ho₁
  obtain ⟨nodes₃, ledger₃, hshows₃, ho₃, hsent₃, hmemory, -⟩ :=
    Orderly.tcs hn hshows₂ ho₂ hsent₁ (T := fun _ _ _ => True) trivial
      fun _ _ _ _ _ _ _ _ => trivial
  obtain ⟨hshows₄, ho₄⟩ := Orderly.maintain hshows₃ ho₃
  rw [← Mesh.snd_round] at hshows₄
  rw [← hmemory] at hhearing₁
  exact ⟨net.later.withNodes fun x => (nodes₃ x).upkeep net.later.now, nodes₃, ledger₃, rfl, rfl,
    fun _ => rfl, ho₃, ⟨hshows₄, ho₄, hsent₃⟩, hhearing₁⟩

end Round

/-! ## Histories -/

/-- Who is linked to whom in a mesh. -/
def Mesh.linkGraph (mesh : Mesh) (n : ℕ) : SimpleGraph (Fin n) where
  Adj i j := j ≠ i ∧ mesh.links.contains (.between i j) = true
  symm := ⟨fun i j h => by
    refine ⟨h.1.symm, ?_⟩
    rw [show MeshLink.between j i = .between i j by
      unfold MeshLink.between
      rw [Nat.min_comm, Nat.max_comm]]
    exact h.2⟩
  loopless := ⟨fun _ h => h.1 rfl⟩

instance (mesh : Mesh) (n : ℕ) : DecidableRel (mesh.linkGraph n).Adj :=
  fun i j => inferInstanceAs (Decidable (j ≠ i ∧ mesh.links.contains (.between i j) = true))

theorem Mesh.Shows.graph_eq (h : mesh.Shows net) : net.graph = mesh.linkGraph n := by
  ext i j
  exact h.adj_iff i j

/-- What may happen to a mesh. -/
inductive MeshStep
  | link (i j : ℕ)
  | unlink (i j : ℕ)
  | round

namespace Mesh

/-- Hosts with default parameters that have just been switched on, none of them linked. -/
def unlinked (addresses : List Address) (since : ℕ) : Mesh where
  hosts := (addresses.map (Host.start · {})).toArray
  now := since

def step (mesh : Mesh) : MeshStep → Mesh
  | .link i j => (mesh.link i j).2
  | .unlink i j => (mesh.unlink i j).2
  | .round => mesh.round.2

/-- The mesh after a sequence of steps. -/
def run (mesh : Mesh) (steps : List MeshStep) : Mesh :=
  steps.foldl step mesh

theorem rounds_succ (mesh : Mesh) (k : ℕ) :
    (mesh.rounds (k + 1)).2 = (mesh.round.2.rounds k).2 := by
  rw [rounds]

theorem rounds_one (mesh : Mesh) : (mesh.rounds 1).2 = mesh.round.2 := by
  rw [rounds_succ, rounds]

theorem rounds_add (mesh : Mesh) (k l : ℕ) :
    (mesh.rounds (k + l)).2 = ((mesh.rounds k).2.rounds l).2 := by
  induction k generalizing mesh with
  | zero => rw [Nat.zero_add, rounds]
  | succ k ih => rw [Nat.succ_add, rounds_succ, rounds_succ, ih]

end Mesh

/-- Between rounds, links may come and go: the books say nothing about them. -/
theorem Rested.relink (h : Rested addr since mesh net round ledger)
    (links : Std.ExtTreeSet MeshLink) :
    ∃ net' : Network n, Rested addr since { mesh with links } net' round ledger :=
  ⟨{ graph := Mesh.linkGraph { mesh with links } n, nodes := net.nodes, now := net.now },
    ⟨h.shows.size_eq, h.shows.host, h.shows.now_eq, fun _ _ => Iff.rfl⟩, h.orderly, h.sent_eq⟩

theorem Rested.rounds (hinjective : Function.Injective addr) (hn : n < 256)
    (h : Rested addr since mesh net round ledger) (k : ℕ) :
    ∃ (net' : Network n) (ledger' : Ledger n),
      Rested addr since (mesh.rounds k).2 net' (round + k) ledger' ∧ net'.graph = net.graph := by
  induction k generalizing mesh net round ledger with
  | zero => exact ⟨net, ledger, h, rfl⟩
  | succ k ih =>
    have hhearing : Hearing addr net.graph net.now (fun _ _ _ => True) ledger.memory :=
      ⟨fun x y g _ hg => ((h.orderly.resident x).heard _ g hg).2, fun _ _ _ => trivial⟩
    obtain ⟨net₁, -, ledger₁, hgraph₁, -, -, -, h₁, -⟩ := h.next hinjective hn hhearing
      (fun _ _ _ => True) (fun _ _ _ => id) fun _ _ _ _ _ _ _ => trivial
    obtain ⟨net', ledger', h', hgraph⟩ := ih h₁
    rw [← Mesh.rounds_succ, Nat.add_assoc, Nat.add_comm 1] at h'
    exact ⟨net', ledger', h', hgraph.trans hgraph₁⟩

theorem Rested.step (hinjective : Function.Injective addr) (hn : n < 256)
    (h : Rested addr since mesh net round ledger) (s : MeshStep) :
    ∃ (net' : Network n) (round' : ℕ) (ledger' : Ledger n),
      Rested addr since (mesh.step s) net' round' ledger' := by
  cases s with
  | link i j =>
    obtain ⟨net', h'⟩ := h.relink (mesh.links.insert (.between i j))
    exact ⟨net', round, ledger, h'⟩
  | unlink i j =>
    obtain ⟨net', h'⟩ := h.relink (mesh.links.erase (.between i j))
    exact ⟨net', round, ledger, h'⟩
  | round =>
    obtain ⟨net', ledger', h', -⟩ := h.rounds hinjective hn 1
    rw [Mesh.rounds_one] at h'
    rw [Mesh.step]
    exact ⟨net', round + 1, ledger', h'⟩

/-- **Whatever happens to a mesh, its books are in order.** -/
theorem rested_run {addresses : List Address} (hdistinct : addresses.Nodup)
    (hlength : addresses.length < 256) (since : ℕ) (steps : List MeshStep) :
    ∃ (net : Network addresses.length) (round : ℕ) (ledger : Ledger addresses.length),
      Rested addresses.get since ((Mesh.unlinked addresses since).run steps) net round ledger := by
  have hinjective : Function.Injective addresses.get := List.nodup_iff_injective_get.1 hdistinct
  induction steps using List.reverseRecOn with
  | nil =>
    refine ⟨{ graph := (Mesh.unlinked addresses since).linkGraph _
              nodes := fun x => .start (addresses.get x) {}
              now := since }, 0, .blank, ⟨?_, ?_, rfl, fun _ _ => Iff.rfl⟩, ?_, fun _ => rfl⟩
    · show (addresses.map (Host.start · {})).toArray.size = addresses.length
      rw [List.size_toArray, List.length_map]
    · intro i
      refine ⟨.start (addresses.get i) {}, ?_, rfl⟩
      show (addresses.map (Host.start · {})).toArray[i.val]? = _
      rw [List.getElem?_toArray, List.getElem?_map, List.getElem?_eq_getElem i.isLt]
      rfl
    · exact orderly_start addresses.get since
  | append_singleton steps last ih =>
    obtain ⟨net, round, ledger, h⟩ := ih
    have hrun : (Mesh.unlinked addresses since).run (steps ++ [last])
        = ((Mesh.unlinked addresses since).run steps).step last := List.foldl_concat _ _ _ _
    rw [hrun]
    exact h.step hinjective hlength last

end Meshcast
