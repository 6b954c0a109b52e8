import Mathlib.Data.List.Chain
import Mathlib.Data.List.Induction
import Meshcast.Proofs.ControlPackets

/-!
# Meshcast — marks live as long as the hold time since the last one

Whether a message was seen depends on its last mark alone. Whether it was sent on depends on more,
as each mark hands on what the last one said if that one was still alive: a message counts as sent on
if one of the marks in an unbroken chain up to the last one says so. Entries that are dead and not
swept yet have no part in this, nor have the marks of other messages.

* **`marksOf`** — the marks that a history makes of a message; **`IsCurrentChain`** — those of them
  that hang together with the last one.
* **`Duplicates.AnswersFrom`** — what the table says of a message from now on, in terms of the chain.
* **`AnswersFrom.mark`**, **`AnswersFrom.mark_other`**, **`AnswersFrom.sweep`** — each event keeps it.
* **`marks_exact`** — the result.
-/

namespace Meshcast

/-! ## Histories -/

/-- What happens to the marks: a message is marked, what is dead is forgotten, or time passes. -/
inductive MarkEvent
  | mark (id : MessageId) (sent : Bool)
  | sweep
  | advance (ms : Nat)

/-- Whether an event marks the message or lets time pass. -/
def MarkEvent.concerns (id : MessageId) : MarkEvent → Bool
  | .mark other _ => other = id
  | .sweep => false
  | .advance _ => true

theorem MarkEvent.concerns_mark (id other : MessageId) (sent : Bool) :
    (mark other sent).concerns id = true ↔ other = id :=
  decide_eq_true_iff

/-- The marks and the time. -/
structure MarkLog where
  now : Nat
  duplicates : Duplicates

namespace MarkLog

def step (log : MarkLog) : MarkEvent → MarkLog
  | .mark id sent => { log with duplicates := log.duplicates.mark log.now id sent }
  | .sweep => { log with duplicates := (log.duplicates.sweep log.now).2 }
  | .advance ms => { log with now := log.now + ms }

/-- The marks after a history that starts at some time with none. -/
def after (holdTime start : Nat) (events : List MarkEvent) : MarkLog :=
  events.foldl step { now := start, duplicates := { holdTime } }

end MarkLog

/-- A mark of some message: when it was made, and whether it said that the message was sent on. -/
structure Mark where
  time : Nat
  sent : Bool

/-- The marks that a history makes of a message, the first one first. -/
def marksOf (id : MessageId) (now : Nat) : List MarkEvent → List Mark
  | [] => []
  | .mark other sent :: rest =>
    if other = id then ⟨now, sent⟩ :: marksOf id now rest else marksOf id now rest
  | .sweep :: rest => marksOf id now rest
  | .advance ms :: rest => marksOf id (now + ms) rest

/-! ## Chains of marks -/

/-- One mark is less than the hold time after another one. -/
def FollowsWithin (hold : Nat) (earlier later : Mark) : Prop :=
  later.time < earlier.time + hold

/-- The maximal run of marks up to the last one in which each follows the one before it within the
hold time. -/
structure IsCurrentChain (hold : Nat) (marks chain : List Mark) : Prop where
  suffix : chain <:+ marks
  unbroken : chain.IsChain (FollowsWithin hold)
  maximal : ∀ other, other <:+ marks → other.IsChain (FollowsWithin hold) → other <:+ chain

/-- A mark continues the chain, or a new one starts with it. -/
def continueChain (hold : Nat) (chain : List Mark) (mark : Mark) : List Mark :=
  if chain.getLast?.any (mark.time < ·.time + hold) then chain ++ [mark] else [mark]

/-- The marks that hang together with the last one. -/
def currentChain (hold : Nat) (marks : List Mark) : List Mark :=
  marks.foldl (continueChain hold) []

section Chains

variable {hold : Nat} {chain marks : List Mark}

theorem continueChain_cases (hold : Nat) (chain : List Mark) (mark : Mark) :
    (∃ last, chain.getLast? = some last ∧ FollowsWithin hold last mark
        ∧ continueChain hold chain mark = chain ++ [mark])
      ∨ (∀ last, chain.getLast? = some last → ¬FollowsWithin hold last mark)
        ∧ continueChain hold chain mark = [mark] := by
  unfold continueChain
  cases hlast : chain.getLast? with
  | none => exact .inr ⟨nofun, rfl⟩
  | some last =>
    by_cases hclose : mark.time < last.time + hold
    · exact .inl ⟨last, rfl, hclose, if_pos (decide_eq_true hclose)⟩
    · refine .inr ⟨?_, if_neg (by simpa using hclose)⟩
      intro last' heq
      exact Option.some.inj heq ▸ hclose

theorem getLast?_continueChain (mark : Mark) :
    (continueChain hold chain mark).getLast? = some mark := by
  rcases continueChain_cases hold chain mark with ⟨-, -, -, heq⟩ | ⟨-, heq⟩
  · rw [heq, List.getLast?_concat]
  · rw [heq, List.getLast?_singleton]

theorem getLast?_currentChain (hold : Nat) (marks : List Mark) :
    (currentChain hold marks).getLast? = marks.getLast? := by
  induction marks using List.reverseRecOn with
  | nil => rfl
  | append_singleton marks mark _ =>
    unfold currentChain
    rw [List.foldl_concat, getLast?_continueChain, List.getLast?_concat]

theorem isCurrentChain_currentChain (hold : Nat) (marks : List Mark) :
    IsCurrentChain hold marks (currentChain hold marks) := by
  induction marks using List.reverseRecOn with
  | nil => exact ⟨List.suffix_rfl, .nil, fun other hother _ => hother⟩
  | append_singleton marks mark ih =>
    have hconcat : currentChain hold (marks ++ [mark])
        = continueChain hold (currentChain hold marks) mark := List.foldl_concat _ _ _ _
    rw [hconcat]
    -- another run that ends with the new mark goes on from one that ended before it
    have hother : ∀ other, other <:+ marks ++ [mark] → other.IsChain (FollowsWithin hold) →
        other = [] ∨ ∃ before, other = before ++ [mark] ∧ before <:+ currentChain hold marks
          ∧ ∀ last, before.getLast? = some last → FollowsWithin hold last mark := by
      intro other hsuffix hunbroken
      rcases List.suffix_concat_iff.1 hsuffix with rfl | ⟨before, rfl, hbefore⟩
      · exact .inl rfl
      · obtain ⟨hleft, -, hlast⟩ := List.isChain_append.1 hunbroken
        exact .inr ⟨before, rfl, ih.maximal before hbefore hleft,
          fun last h => hlast last h mark rfl⟩
    rcases continueChain_cases hold (currentChain hold marks) mark with
      ⟨last, hlast, hclose, heq⟩ | ⟨hbroken, heq⟩
    · rw [heq]
      refine ⟨?_, ?_, fun other hsuffix hunbroken => ?_⟩
      · obtain ⟨front, hfront⟩ := ih.suffix
        exact ⟨front, by rw [← List.append_assoc, hfront]⟩
      · refine ih.unbroken.append (.singleton mark) fun last' hlast' mark' hmark' => ?_
        obtain rfl := Option.some.inj (hlast.symm.trans hlast')
        obtain rfl := Option.some.inj hmark'
        exact hclose
      · rcases hother other hsuffix hunbroken with rfl | ⟨before, rfl, hbefore, -⟩
        · exact List.nil_suffix
        · obtain ⟨front, hfront⟩ := hbefore
          exact ⟨front, by rw [← List.append_assoc, hfront]⟩
    · rw [heq]
      refine ⟨List.suffix_append marks [mark], .singleton mark, fun other hsuffix hunbroken => ?_⟩
      rcases hother other hsuffix hunbroken with rfl | ⟨before, rfl, hbefore, hlast⟩
      · exact List.nil_suffix
      · cases hend : before.getLast? with
        | none =>
          rw [List.getLast?_eq_none_iff.1 hend]
          exact List.suffix_rfl
        | some last =>
          obtain ⟨front, hfront⟩ := hbefore
          refine absurd (hlast last hend) (hbroken last ?_)
          rw [← hfront, List.getLast?_append, hend]
          rfl

end Chains

/-! ## What the table says -/

namespace Duplicates

/-- From some time on the table says of a message what its chain of marks says, until the hold time
after the last one. -/
def AnswersFrom (d : Duplicates) (now : Nat) (id : MessageId) (hold : Nat) (chain : List Mark) :
    Prop :=
  ∀ later ≥ now, ∀ sent, d.marks.get? later id = some sent ↔
    ∃ last, chain.getLast? = some last ∧ later < last.time + hold ∧ chain.any Mark.sent = sent

variable {d : Duplicates} {now hold : Nat} {id : MessageId} {chain : List Mark}

theorem answersFrom_empty (holdTime now : Nat) (id : MessageId) (hold : Nat) :
    ({ holdTime } : Duplicates).AnswersFrom now id hold [] := by
  intro later _ sent
  simp [ExpiringTable.get?]

theorem AnswersFrom.of_le (h : d.AnswersFrom now id hold chain) {later : Nat} (hle : now ≤ later) :
    d.AnswersFrom later id hold chain :=
  fun after hafter => h after (hle.trans hafter)

theorem AnswersFrom.seen_iff (h : d.AnswersFrom now id hold chain) :
    d.seen now id = true ↔ ∃ last, chain.getLast? = some last ∧ now < last.time + hold := by
  unfold seen ExpiringTable.contains
  rw [Option.isSome_iff_exists]
  constructor
  · rintro ⟨sent, hsent⟩
    obtain ⟨last, hlast, hnow, -⟩ := (h now le_rfl sent).1 hsent
    exact ⟨last, hlast, hnow⟩
  · rintro ⟨last, hlast, hnow⟩
    exact ⟨_, (h now le_rfl _).2 ⟨last, hlast, hnow, rfl⟩⟩

theorem AnswersFrom.retransmitted_iff (h : d.AnswersFrom now id hold chain) :
    d.retransmitted now id = true ↔ d.seen now id = true ∧ chain.any Mark.sent = true := by
  have hmark : d.retransmitted now id = true ↔ d.marks.get? now id = some true := by
    unfold retransmitted
    cases d.marks.get? now id <;> simp
  rw [hmark, h now le_rfl, h.seen_iff]
  constructor
  · rintro ⟨last, hlast, hnow, hsent⟩
    exact ⟨⟨last, hlast, hnow⟩, hsent⟩
  · rintro ⟨⟨last, hlast, hnow⟩, hsent⟩
    exact ⟨last, hlast, hnow, hsent⟩

/-- A mark of the message continues its chain. It hands on what the chain said if the last mark is
still alive, and only then does it hang together with the chain. -/
theorem AnswersFrom.mark (h : d.AnswersFrom now id (min d.holdTime maxLifetime) chain)
    (sent : Bool) :
    (d.mark now id sent).AnswersFrom now id (min d.holdTime maxLifetime)
      (continueChain (min d.holdTime maxLifetime) chain ⟨now, sent⟩) := by
  intro later _ sent'
  rw [getLast?_continueChain, ExpiringTable.get?_eq_some_iff, slots_mark,
    Std.ExtTreeMap.getElem?_insert_self]
  have hsent : (continueChain (min d.holdTime maxLifetime) chain ⟨now, sent⟩).any Mark.sent
      = (sent || d.retransmitted now id) := by
    rcases continueChain_cases (min d.holdTime maxLifetime) chain ⟨now, sent⟩ with
      ⟨last, hlast, hclose, heq⟩ | ⟨hbroken, heq⟩
    · have hseen := h.seen_iff.2 ⟨last, hlast, hclose⟩
      have hretransmitted : d.retransmitted now id = chain.any Mark.sent :=
        Bool.eq_iff_iff.2 (h.retransmitted_iff.trans (and_iff_right hseen))
      rw [heq, List.any_append, hretransmitted, Bool.or_comm]
      simp
    · have hretransmitted : d.retransmitted now id = false := by
        rw [← Bool.not_eq_true, h.retransmitted_iff, h.seen_iff]
        rintro ⟨⟨last, hlast, hclose⟩, -⟩
        exact hbroken last hlast hclose
      rw [heq, hretransmitted]
      simp
  rw [hsent]
  simp [Slot.isLive, deadline]

theorem AnswersFrom.mark_other (h : d.AnswersFrom now id hold chain) {other : MessageId}
    (hother : other ≠ id) (sent : Bool) : (d.mark now other sent).AnswersFrom now id hold chain := by
  intro later hlater sent'
  rw [← h later hlater, ExpiringTable.get?_eq_some_iff, ExpiringTable.get?_eq_some_iff, slots_mark,
    Std.ExtTreeMap.getElem?_insert, if_neg (mt Std.compare_eq_iff_eq.1 hother)]

/-- What is alive later is alive now, so no later lookup notices the sweep. -/
theorem AnswersFrom.sweep (h : d.AnswersFrom now id hold chain) :
    (d.sweep now).2.AnswersFrom now id hold chain := by
  intro later hlater sent
  rw [← h later hlater, ExpiringTable.get?_eq_some_iff, ExpiringTable.get?_eq_some_iff]
  have hslots : ∀ slot, (d.sweep now).2.marks.slots[id]? = some slot ↔
      d.marks.slots[id]? = some slot ∧ slot.isLive now = true := by
    intro slot
    show (d.marks.slots.filter fun _ slot => slot.isLive now)[id]? = some slot ↔ _
    rw [Std.ExtTreeMap.getElem?_filter', Option.filter_eq_some_iff]
  simp only [hslots]
  refine exists_congr fun slot => and_congr_left fun ⟨hlive, _⟩ => and_iff_left ?_
  simp only [Slot.isLive, decide_eq_true_eq] at hlive ⊢
  omega

end Duplicates

/-! ## Runs -/

section Runs

variable {log : MarkLog} {id : MessageId} {chain : List Mark}

theorem holdTime_step (log : MarkLog) (event : MarkEvent) :
    (log.step event).duplicates.holdTime = log.duplicates.holdTime := by
  cases event <;> rfl

theorem answersFrom_run (events : List MarkEvent)
    (h : log.duplicates.AnswersFrom log.now id (min log.duplicates.holdTime maxLifetime) chain) :
    (events.foldl MarkLog.step log).duplicates.AnswersFrom (events.foldl MarkLog.step log).now id
      (min log.duplicates.holdTime maxLifetime)
      ((marksOf id log.now events).foldl
        (continueChain (min log.duplicates.holdTime maxLifetime)) chain) := by
  induction events generalizing log chain with
  | nil => exact h
  | cons event rest ih =>
    rw [List.foldl_cons, ← holdTime_step log event]
    cases event with
    | mark other sent =>
      unfold marksOf
      split
      · rename_i heq
        subst heq
        exact ih (h.mark sent)
      · rename_i hother
        exact ih (h.mark_other hother sent)
    | sweep => exact ih h.sweep
    | advance ms => exact ih (h.of_le (Nat.le_add_right log.now ms))

/-- Only what concerns a message tells when it was marked. -/
theorem marksOf_filter_concerns (id : MessageId) (now : Nat) (events : List MarkEvent) :
    marksOf id now (events.filter (·.concerns id)) = marksOf id now events := by
  induction events generalizing now with
  | nil => rfl
  | cons event rest ih =>
    cases event with
    | mark other sent =>
      by_cases hother : other = id
      · rw [List.filter_cons_of_pos ((MarkEvent.concerns_mark id other sent).2 hother), marksOf,
          marksOf, if_pos hother, if_pos hother, ih]
      · rw [List.filter_cons_of_neg (mt (MarkEvent.concerns_mark id other sent).1 hother), ih,
          marksOf, if_neg hother]
    | sweep => exact ih now
    | advance ms => exact ih (now + ms)

theorem now_filter_concerns (id : MessageId) (events : List MarkEvent) {log log' : MarkLog}
    (h : log.now = log'.now) :
    ((events.filter (·.concerns id)).foldl MarkLog.step log).now
      = (events.foldl MarkLog.step log').now := by
  induction events generalizing log log' with
  | nil => exact h
  | cons event rest ih =>
    cases event with
    | mark other sent =>
      by_cases hother : other = id
      · rw [List.filter_cons_of_pos ((MarkEvent.concerns_mark id other sent).2 hother)]
        exact ih h
      · rw [List.filter_cons_of_neg (mt (MarkEvent.concerns_mark id other sent).1 hother)]
        exact ih h
    | sweep => exact ih h
    | advance ms => exact ih (congrArg (· + ms) h)

end Runs

/-- **Marks live as long as the hold time since the last one.** Start at any time with no marks, and
let messages be marked, dead marks be swept and time pass in any order. A message counts as seen
exactly if its last mark was made less than the hold time ago. It counts as sent on exactly if it is
seen and a mark says so that belongs to the current chain: the maximal run of its marks up to the
last one in which each was made less than the hold time after the one before. Leave out all sweeps
and the marks of all other messages, and both answers are the same. -/
theorem marks_exact (holdTime start : Nat) (events : List MarkEvent) (id : MessageId) :
    let log := MarkLog.after holdTime start events
    let marks := marksOf id start events
    let hold := min holdTime 4294967295
    (log.duplicates.seen log.now id = true ↔
        ∃ last, marks.getLast? = some last ∧ log.now < last.time + hold)
    ∧ (∃ chain, IsCurrentChain hold marks chain
        ∧ (log.duplicates.retransmitted log.now id = true ↔
          log.duplicates.seen log.now id = true ∧ ∃ mark ∈ chain, mark.sent = true))
    ∧ (let alone := MarkLog.after holdTime start (events.filter (·.concerns id))
      alone.now = log.now
        ∧ alone.duplicates.seen log.now id = log.duplicates.seen log.now id
        ∧ alone.duplicates.retransmitted log.now id = log.duplicates.retransmitted log.now id) := by
  intro log marks hold
  have hrun : ∀ events, (MarkLog.after holdTime start events).duplicates.AnswersFrom
      (MarkLog.after holdTime start events).now id hold (currentChain hold (marksOf id start events))
      := fun events => answersFrom_run events (Duplicates.answersFrom_empty holdTime start id _)
  have hlog := hrun events
  refine ⟨?_, ⟨currentChain hold marks, isCurrentChain_currentChain hold marks, ?_⟩, ?_⟩
  · rw [hlog.seen_iff, getLast?_currentChain]
  · rw [hlog.retransmitted_iff, List.any_eq_true]
  · have hnow : (MarkLog.after holdTime start (events.filter (·.concerns id))).now = log.now :=
      now_filter_concerns id events rfl
    have halone := hrun (events.filter (·.concerns id))
    rw [hnow, marksOf_filter_concerns] at halone
    refine ⟨hnow, ?_, ?_⟩
    · rw [Bool.eq_iff_iff, halone.seen_iff, hlog.seen_iff]
    · rw [Bool.eq_iff_iff, halone.retransmitted_iff, hlog.retransmitted_iff, halone.seen_iff,
        hlog.seen_iff]

end Meshcast
