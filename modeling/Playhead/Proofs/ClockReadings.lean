import Mathlib.Order.Interval.Finset.Nat
import Playhead.Clock
/-!
# ClockReadings — what the wall clock shows

The clock keeps an instant, two positions and a flag, and which of them count depends on the flag.  What it shows does
not: since it was set last, or since it was started, it has gone on by the time at which it was not paused
(`Clock.position_after`), whatever was asked of it and however often.  That time is counted instant by instant
(`Clock.running`), so a pause that is asked for twice, or lasts no time, makes no difference.
-/
namespace Playhead
namespace Clock

inductive Act
  | set (micros : Nat)
  | pause (on : Bool)
deriving DecidableEq, Repr

abbrev History := List (Nat × Act)

def act (c : Clock) (now : Nat) : Act → Clock
  | .set us => c.set now us
  | .pause on => c.setPaused now on

def after (c : Clock) (hist : History) : Clock := hist.foldl (fun c a => c.act a.1 a.2) c

/-- Time does not go back, from an instant through a history to another instant. -/
def InOrder (start : Nat) (hist : History) (now : Nat) : Prop := (start :: hist.map (·.1) ++ [now]).Pairwise (· ≤ ·)

instance (start : Nat) (hist : History) (now : Nat) : Decidable (InOrder start hist now) :=
  inferInstanceAs (Decidable (List.Pairwise ..))

/-! ## What a history says -/

def Act.pause? : Act → Option Bool
  | .pause on => some on
  | .set _ => none

def set? : Nat × Act → Option (Nat × Nat)
  | (t, .set us) => some (t, us)
  | (_, .pause _) => none

/-- When the clock was set last, and to how many microseconds; a clock that was never set was started at zero. -/
def lastSet (start : Nat) (hist : History) : Nat × Nat := (hist.filterMap set?).getLast?.getD (start, 0)

/-- Whether the clock is paused at an instant: what was asked for last, up to then. -/
def pausedAt (hist : History) (i : Nat) : Bool :=
  ((hist.filter (fun a => a.1 ≤ i)).filterMap (·.2.pause?)).getLast?.getD false

/-- The time between two instants at which the clock was not paused. -/
def running (hist : History) (since till : Nat) : Nat :=
  ((Finset.Ico since till).filter (fun i => pausedAt hist i = false)).card

theorem running_add (hist : History) {a b c : Nat} (hab : a ≤ b) (hbc : b ≤ c) :
    running hist a c = running hist a b + running hist b c := by
  have hdisjoint := Finset.disjoint_filter_filter (p := fun i => pausedAt hist i = false)
    (q := fun i => pausedAt hist i = false) (Finset.Ico_disjoint_Ico_consecutive a b c)
  rw [running, running, running, ← Finset.Ico_union_Ico_eq_Ico hab hbc, Finset.filter_union,
    Finset.card_union_of_disjoint hdisjoint]

theorem running_congr {hist hist' : History} {a b : Nat} (h : ∀ i, a ≤ i → i < b → pausedAt hist i = pausedAt hist' i) :
    running hist a b = running hist' a b := by
  unfold running
  congr 1
  refine Finset.filter_congr (fun i hi => ?_)
  obtain ⟨ha, hb⟩ := Finset.mem_Ico.1 hi
  rw [h i ha hb]

theorem running_of_constant {hist : History} {a b : Nat} {on : Bool} (h : ∀ i, a ≤ i → i < b → pausedAt hist i = on) :
    running hist a b = if on then 0 else b - a := by
  unfold running
  cases on with
  | true =>
    rw [Finset.filter_false_of_mem (fun i hi => ?_)]
    · rfl
    · obtain ⟨ha, hb⟩ := Finset.mem_Ico.1 hi
      rw [h i ha hb]
      exact Bool.noConfusion
  | false =>
    rw [Finset.filter_true_of_mem (fun i hi => ?_)]
    · exact Nat.card_Ico a b
    · obtain ⟨ha, hb⟩ := Finset.mem_Ico.1 hi
      exact h i ha hb

variable {hist : History} {t i : Nat}

theorem pausedAt_concat_of_lt (hist : History) (a : Act) (h : i < t) :
    pausedAt (hist ++ [(t, a)]) i = pausedAt hist i := by
  rw [pausedAt, List.filter_append, List.filter_cons_of_neg (by simpa using h), List.filter_nil, List.append_nil]
  rfl

theorem pausedAt_concat (a : Act) (h : t ≤ i) :
    pausedAt (hist ++ [(t, a)]) i = a.pause?.getD (pausedAt hist i) := by
  rw [pausedAt, List.filter_append, List.filter_cons_of_pos (by simpa using h), List.filter_nil, List.filterMap_append]
  cases a with
  | set us =>
    rw [List.filterMap_cons_none rfl, List.filterMap_nil, List.append_nil]
    rfl
  | pause on =>
    change (List.filterMap _ _ ++ [on]).getLast?.getD false = on
    rw [List.getLast?_concat, Option.getD_some]

theorem lastSet_concat (start : Nat) (hist : History) (t : Nat) (a : Act) :
    lastSet start (hist ++ [(t, a)]) = (set? (t, a)).getD (lastSet start hist) := by
  rw [lastSet, List.filterMap_append]
  cases a with
  | set us =>
    change (List.filterMap set? hist ++ [(t, us)]).getLast?.getD (start, 0) = (t, us)
    rw [List.getLast?_concat, Option.getD_some]
  | pause on =>
    rw [List.filterMap_cons_none rfl, List.filterMap_nil, List.append_nil]
    rfl

/-! ## What the clock keeps -/

theorem since_act {c : Clock} {now : Nat} (h : c.since ≤ now) (a : Act) : (c.act now a).since ≤ now := by
  cases a with
  | set us => exact Nat.le_refl now
  | pause on =>
    simp only [act, setPaused]
    split
    · exact h
    · split
      · exact h
      · exact Nat.le_refl now

theorem position_later (c : Clock) {now later : Nat} (hs : c.since ≤ now) (h : now ≤ later) :
    c.position later = c.position now + if c.paused then 0 else later - now := by
  unfold position
  split
  · rfl
  · omega

/-- A clock as its history says: paused or not, and what it shows from then on. -/
structure Tells (start : Nat) (hist : History) (now : Nat) (c : Clock) : Prop where
  since : c.since ≤ now
  set : (lastSet start hist).1 ≤ now
  paused : ∀ i, now ≤ i → pausedAt hist i = c.paused
  position : c.position now = (lastSet start hist).2 * 1000 + running hist (lastSet start hist).1 now

variable {start now later : Nat} {c : Clock}

theorem tells_start (start : Nat) : Tells start [] start (.start start) where
  since := Nat.le_refl start
  set := Nat.le_refl start
  paused _ _ := rfl
  position := by simp [Clock.start, Clock.position, lastSet, running]

theorem Tells.wait (h : Tells start hist now c) (hle : now ≤ later) : Tells start hist later c where
  since := h.since.trans hle
  set := h.set.trans hle
  paused i hi := h.paused i (hle.trans hi)
  position := by
    rw [c.position_later h.since hle, h.position, running_add hist h.set hle, Nat.add_assoc,
      running_of_constant (fun i hi _ => h.paused i hi)]

theorem Tells.act (h : Tells start hist now c) (a : Act) : Tells start (hist ++ [(now, a)]) now (c.act now a) where
  since := since_act h.since a
  set := by
    rw [lastSet_concat]
    cases a with
    | set us => exact Nat.le_refl now
    | pause on => exact h.set
  paused i hi := by
    rw [pausedAt_concat a hi, h.paused i hi]
    cases a with
    | set us => exact (c.paused_set now us).symm
    | pause on => exact (c.paused_setPaused now on).symm
  position := by
    rw [lastSet_concat]
    cases a with
    | set us =>
      have none : running (hist ++ [(now, .set us)]) now now = 0 := by
        rw [running, Finset.Ico_self]
        rfl
      change (c.set now us).position now = us * 1000 + running _ now now
      rw [position_set, none, Nat.add_zero]
    | pause on =>
      change (c.setPaused now on).position now = (lastSet start hist).2 * 1000 + _
      rw [position_setPaused, h.position]
      congr 1
      exact running_congr (fun i _ hi => (pausedAt_concat_of_lt hist (.pause on) hi).symm)

theorem InOrder.of_cons {a : Act} {more : History} (h : InOrder now ((t, a) :: more) later) :
    now ≤ t ∧ InOrder t more later := by
  obtain ⟨hle, htail⟩ := List.pairwise_cons.1 h
  exact ⟨hle t List.mem_cons_self, htail⟩

theorem InOrder.le {more : History} (h : InOrder now more later) : now ≤ later :=
  (List.pairwise_cons.1 h).1 later (List.mem_append_right _ List.mem_cons_self)

/-- **A clock is as its history says.** -/
theorem Tells.after {more : History} (h : Tells start hist now c) (hmore : InOrder now more later) :
    Tells start (hist ++ more) later (c.after more) := by
  induction more generalizing hist now c with
  | nil =>
    rw [List.append_nil]
    exact h.wait hmore.le
  | cons a more ih =>
    obtain ⟨hle, hrest⟩ := hmore.of_cons
    have next := ih ((h.wait hle).act a.2) hrest
    rw [List.append_assoc] at next
    exact next

theorem lastSet_of_pauses {more : History} (h : ∀ a ∈ more, a.2.pause?.isSome) (start : Nat) (hist : History) :
    lastSet start (hist ++ more) = lastSet start hist := by
  have none : more.filterMap set? = [] := by
    refine List.filterMap_eq_nil_iff.2 (fun a ha => ?_)
    have := h a ha
    rcases a with ⟨t, us | on⟩
    · cases this
    · rfl
  rw [lastSet, List.filterMap_append, none, List.append_nil]
  rfl

theorem running_append {more : History} (hmore : InOrder now more later) (since : Nat) :
    running (hist ++ more) since now = running hist since now := by
  refine running_congr (fun i _ hi => ?_)
  have none : more.filter (fun a => a.1 ≤ i) = [] := by
    refine List.filter_eq_nil_iff.2 (fun a ha => ?_)
    have hle := (List.pairwise_cons.1 hmore).1 a.1 (List.mem_append_left _ (List.mem_map_of_mem ha))
    rw [decide_eq_true_eq]
    omega
  rw [pausedAt, List.filter_append, none, List.append_nil]
  rfl

theorem after_of_paused (hc : c.paused = true) {more : History} (h : ∀ a ∈ more, a.2 = .pause true) :
    c.after more = c := by
  induction more with
  | nil => rfl
  | cons a more ih =>
    have first : c.act a.1 a.2 = c := by
      rw [h a List.mem_cons_self]
      exact if_pos hc
    change (c.act a.1 a.2).after more = c
    rw [first]
    exact ih (fun b hb => h b (List.mem_cons_of_mem a hb))

/-- **The law of the clock.**  After any history it shows what it was set to last and the time since then at which it
was not paused; pausing and resuming, as often as one likes, adds just the time in between at which it was not paused,
so what it shows never goes back, and stands while it is paused; setting leaves it paused or running.  The reading in
microseconds is that position without the rest of a microsecond, as long as 64 bits can count it, and what is left of
it in 64 bits in any case. -/
theorem shows_running_time (start : Nat) (hist : History) (now : Nat) (h : InOrder start hist now) :
    let c := (Clock.start start).after hist
    let last := lastSet start hist
    c.position now = last.2 * 1000 + running hist last.1 now ∧
    c.paused = pausedAt hist now ∧
    (∀ (more : History) (later : Nat), InOrder now more later → (∀ a ∈ more, a.2.pause?.isSome) →
      (c.after more).position later = c.position now + running (hist ++ more) now later ∧
      c.position now ≤ (c.after more).position later ∧
      (c.paused = true → (∀ a ∈ more, a.2 = .pause true) → (c.after more).position later = c.position now)) ∧
    (∀ t us : Nat, (c.act t (.set us)).paused = c.paused) ∧
    (c.position now / 1000 < 2 ^ 64 → c.micros now = c.position now / 1000) ∧
    c.micros now = c.position now / 1000 % 2 ^ 64 := by
  intro c last
  have tells : Tells start hist now c := (tells_start start).after h
  refine ⟨tells.position, (tells.paused now (Nat.le_refl now)).symm, ?_, fun t us => rfl, fun hlt => ?_, rfl⟩
  · intro more later hmore hpauses
    have tells' : Tells start (hist ++ more) later (c.after more) := tells.after hmore
    have hadds : (c.after more).position later = c.position now + running (hist ++ more) now later := by
      rw [tells'.position, tells.position, lastSet_of_pauses hpauses, running_add _ tells.set hmore.le,
        running_append hmore, Nat.add_assoc]
    refine ⟨hadds, by omega, fun hpaused hstill => ?_⟩
    rw [after_of_paused hpaused hstill, position_of_paused hpaused, position_of_paused hpaused]
  · exact Nat.mod_eq_of_lt hlt

/-- Set while it runs and while it is paused, paused twice and resumed twice. -/
theorem shows_running_time_twice_paused :
    let hist : History := [(5, .set 7), (10, .pause true), (12, .pause true), (15, .set 3), (20, .pause false),
      (20, .pause false), (31, .pause true)]
    let more : History := [(45, .pause false), (50, .pause true), (60, .pause false)]
    let c := (Clock.start 2).after hist
    InOrder 2 hist 40 ∧ c.position 40 = 3011 ∧ c.paused = true ∧ c.micros 40 = 3 ∧
      InOrder 40 more 64 ∧ (c.after more).position 64 = 3020 := by
  intro hist more c
  have order : InOrder 2 hist 40 := by decide
  have order' : InOrder 40 more 64 := by decide
  obtain ⟨hposition, hpaused, hmore, -, hmicros, -⟩ := shows_running_time 2 hist 40 order
  have here : c.position 40 = 3011 := hposition.trans (by decide)
  have there : (c.after more).position 64 = c.position 40 + running (hist ++ more) 40 64 :=
    (hmore more 64 order' (by decide)).1
  have whole : c.position 40 / 1000 < 2 ^ 64 → c.micros 40 = c.position 40 / 1000 := hmicros
  rw [here] at there whole
  exact ⟨order, here, hpaused.trans (by decide), whole (by decide), order', there.trans (by decide)⟩

/-- The reading in microseconds starts again from zero where 64 bits end. -/
theorem micros_wraps :
    let c := (Clock.start 0).after [(0, .set (2 ^ 64 - 1))]
    c.position 1000 / 1000 = 2 ^ 64 ∧ c.micros 1000 = 0 := by decide

end Clock
end Playhead
