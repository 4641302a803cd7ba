import Playhead.Proofs.Doubles
import Playhead.Proofs.EndOfMedium
import Playhead.Proofs.MarkedRequests
import Playhead.Proofs.Unwinding
import Playhead.TestPattern.Source
/-!
# ServedRequests — a request is done once, and then it is gone

The slot of the requests is emptied by comparing doubles, and a target that is no number would stay in it for ever.  A
host can not ask for such a target: what it asks for is a time of the medium (`Target`, `clampTarget_target`).  So the
demuxer finds a request at most once, and when it comes back from the seek, the slot is empty, whether the container
went to the target or refused (`Session.requests_retired`).
-/
namespace Playhead

variable {C K D : Type}

/-! ## What a host can ask for -/

theorem isNaN_eq_not_beq (x : Float) : x.isNaN = !(x == x) := by
  by_cases h : x = Float.nan
  · rw [Float.isNaN_eq_decide_eq_nan, Float.beq_self_eq_false_iff.2 h, h]
    rfl
  · rw [Float.isNaN_eq_decide_eq_nan, Float.beq_self_iff.2 h, decide_eq_false h]
    rfl

/-- A time of a medium of this duration: a number, not before the start, and not behind the end if that is known. -/
structure Target (duration t : Float) : Prop where
  number : t.isNaN = false
  fromStart : 0 ≤ t
  toEnd : 0 < duration → t ≤ duration

theorem zero_beq_zero : ((0 : Float) == 0) = true := by decide

theorem zero_le_of_lt {t : Float} (h : 0 < t) : 0 ≤ t := by
  have ht := beq_self_of_lt h
  rw [Double.le_iff_not_lt zero_beq_zero ht]
  intro hlt
  rw [Double.lt_iff_compare] at h hlt
  rw [Double.compare_swap, h] at hlt
  cases hlt

/-- **The target of a seek, bound by bound**: what is no number is the start, then the start bounds it from below, then
the end from above. -/
theorem clampTarget_eq (time duration : Float) :
    clampTarget time duration =
      let t := max (if time.isNaN then 0 else time) 0
      if 0 < duration then min t duration else t := by
  have lower : (if 0 < time then time else 0) = max (if time.isNaN then 0 else time) 0 := by
    change _ = if (if time.isNaN then 0 else time) ≤ 0 then 0 else if time.isNaN then 0 else time
    rw [isNaN_eq_not_beq]
    cases ht : time == time with
    | false =>
      have hlt : ¬ 0 < time := fun h => by rw [beq_self_of_lt h] at ht; cases ht
      rw [if_neg hlt]
      exact (ite_self 0).symm
    | true =>
      change _ = if time ≤ 0 then 0 else time
      by_cases hlt : 0 < time
      · rw [if_pos hlt, if_neg (fun h => (Double.le_iff_not_lt ht zero_beq_zero).1 h hlt)]
      · rw [if_neg hlt, if_pos ((Double.le_iff_not_lt ht zero_beq_zero).2 hlt)]
  have number : ((if 0 < time then time else 0) == (if 0 < time then time else 0)) = true := by
    split
    · next h => exact beq_self_of_lt h
    · exact zero_beq_zero
  unfold clampTarget
  rw [lower] at number ⊢
  generalize max (if time.isNaN then 0 else time) 0 = t at number
  change _ = if 0 < duration then (if t ≤ duration then t else duration) else t
  by_cases hd : 0 < duration
  · have order := Double.le_iff_not_lt number (beq_self_of_lt hd)
    by_cases ht : duration < t
    · rw [if_pos ⟨hd, ht⟩, if_pos hd, if_neg (fun h => order.1 h ht)]
    · rw [if_neg (fun h => ht h.2), if_pos hd, if_pos (order.2 ht)]
  · rw [if_neg (fun h => hd h.1), if_neg hd]

/-- A target is the start, the time that was asked for, or the end. -/
theorem clampTarget_cases (time duration : Float) :
    (¬ 0 < time ∧ clampTarget time duration = 0) ∨
      (0 < time ∧ (0 < duration → ¬ duration < time) ∧ clampTarget time duration = time) ∨
      (0 < duration ∧ duration < time ∧ clampTarget time duration = duration) := by
  unfold clampTarget
  by_cases ht : 0 < time
  · rw [if_pos ht]
    by_cases h : 0 < duration ∧ duration < time
    · exact .inr (.inr ⟨h.1, h.2, if_pos h⟩)
    · exact .inr (.inl ⟨ht, fun hd hlt => h ⟨hd, hlt⟩, if_neg h⟩)
  · rw [if_neg ht]
    refine .inl ⟨ht, if_neg (fun h => ?_)⟩
    exact (Double.le_iff_not_lt zero_beq_zero (beq_self_of_lt h.1)).1 (zero_le_of_lt h.1) h.2

/-- **What a host asks for is a time of the medium.** -/
theorem clampTarget_target (time duration : Float) : Target duration (clampTarget time duration) where
  number := by rw [isNaN_eq_not_beq, clampTarget_beq, Bool.not_true]
  fromStart := by
    rcases clampTarget_cases time duration with ⟨-, h⟩ | ⟨ht, -, h⟩ | ⟨hd, -, h⟩
    · rw [h]
      decide
    · rw [h]
      exact zero_le_of_lt ht
    · rw [h]
      exact zero_le_of_lt hd
  toEnd hd := by
    rcases clampTarget_cases time duration with ⟨-, h⟩ | ⟨ht, hle, h⟩ | ⟨-, -, h⟩
    · rw [h]
      exact zero_le_of_lt hd
    · rw [h]
      exact (Double.le_iff_not_lt (beq_self_of_lt ht) (beq_self_of_lt hd)).2 (hle hd)
    · rw [h]
      exact Double.le_refl (beq_self_of_lt hd)

theorem clampTarget_of_target {time duration : Float} (h : Target duration time) :
    (clampTarget time duration == time) = true := by
  have number : (time == time) = true := by
    have := h.number
    rw [isNaN_eq_not_beq] at this
    exact (Bool.not_eq_false' _).mp this
  rcases clampTarget_cases time duration with ⟨ht, hc⟩ | ⟨-, -, hc⟩ | ⟨hd, hlt, -⟩
  · rw [hc]
    exact Double.beq_of_le h.fromStart ((Double.le_iff_not_lt number zero_beq_zero).2 ht)
  · rw [hc]
    exact number
  · exact absurd hlt ((Double.le_iff_not_lt number (beq_self_of_lt hd)).1 (h.toEnd hd))

/-! ## From the request to the empty slot -/

def foundIn (notes : List Note) : List Float := notes.filterMap Note.found?

theorem foundIn_append (notes notes' : List Note) : foundIn (notes ++ notes') = foundIn notes ++ foundIn notes' :=
  List.filterMap_append

theorem Silent.foundIn_eq {ns : List Note} (h : Silent ns) : foundIn ns = [] :=
  List.filterMap_eq_nil_iff.2 (fun n hn => (h n hn).2.1)

theorem DemuxPoint.target?_of_isOver {p : DemuxPoint} (h : p.isOver = true) : p.target? = none := by
  cases p with
  | leaving how | gone how => rfl
  | _ => cases h

/-- **How far a request is**: it waits in the slot, the demuxer is about it (or has ended over it), or the slot is
empty.  The list is what the demuxer has found since the request. -/
inductive Serving (r : Float) (p : DemuxPoint) : Option Float → List Float → Prop
  | waits : Serving r p (some r) []
  | inHand (hp : p.Settled (some r)) : Serving r p (some r) [r]
  | emptied {found : List Float} (hp : p.target? = none) (hf : found = [] ∨ found = [r]) : Serving r p none found

namespace Serving

variable {r : Float} {p q : DemuxPoint} {pending pending' : Option Float} {found : List Float} {ns : List Note}

theorem found_cases (h : Serving r p pending found) : found = [] ∨ found = [r] := by
  cases h with
  | waits => exact .inl rfl
  | inHand hp => exact .inr rfl
  | emptied hp hf => exact hf

theorem settled (hp : p.Settled (some r)) : p.target? = some r ∨ p.isOver = true := hp r rfl

/-- **An action of the demuxer brings a request on**: it is found only while it waits, and when the demuxer comes back
from the seek, the slot holds the same target and is emptied. -/
theorem slotStep (hr : (r == r) = true) (slot : SlotStep p pending q pending' ns)
    (stays : p ≠ .poll → (∀ t, p ≠ .retire t) → p.Settled (some r) → q.Settled (some r))
    (h : Serving r p pending found) : Serving r q pending' (found ++ foundIn ns) := by
  cases slot with
  | find target =>
    cases h with
    | waits => exact .inHand (fun _ hs => .inl hs)
    | inHand hp => rcases settled hp with hc | hc <;> cases hc
  | @ask target _ _ ns hp hns =>
    have quiet : foundIn (.applied target :: ns) = [] := hns.foundIn_eq
    rw [quiet, List.append_nil]
    cases h with
    | waits => exact .waits
    | inHand hs => exact .inHand (stays nofun nofun hs)
    | emptied ho => cases ho
  | @act _ _ target _ _ hp hq hns =>
    rw [hns.foundIn_eq, List.append_nil]
    cases h with
    | waits => exact .waits
    | inHand hs =>
      refine .inHand (fun t ht => .inl ?_)
      rcases settled hs with hc | hc
      · rw [hq.1, ← hp.1, hc]
        exact ht
      · rw [DemuxPoint.target?_of_isOver hc] at hp
        cases hp.1
    | emptied ho =>
      rw [hp.1] at ho
      cases ho
  | retire target =>
    rw [show foundIn [] = [] from rfl, List.append_nil]
    cases h with
    | waits =>
      split
      · exact .emptied rfl (.inl rfl)
      · exact .waits
    | inHand hs =>
      -- the request was found, and what else waits now is for the same time
      obtain rfl : target = r := by
        rcases settled hs with hc | hc
        · exact Option.some.inj hc
        · cases hc
      rw [Option.some_beq_some, if_pos hr]
      exact .emptied rfl (.inr rfl)
    | emptied ho => cases ho
  | other hp hq hns =>
    rw [hns.foundIn_eq, List.append_nil]
    cases h with
    | waits => exact .waits
    | inHand hs =>
      have ended : p.isOver = true := (settled hs).resolve_left (by rw [hp]; nofun)
      refine .inHand (stays ?_ ?_ hs)
      · rintro rfl
        cases ended
      · rintro t rfl
        cases ended
    | emptied _ hf => exact .emptied hq hf

end Serving

theorem DemuxPoint.toGo_of_target? {p : DemuxPoint} {r : Float} (h : p.target? = some r) : 10 ≤ p.toGo := by
  cases p with
  | seek target | retire target => simp [toGo]
  | apply target us stage => cases stage <;> simp [toGo, SeekStage.toGo]
  | _ => cases h

theorem SlotStep.idle {p q : DemuxPoint} {pending : Option Float} {ns : List Note} (slot : SlotStep p none q pending ns)
    (ht : p.target? = none) : pending = none ∧ q.target? = none ∧ Silent ns := by
  cases slot with
  | ask | retire => cases ht
  | act hp =>
    rw [hp.1] at ht
    cases ht
  | other hp hq hns => exact ⟨rfl, hq, hns⟩

def Move.asksNothing : Move → Bool
  | .requestSeek _ => false
  | _ => true

theorem TestPattern.Source.seek_ne_died (c : TestPattern.Source) (us : Ticks) :
    (Container.seek c us).1 ≠ .died := by
  change (c.seek us).1 ≠ .died
  unfold TestPattern.Source.seek
  split <;> nofun

namespace Session

variable [Container C K] [VideoCodec K] [AudioDecoder D] {s : Session C K D} {r : Float} {found : List Float}

def asked (s : Session C K D) (time : Float) : Session C K D :=
  s.move 0 (.requestSeek (clampTarget time s.deck.duration))

/-- How far a request is in a session. -/
def Serves (s : Session C K D) (r : Float) (found : List Float) : Prop :=
  Serving r s.demuxer.point s.deck.pendingSeek found

theorem Serves.move (hr : (r == r) = true) (h : s.Serves r found) (now : Nat) {m : Move} (hm : m.asksNothing = true) :
    (s.move now m).Serves r (found ++ foundIn (s.notes m)) := by
  by_cases hd : m = .demux
  · subst hd
    exact h.slotStep hr (s.demuxer.slotStep now s.deck)
      (fun hpoll hretire hs => s.demuxer.settled_step now s.deck hpoll hretire hs)
  · obtain ⟨hw, ⟨target, rfl, -⟩ | ⟨hp, hns⟩⟩ := s.move_slot now hd
    · cases hm
    · rw [Serves, hw, hp, hns.foundIn_eq, List.append_nil]
      exact h

theorem Serves.run (hr : (r == r) = true) (h : s.Serves r found) (moves : List (Nat × Move))
    (quiet : ∀ m ∈ moves, m.2.asksNothing = true) :
    (s.run moves).Serves r (found ++ foundIn (s.chronicle moves)) := by
  induction moves generalizing s found with
  | nil =>
    rw [show foundIn (s.chronicle []) = [] from rfl, List.append_nil]
    exact h
  | cons m moves ih =>
    obtain ⟨hm, quiet⟩ := List.forall_mem_cons.1 quiet
    have hrun := ih (h.move hr m.1 hm) quiet
    rw [List.append_assoc, ← foundIn_append] at hrun
    exact hrun

/-- Nothing is asked for, and the demuxer is about no seek. -/
def Idles (s : Session C K D) : Prop := s.deck.pendingSeek = none ∧ s.demuxer.point.target? = none

theorem Idles.move (h : s.Idles) (now : Nat) {m : Move} (hm : m.asksNothing = true) :
    (s.move now m).Idles ∧ Silent (s.notes m) := by
  obtain ⟨hp, ht⟩ := h
  by_cases hd : m = .demux
  · subst hd
    have slot := s.demuxer.slotStep now s.deck
    rw [hp] at slot
    obtain ⟨hp', ht', hns⟩ := slot.idle ht
    exact ⟨⟨hp', ht'⟩, hns⟩
  · obtain ⟨hw, ⟨target, rfl, -⟩ | ⟨hs, hns⟩⟩ := s.move_slot now hd
    · cases hm
    · rw [Idles, hw, hs]
      exact ⟨⟨hp, ht⟩, hns⟩

/-- As long as nobody asks for anything, an idle session stays so, and the demuxer neither finds nor applies a
target. -/
theorem Idles.run (h : s.Idles) (moves : List (Nat × Move)) (quiet : ∀ m ∈ moves, m.2.asksNothing = true) :
    (s.run moves).Idles ∧ Silent (s.chronicle moves) := by
  induction moves generalizing s with
  | nil => exact ⟨h, silent_nil⟩
  | cons m moves ih =>
    obtain ⟨hm, quiet⟩ := List.forall_mem_cons.1 quiet
    obtain ⟨hmove, hns⟩ := h.move m.1 hm
    obtain ⟨hrun, hns'⟩ := ih hmove quiet
    exact ⟨hrun, fun n hn => (List.mem_append.1 hn).elim (hns n) (hns' n)⟩

/-- Where the demuxer comes back from a seek, the slot is emptied of a request for the same time. -/
theorem idles_retire (hr : (r == r) = true) (hs : s.Serves r found) (hp : s.demuxer.point = .retire r) (now : Nat) :
    (s.move now .demux).Idles := by
  have pending : s.deck.pendingSeek = some r := by
    rw [Serves, hp] at hs
    generalize s.deck.pendingSeek = pending at hs
    cases hs with
    | waits | inHand => rfl
    | emptied ht => cases ht
  have moved : s.move now .demux = _ := demux_retire hp now
  rw [moved, pending, Option.some_beq_some, if_pos hr]
  exact ⟨rfl, rfl⟩

/-- The container kills the demuxer when it is asked to go to the target. -/
def DiesSeeking (s : Session C K D) (r : Float) (moves : List (Nat × Move)) : Prop :=
  ∃ before now rest, moves = before ++ (now, .demux) :: rest ∧ (s.run before).demuxer.point = .seek r ∧
    (Container.seek (s.run before).demuxer.container (seekMicros r)).1 = .died

theorem DiesSeeking.cons {m : Nat × Move} {moves : List (Nat × Move)} (h : (s.move m.1 m.2).DiesSeeking r moves) :
    s.DiesSeeking r (m :: moves) := by
  obtain ⟨before, now, rest, rfl, hp, hd⟩ := h
  exact ⟨m :: before, now, rest, rfl, hp, hd⟩

theorem demux_inHand (hr : (r == r) = true) (ht : s.demuxer.point.target? = some r)
    (hp : s.deck.pendingSeek = some r) (now : Nat) :
    ((s.move now .demux).demuxer.point.target? = some r ∧ (s.move now .demux).deck.pendingSeek = some r ∧
        (s.move now .demux).demuxer.point.toGo < s.demuxer.point.toGo) ∨
      (s.move now .demux).Idles ∨
      s.demuxer.point = .seek r ∧ (Container.seek s.demuxer.container (seekMicros r)).1 = .died := by
  have nearer (h : s.demuxer.point ≠ .top) (hgo : 1 < s.demuxer.point.toGo) :
      (s.move now .demux).demuxer.point.toGo < s.demuxer.point.toGo :=
    ((s.demuxer.toGo_step now s.deck).2 hgo).2 (.inr h)
  cases hw : s.demuxer.point with
  | seek target =>
    obtain rfl : target = r := by rw [hw] at ht; exact Option.some.inj ht
    have nearer := nearer (by simp [hw]) (by simp [hw, DemuxPoint.toGo])
    rw [hw] at nearer
    rcases hc : Container.seek s.demuxer.container (seekMicros target) with ⟨_ | e | _, c⟩
    · refine .inl ⟨?_, ?_, nearer⟩ <;> simp only [move, demux, Demuxer.step, hw, hc]
      · rfl
      · exact hp
    · refine .inl ⟨?_, ?_, nearer⟩ <;> simp only [move, demux, Demuxer.step, hw, hc]
      · rfl
      · exact hp
    · exact .inr (.inr ⟨rfl, rfl⟩)
  | apply target us stage =>
    obtain rfl : target = r := by rw [hw] at ht; exact Option.some.inj ht
    have hgo := stage.toGo_next s.deck target us
    have nearer := nearer (by simp [hw]) (by rw [hw]; exact Nat.lt_trans hgo.1 hgo.2)
    rw [hw] at nearer
    refine .inl ⟨?_, ?_, nearer⟩ <;> simp only [move, demux, Demuxer.step, hw]
    · cases stage.next s.deck <;> rfl
    · rw [stage.pendingSeek_act]
      exact hp
  | retire target =>
    obtain rfl : target = r := by rw [hw] at ht; exact Option.some.inj ht
    have hs : s.Serves target [target] := by
      rw [Serves, hp]
      exact .inHand (fun t h => .inl (ht.trans h))
    exact .inr (.inl (idles_retire hr hs hw now))
  | _ =>
    rw [hw] at ht
    cases ht

/-- **The demuxer comes back from every seek**: with each of its actions it is nearer to the end of the seek it is
about, until the slot is empty, unless the container kills it. -/
theorem comes_back (hr : (r == r) = true) (ht : s.demuxer.point.target? = some r) (hp : s.deck.pendingSeek = some r)
    (moves : List (Nat × Move)) (quiet : ∀ m ∈ moves, m.2.asksNothing = true) :
    ((s.run moves).demuxer.point.target? = some r ∧
        (s.run moves).demuxer.point.toGo + moves.countP (fun m => m.2.isDemux) ≤ s.demuxer.point.toGo) ∨
      (s.run moves).Idles ∨ s.DiesSeeking r moves := by
  induction moves generalizing s with
  | nil => exact .inl ⟨ht, Nat.le_refl _⟩
  | cons m moves ih =>
    obtain ⟨now, m⟩ := m
    obtain ⟨hm, hq⟩ := List.forall_mem_cons.1 quiet
    by_cases hd : m = .demux
    · subst hd
      rcases demux_inHand hr ht hp now with ⟨ht', hp', hless⟩ | idles | ⟨hw, died⟩
      · rcases ih ht' hp' hq with ⟨hrun, hgo⟩ | idles | dies
        · refine .inl ⟨hrun, ?_⟩
          rw [List.countP_cons_of_pos (by rfl), run_cons]
          dsimp only
          omega
        · exact .inr (.inl idles)
        · exact .inr (.inr dies.cons)
      · exact .inr (.inl (idles.run moves hq).1)
      · exact .inr (.inr ⟨[], now, moves, rfl, hw, died⟩)
    · obtain ⟨hw, ⟨target, rfl, -⟩ | ⟨hs, -⟩⟩ := s.move_slot now hd
      · cases hm
      · have other : ¬ m.isDemux = true := by
          cases m with
          | demux => exact absurd rfl hd
          | _ => exact Bool.false_ne_true
        rcases ih (by rw [hw]; exact ht) (hs.trans hp) hq with ⟨hrun, hgo⟩ | idles | dies
        · refine .inl ⟨hrun, ?_⟩
          rw [List.countP_cons_of_neg (p := fun m : Nat × Move => m.2.isDemux) (a := (now, m)) other, run_cons]
          rw [hw] at hgo
          exact hgo
        · exact .inr (.inl idles)
        · exact .inr (.inr dies.cons)

/-- **A seek request is well formed and is retired by its own processing.**  What a host asks for is a time of the
medium, and the time itself if it is one.  If nobody asks for anything else, the demuxer finds the target at most once;
when it comes back from the seek the slot is empty, and from then on it finds and applies nothing any more; and it comes
back after nine actions at most, whether the container went to the target or refused, unless the container kills it. -/
theorem requests_retired (p : Player C K D) (hp : p.session = some s) (time : Float) :
    let r := clampTarget time s.deck.duration
    let posted := s.asked time
    (p.seekTo time).session = some posted ∧ posted.deck.pendingSeek = some r ∧ Target s.deck.duration r ∧
    (Target s.deck.duration time → (r == time) = true) ∧
    ∀ moves, (∀ m ∈ moves, m.2.asksNothing = true) →
      (foundIn (posted.chronicle moves) = [] ∨ foundIn (posted.chronicle moves) = [r]) ∧
      ∀ before now rest, moves = before ++ (now, .demux) :: rest →
        ((posted.run before).demuxer.point = .retire r →
          (posted.run moves).deck.pendingSeek = none ∧
            Silent (((posted.run before).move now .demux).chronicle rest)) ∧
        ((posted.run before).demuxer.point = .poll → (posted.run before).deck.pendingSeek = some r →
          9 ≤ rest.countP (fun m => m.2.isDemux) →
            (posted.run moves).deck.pendingSeek = none ∨
              ((posted.run before).move now .demux).DiesSeeking r rest) := by
  intro r posted
  have hr : (r == r) = true := clampTarget_beq time s.deck.duration
  have seekTo : (p.seekTo time).session = some posted := by
    rw [Player.seekTo, hp]
    rfl
  refine ⟨seekTo, rfl, clampTarget_target time _, clampTarget_of_target, fun moves quiet => ?_⟩
  have asked : posted.Serves r [] := .waits
  refine ⟨(asked.run hr moves quiet).found_cases, ?_⟩
  rintro before now rest rfl
  have serves := asked.run hr before (fun m hm => quiet m (List.mem_append_left _ hm))
  have quiet' : ∀ m ∈ rest, m.2.asksNothing = true :=
    fun m hm => quiet m (List.mem_append_right _ (List.mem_cons_of_mem _ hm))
  rw [run_append, run_cons]
  refine ⟨fun hpoint => ?_, fun hpoint hpending hcount => ?_⟩
  · obtain ⟨idles, silent⟩ := (idles_retire hr serves hpoint now).run rest quiet'
    exact ⟨idles.1, silent⟩
  · have moved : (posted.run before).move now .demux = _ := demux_poll hpoint now
    have found : ((posted.run before).move now .demux).demuxer.point = .seek r ∧
        ((posted.run before).move now .demux).deck.pendingSeek = some r := by
      rw [moved, hpending]
      exact ⟨rfl, rfl⟩
    have comes := comes_back hr (by rw [found.1]; rfl) found.2 rest quiet'
    rw [found.1] at comes
    rcases comes with ⟨ht, hgo⟩ | idles | dies
    · have := DemuxPoint.toGo_of_target? ht
      change _ ≤ 18 at hgo
      omega
    · exact .inl idles.1
    · exact .inr dies

/-- A host asks for a time that is no number, and the container refuses to go to the start; or it asks for a second, and
the container goes there. -/
theorem requests_retired_no_number :
    let source := TestPattern.Source.new 2 10
    let video : Option (StreamInfo × TestPattern.Codec) := some (source.videoStream, { width := 16, height := 8 })
    let refusing : Session TestPattern.Source TestPattern.Codec Empty :=
      Player.sessionOf 0 {} source.withFailingSeek none video
    let going : Session TestPattern.Source TestPattern.Codec Empty := Player.sessionOf 0 {} source none video
    let demuxes (n : Nat) := List.replicate n (7, Move.demux)
    ((refusing.asked (0 / 0)).run (demuxes 4)).demuxer.point = .retire (clampTarget (0 / 0) 2) ∧
      ((refusing.asked (0 / 0)).run (demuxes 12)).deck.pendingSeek = none ∧
      Target 2 1 ∧ (clampTarget 1 2 == 1) = true ∧
      ((going.asked 1).run (demuxes 2)).demuxer.point = .poll ∧
      ((going.asked 1).run (demuxes 12)).deck.pendingSeek = none := by
  intro source video refusing going demuxes
  have quiet (n : Nat) : ∀ m ∈ demuxes n, m.2.asksNothing = true := by
    intro m hm
    rw [List.eq_of_mem_replicate hm]
    rfl
  have retire : ((refusing.asked (0 / 0)).run (demuxes 4)).demuxer.point = .retire (clampTarget (0 / 0) 2) := rfl
  have poll : ((going.asked 1).run (demuxes 2)).demuxer.point = .poll := rfl
  have target : Target 2 1 := ⟨by decide +kernel, by decide +kernel, fun _ => by decide +kernel⟩
  obtain ⟨-, -, -, -, h⟩ := requests_retired { host := {}, session := some refusing } rfl (0 / 0)
  obtain ⟨-, -, -, same, h'⟩ := requests_retired { host := {}, session := some going } rfl 1
  have lives : ¬ (((going.asked 1).run (demuxes 2)).move 7 .demux).DiesSeeking (clampTarget 1 2) (demuxes 9) := by
    rintro ⟨before, now, rest, -, -, died⟩
    exact TestPattern.Source.seek_ne_died _ _ died
  refine ⟨retire, ?_, target, same target, poll, ?_⟩
  · exact (((h (demuxes 12) (quiet 12)).2 (demuxes 4) 7 (demuxes 7) rfl).1 retire).1
  · exact (((h' (demuxes 12) (quiet 12)).2 (demuxes 2) 7 (demuxes 9) rfl).2 poll rfl (by decide)).resolve_right lives

end Session

end Playhead
