import Playhead.Proofs.Agreement
/-!
# MarkedRequests — which requests of a run are to be left out

To leave requests out of a run is to leave out what the demuxer does about them as well.  Each request of a run gets a
mark, and the marks are carried along: what waits in the slot is to be left out or not, and so is what the demuxer has
in hand (`Marked.act`).  `Marked.thin` is the schedule that remains.

The marks are sound if what comes before the container is left out exactly if the container refuses it.  A newer request
takes the place of an older one, so one that was replaced before the demuxer found it goes with the one that replaced
it.  Every run has sound marks (`Marked.plannable`).
-/
namespace Playhead

variable {C K D : Type}

/-! ## Targets -/

section Targets

open Float.Model (UnpackedFloat)

theorem compare_self_of_number {x : UnpackedFloat} (h : x ≠ .notANumber) : x.compare x = some .eq := by
  cases x with
  | notANumber => exact absurd rfl h
  | infinity sign => cases sign <;> rfl
  | zero sign => rfl
  | finite sign mantissa exponent pos =>
    have same : (compare exponent exponent).then (compare mantissa mantissa) = .eq := by
      rw [Std.compare_self, Std.compare_self, Ordering.then_self]
    cases sign with
    | positive => exact congrArg some same
    | negative => exact congrArg (fun o => some o.swap) same

theorem beq_self_of_lt {a b : Float} (h : a < b) : (b == b) = true := by
  have less : (a.toModel.unpack.compare b.toModel.unpack == some .lt) = true := of_decide_eq_true h
  have number : b.toModel.unpack ≠ .notANumber := by
    intro hn
    rw [hn] at less
    cases ha : a.toModel.unpack <;> rw [ha] at less <;> cases less
  change (b.toModel.unpack.compare b.toModel.unpack == some .eq) = true
  rw [compare_self_of_number number]
  rfl

theorem clampTarget_beq (time duration : Float) : (clampTarget time duration == clampTarget time duration) = true := by
  have capped {t : Float} (ht : (t == t) = true) :
      ((if 0 < duration ∧ duration < t then duration else t) ==
        (if 0 < duration ∧ duration < t then duration else t)) = true := by
    split
    · next h => exact beq_self_of_lt h.1
    · exact ht
  unfold clampTarget
  by_cases h : 0 < time
  · rw [if_pos h]
    exact capped (beq_self_of_lt h)
  · rw [if_neg h]
    exact capped (by decide)

end Targets

/-! ## The demuxer and a request -/

def DemuxPoint.isOver : DemuxPoint → Bool
  | .leaving _ | .gone _ => true
  | _ => false

/-- Nobody waits for the demuxer to find a request: the slot is empty, or holds what the demuxer is about.  A worker
that has left its loop finds no request any more. -/
def DemuxPoint.Settled (p : DemuxPoint) (pending : Option Float) : Prop :=
  ∀ r, pending = some r → p.target? = some r ∨ p.isOver = true

theorem DemuxPoint.settled_none (p : DemuxPoint) : p.Settled none := nofun

theorem DemuxPoint.Settled.eq_none {p : DemuxPoint} {pending : Option Float} (h : p.Settled pending)
    (ht : p.target? = none) (ho : p.isOver = false) : pending = none := by
  cases hs : pending with
  | none => rfl
  | some r =>
    rcases h r hs with hc | hc
    · rw [ht] at hc
      cases hc
    · rw [ho] at hc
      cases hc

/-- The container will not go there, and stays as it is. -/
def Refuses [Container C K] (c : C) (target : Float) : Prop :=
  ∃ e, Container.seek c (seekMicros target) = (.error e, c)

theorem SlotStep.target {p q : DemuxPoint} {pending pending' : Option Float} {ns : List Note}
    (h : SlotStep p pending q pending' ns) {r : Float} (hr : q.target? = some r) :
    p.target? = some r ∨ pending = some r := by
  cases h with
  | find target =>
    cases hr
    exact .inr rfl
  | ask hp hns =>
    rcases hp with ⟨hp, -⟩ | hp
    · exact .inl (hp.symm.trans hr)
    · rw [hp] at hr
      cases hr
  | act hp hq hns => exact .inl ((hp.1.trans hq.1.symm).trans hr)
  | retire target => cases hr
  | other hp hq hns =>
    rw [hq] at hr
    cases hr

theorem Demuxer.settled_step [Container C K] (now : Nat) (d : Deck) {w : Demuxer C} (hpoll : w.point ≠ .poll)
    (hretire : ∀ target, w.point ≠ .retire target) {pending : Option Float} (h : w.point.Settled pending) :
    (w.step now d).2.1.point.Settled pending := by
  intro r hr
  have before := h r hr
  cases hp : w.point with
  | poll => exact absurd hp hpoll
  | retire target => exact absurd hp (hretire target)
  | seek target =>
    have same : target = r := by simpa [hp, DemuxPoint.target?, DemuxPoint.isOver] using before
    simp only [step, hp, same]
    split
    · exact .inl rfl
    · exact .inl rfl
    · exact .inr rfl
  | apply target us stage =>
    have same : target = r := by simpa [hp, DemuxPoint.target?, DemuxPoint.isOver] using before
    simp only [step, hp, same]
    cases stage.next d <;> exact .inl rfl
  | leaving how | gone how =>
    simp only [step, hp]
    exact .inr rfl
  | _ => simp [hp, DemuxPoint.target?, DemuxPoint.isOver] at before

theorem SlotStep.seek {p q : DemuxPoint} {pending pending' : Option Float} {ns : List Note}
    (h : SlotStep p pending q pending' ns) {target : Float} (hq : q = .seek target) : p = .poll := by
  subst hq
  cases h with
  | find => rfl
  | ask hp hns => rcases hp with ⟨-, hp⟩ | hp <;> cases hp
  | act hp hq hns => cases hq.2
  | other hp hq hns => cases hq

namespace Session

variable [Container C K] {s : Session C K D}

theorem target_demux (now : Nat) {r : Float} (h : (s.demux now).1.demuxer.point.target? = some r) :
    s.demuxer.point.target? = some r ∨ s.deck.pendingSeek = some r :=
  (s.demuxer.slotStep now s.deck).target h

theorem demux_poll (hp : s.demuxer.point = .poll) (now : Nat) :
    (s.demux now).1 =
      s.elsewhere s.deck.pendingSeek s.deck.ended (s.deck.pendingSeek.elim .audioRoom .seek) := by
  simp only [demux, Demuxer.step, hp]
  rfl

theorem demux_retire {target : Float} (hp : s.demuxer.point = .retire target) (now : Nat) :
    (s.demux now).1 =
      s.elsewhere (if s.deck.pendingSeek == some target then none else s.deck.pendingSeek) s.deck.ended
        .audioRoom := by
  simp only [demux, Demuxer.step, hp, Deck.completeSeek_eq]
  rfl

theorem demux_refused {target : Float} (hp : s.demuxer.point = .seek target)
    (hr : Refuses s.demuxer.container target) (now : Nat) :
    (s.demux now).1 = s.elsewhere s.deck.pendingSeek s.deck.ended (.retire target) := by
  obtain ⟨e, he⟩ := hr
  simp only [demux, Demuxer.step, hp, he]
  rfl

end Session

/-! ## A run, and which of its requests are left out -/

/-- What waits in the slot to be found by the demuxer. -/
inductive Waiting
  | nothing | kept | leftOut
deriving DecidableEq

def Waiting.of (leftOut : Bool) : Waiting := if leftOut then .leftOut else .kept

theorem Waiting.eq_of_ne {w : Waiting} (h : w ≠ .nothing) : w = .of (decide (w = .leftOut)) := by
  cases w with
  | nothing => exact absurd rfl h
  | kept | leftOut => rfl

/-- Moves, each with a mark; a request that is marked is to be left out. -/
abbrev Plan := List ((Nat × Move) × Bool)

/-- A session in a run, and what is known of its requests. -/
structure Marked (C K D : Type) where
  session : Session C K D
  waiting : Waiting := .nothing
  /-- What the demuxer is about is to be left out. -/
  inHand : Bool := false

namespace Marked

variable [Container C K] [VideoCodec K] [AudioDecoder D]

def waitingAfter (x : Marked C K D) (m : Move) (leftOut : Bool) : Waiting :=
  match m with
  | .requestSeek _ => .of leftOut
  | .demux =>
    match x.session.demuxer.point with
    | .poll => .nothing
    | .retire target => if x.session.deck.pendingSeek == some target then .nothing else x.waiting
    | _ => x.waiting
  | _ => x.waiting

def inHandAfter (x : Marked C K D) (m : Move) : Bool :=
  match m with
  | .demux =>
    match x.session.demuxer.point with
    | .poll => decide (x.waiting = .leftOut)
    | .retire _ => false
    | _ => x.inHand
  | _ => x.inHand

def act (now : Nat) (x : Marked C K D) (m : Move) (leftOut : Bool) : Marked C K D :=
  { session := x.session.move now m, waiting := x.waitingAfter m leftOut, inHand := x.inHandAfter m }

def skips (x : Marked C K D) (m : Move) (leftOut : Bool) : Bool :=
  match m with
  | .requestSeek _ => leftOut
  | .demux => x.inHand
  | _ => false

def run (x : Marked C K D) (plan : Plan) : Marked C K D := plan.foldl (fun x m => x.act m.1.1 m.1.2 m.2) x

/-- **The same schedule without the marked requests**, and without what the demuxer does about them. -/
def thin (x : Marked C K D) : Plan → List (Nat × Move)
  | [] => []
  | m :: plan => (if x.skips m.1.2 m.2 then [] else [m.1]) ++ (x.act m.1.1 m.1.2 m.2).thin plan

/-- A request that comes before the container is left out exactly if the container refuses it.  One that does not come
so far is left out with the one that took its place, or that it was answered together with; otherwise it may be left out
or not. -/
def Allows (x : Marked C K D) (m : Move) (leftOut : Bool) : Prop :=
  match m with
  | .requestSeek target => (target == target) = true ∧ (leftOut = true → x.waiting ≠ .kept)
  | .demux =>
    match x.session.demuxer.point with
    | .seek target => x.inHand = true ↔ Refuses x.session.demuxer.container target
    | .retire target => (x.session.deck.pendingSeek == some target) = true → x.inHand = true → x.waiting ≠ .kept
    | _ => True
  | _ => True

def Sound (x : Marked C K D) : Plan → Prop
  | [] => True
  | m :: plan => x.Allows m.1.2 m.2 ∧ (x.act m.1.1 m.1.2 m.2).Sound plan

instance [∀ (c : C) (target : Float), Decidable (Refuses c target)] (x : Marked C K D) (m : Move) (leftOut : Bool) :
    Decidable (x.Allows m leftOut) :=
  match m with
  | .requestSeek target => inferInstanceAs (Decidable ((target == target) = true ∧ _))
  | .demux =>
    match hp : x.session.demuxer.point with
    | .seek target =>
      decidable_of_iff (x.inHand = true ↔ Refuses x.session.demuxer.container target) (by simp only [Allows, hp])
    | .retire target =>
      decidable_of_iff ((x.session.deck.pendingSeek == some target) = true → x.inHand = true → x.waiting ≠ .kept)
        (by simp only [Allows, hp])
    | .start | .top | .poll | .apply .. | .audioRoom | .videoRoom | .read | .arrived _ | .route _ | .videoIdle
    | .audioIdle | .ringEmpty | .markEnded | .leaving _ | .gone _ => .isTrue (by simp only [Allows, hp])
  | .decode | .takeAudio | .refresh _ | .setPaused _ | .beginClose => .isTrue trivial

instance decidableSound [∀ (c : C) (target : Float), Decidable (Refuses c target)] :
    (x : Marked C K D) → (plan : Plan) → Decidable (x.Sound plan)
  | _, [] => .isTrue trivial
  | x, m :: plan =>
    have := decidableSound (x.act m.1.1 m.1.2 m.2) plan
    inferInstanceAs (Decidable (_ ∧ _))

variable {x : Marked C K D} {w : Waiting} {b : Bool}

theorem session_run (x : Marked C K D) (plan : Plan) : (x.run plan).session = x.session.run (plan.map (·.1)) := by
  induction plan generalizing x with
  | nil => rfl
  | cons m plan ih => exact ih (x.act m.1.1 m.1.2 m.2)

theorem thin_append (x : Marked C K D) (plan plan' : Plan) :
    x.thin (plan ++ plan') = x.thin plan ++ (x.run plan).thin plan' := by
  induction plan generalizing x with
  | nil => rfl
  | cons m plan ih =>
    simp only [List.cons_append, thin, ih, List.append_assoc]
    rfl

theorem kept_act (hw : x.waiting ≠ .leftOut) (hi : x.inHand = false) (now : Nat) {m : Move} {leftOut : Bool}
    (hm : ∀ target, m = .requestSeek target → leftOut = false) :
    (x.act now m leftOut).waiting ≠ .leftOut ∧ (x.act now m leftOut).inHand = false ∧ x.skips m leftOut = false := by
  cases m with
  | demux =>
    simp only [act, waitingAfter, inHandAfter, skips]
    cases x.session.demuxer.point with
    | poll => exact ⟨nofun, decide_eq_false hw, hi⟩
    | retire target =>
      refine ⟨?_, rfl, hi⟩
      dsimp only
      split
      · nofun
      · exact hw
    | _ => exact ⟨hw, hi, hi⟩
  | requestSeek target =>
    rw [hm target rfl]
    exact ⟨nofun, hi, rfl⟩
  | _ => exact ⟨hw, hi, rfl⟩

theorem thin_of_kept (hw : x.waiting ≠ .leftOut) (hi : x.inHand = false) {plan : Plan}
    (hplan : ∀ m ∈ plan, ∀ target, m.1.2 = .requestSeek target → m.2 = false) : x.thin plan = plan.map (·.1) := by
  induction plan generalizing x with
  | nil => rfl
  | cons m plan ih =>
    obtain ⟨hw', hi', hs⟩ := kept_act hw hi m.1.1 (hplan m List.mem_cons_self)
    rw [thin, hs, ih hw' hi' (fun m' hm' => hplan m' (List.mem_cons_of_mem _ hm'))]
    rfl

theorem Sound.left {plan plan' : Plan} (h : x.Sound (plan ++ plan')) : x.Sound plan := by
  induction plan generalizing x with
  | nil => trivial
  | cons m plan ih => exact ⟨h.1, ih h.2⟩

omit [VideoCodec K] [AudioDecoder D] in
theorem Allows.refuses {target : Float} {leftOut : Bool} (ha : x.Allows .demux leftOut)
    (hp : x.session.demuxer.point = .seek target) (hi : x.inHand = true) :
    Refuses x.session.demuxer.container target := by
  simp only [Allows, hp] at ha
  exact ha.1 hi

/-! ### What is known of the requests -/

/-- The slot and the demuxer as the marks know them. -/
structure Ok (x : Marked C K D) : Prop where
  sound : ∀ r, x.session.deck.pendingSeek = some r ∨ x.session.demuxer.point.target? = some r → (r == r) = true
  /-- What is left out gets no farther than to the container. -/
  behind : x.inHand = true → ∃ target, x.session.demuxer.point = .seek target ∨ x.session.demuxer.point = .retire target
  found : x.waiting = .nothing → x.session.demuxer.point.Settled x.session.deck.pendingSeek
  waits : x.waiting ≠ .nothing → x.session.deck.pendingSeek.isSome = true

omit [Container C K] [VideoCodec K] [AudioDecoder D] in
theorem Ok.nothing_of_empty (h : x.Ok) (empty : x.session.deck.pendingSeek = none) : x.waiting = .nothing := by
  have waits := h.waits
  rw [empty] at waits
  exact Decidable.byContradiction (fun hw => Bool.noConfusion (waits hw))

theorem act_poll (hp : x.session.demuxer.point = .poll) (now : Nat) (leftOut : Bool) :
    x.act now .demux leftOut =
      { session := (x.session.demux now).1, waiting := .nothing, inHand := decide (x.waiting = .leftOut) } := by
  simp only [act, waitingAfter, inHandAfter, hp]
  rfl

theorem act_retire {target : Float} (hp : x.session.demuxer.point = .retire target) (now : Nat) (leftOut : Bool) :
    x.act now .demux leftOut =
      { session := (x.session.demux now).1
        waiting := if x.session.deck.pendingSeek == some target then .nothing else x.waiting
        inHand := false } := by
  simp only [act, waitingAfter, inHandAfter, hp]
  rfl

theorem act_demux (hpoll : x.session.demuxer.point ≠ .poll) (hretire : ∀ t, x.session.demuxer.point ≠ .retire t)
    (now : Nat) (leftOut : Bool) :
    x.act now .demux leftOut = { x with session := (x.session.demux now).1 } := by
  have hw : x.waitingAfter .demux leftOut = x.waiting := by
    unfold waitingAfter
    cases hp : x.session.demuxer.point with
    | poll => exact absurd hp hpoll
    | retire target => exact absurd hp (hretire target)
    | _ => rfl
  have hi : x.inHandAfter .demux = x.inHand := by
    unfold inHandAfter
    cases hp : x.session.demuxer.point with
    | poll => exact absurd hp hpoll
    | retire target => exact absurd hp (hretire target)
    | _ => rfl
  simp only [act, hw, hi]
  rfl

theorem act_quiet {m : Move} (hm : m ≠ .demux) (hr : ∀ t, m ≠ .requestSeek t) (now : Nat) (leftOut : Bool) :
    x.act now m leftOut = { x with session := x.session.move now m } := by
  cases m with
  | demux => exact absurd rfl hm
  | requestSeek target => exact absurd rfl (hr target)
  | _ => rfl

theorem Ok.poll (h : x.Ok) (hp : x.session.demuxer.point = .poll) (now : Nat) (leftOut : Bool) :
    (x.act now .demux leftOut).Ok := by
  rw [act_poll hp, x.session.demux_poll hp]
  cases hs : x.session.deck.pendingSeek with
  | none =>
    exact {
      sound := by rintro r (hr | hr) <;> cases hr
      behind := fun hi => Waiting.noConfusion ((h.nothing_of_empty hs).symm.trans (of_decide_eq_true hi))
      found := fun _ => DemuxPoint.settled_none _
      waits := fun hc => absurd rfl hc }
  | some r =>
    exact {
      sound := by
        rintro r' (hr | hr) <;> cases hr
        · exact h.sound r (.inl hs)
        · exact h.sound r (.inl hs)
      behind := fun _ => ⟨r, .inl rfl⟩
      found := fun _ r' hr => .inl hr
      waits := fun hc => absurd rfl hc }

theorem Ok.retire (h : x.Ok) {target : Float} (hp : x.session.demuxer.point = .retire target) (now : Nat)
    (leftOut : Bool) : (x.act now .demux leftOut).Ok := by
  rw [act_retire hp, x.session.demux_retire hp]
  cases hs : x.session.deck.pendingSeek == some target with
  | true =>
    exact {
      sound := by rintro r (hr | hr) <;> cases hr
      behind := nofun
      found := fun _ => DemuxPoint.settled_none _
      waits := fun hc => absurd rfl hc }
  | false =>
    exact {
      sound := by
        rintro r (hr | hr)
        · exact h.sound r (.inl hr)
        · cases hr
      behind := nofun
      found := by
        intro hw r hr
        -- what waits would be what the demuxer is about, and that is done
        have := h.found hw r hr
        rw [hp] at this
        obtain ht | ho := this
        · obtain rfl : target = r := Option.some.inj ht
          have same := h.sound target (.inl hr)
          change (x.session.deck.pendingSeek = some target) at hr
          rw [hr, Option.some_beq_some, same] at hs
          cases hs
        · cases ho
      waits := h.waits }

theorem Ok.demux (h : x.Ok) (hpoll : x.session.demuxer.point ≠ .poll)
    (hretire : ∀ t, x.session.demuxer.point ≠ .retire t) {leftOut : Bool} (ha : x.Allows .demux leftOut) (now : Nat) :
    (x.act now .demux leftOut).Ok := by
  rw [act_demux hpoll hretire]
  have slot : (x.session.demux now).1.deck.pendingSeek = x.session.deck.pendingSeek :=
    (x.session.demuxer.pendingSeek_step now x.session.deck).trans (DemuxPoint.slotAfter_eq hretire _)
  constructor
  case sound =>
    rintro r (hr | hr)
    · exact h.sound r (.inl (slot.symm.trans hr))
    · exact h.sound r (x.session.target_demux now hr).symm
  case behind =>
    intro hi
    obtain ⟨target, hp | hp⟩ := h.behind hi
    · refine ⟨target, .inr ?_⟩
      change (x.session.demux now).1.demuxer.point = _
      rw [x.session.demux_refused hp (ha.refuses hp hi)]
      rfl
    · exact absurd hp (hretire target)
  case found =>
    intro hw
    change DemuxPoint.Settled _ (x.session.demux now).1.deck.pendingSeek
    rw [slot]
    exact x.session.demuxer.settled_step now x.session.deck hpoll hretire (h.found hw)
  case waits =>
    intro hw
    exact (congrArg Option.isSome slot).trans (h.waits hw)

theorem Ok.request (h : x.Ok) {target : Float} (ht : (target == target) = true) (now : Nat) (leftOut : Bool) :
    (x.act now (.requestSeek target) leftOut).Ok where
  sound := by
    rintro r (hr | hr)
    · cases hr
      exact ht
    · exact h.sound r (.inr hr)
  behind := h.behind
  found := by
    intro hw
    cases leftOut <;> cases hw
  waits := fun _ => rfl

theorem Ok.quiet (h : x.Ok) {m : Move} (hm : m ≠ .demux) (hr : ∀ t, m ≠ .requestSeek t) (now : Nat)
    (leftOut : Bool) : (x.act now m leftOut).Ok := by
  obtain ⟨hpending, -, hdemuxer⟩ := x.session.asking_move hm hr now
  rw [act_quiet hm hr]
  exact {
    sound := by
      simp only [hpending, hdemuxer]
      exact h.sound
    behind := by
      simp only [hdemuxer]
      exact h.behind
    found := by
      simp only [hpending, hdemuxer]
      exact h.found
    waits := by
      simp only [hpending]
      exact h.waits }

/-! ### Every run can be marked -/

def remark (x : Marked C K D) (w : Waiting) : Marked C K D := { x with waiting := w }

/-- What the demuxer takes to the container is marked if the container will refuse it. -/
def Judged (x : Marked C K D) : Prop :=
  ∀ target, x.session.demuxer.point = .seek target → (x.inHand = true ↔ Refuses x.session.demuxer.container target)

omit [Container C K] [VideoCodec K] [AudioDecoder D] in
theorem Ok.remark (h : x.Ok) {w : Waiting} (hw : w = .nothing ↔ x.waiting = .nothing) : (x.remark w).Ok :=
  ⟨h.sound, h.behind, fun hc => h.found (hw.1 hc), fun hc => h.waits (fun hn => hc (hw.2 hn))⟩

omit [Container C K] [VideoCodec K] [AudioDecoder D] in
theorem remark_self (h : w = x.waiting) : x.remark w = x := by rw [h]; rfl

def markedAs (x : Marked C K D) (leftOut : Bool) : Marked C K D :=
  x.remark (if x.waiting = .nothing then .nothing else .of leftOut)

omit [Container C K] [VideoCodec K] [AudioDecoder D] in
theorem waiting_markedAs : (x.markedAs b).waiting = .nothing ↔ x.waiting = .nothing := by
  unfold markedAs remark
  by_cases h : x.waiting = .nothing
  · simp only [h, if_true]
  · simp only [h, if_false, iff_false]
    cases b <;> decide

omit [Container C K] [VideoCodec K] [AudioDecoder D] in
theorem markedAs_ne_kept (hb : b = true) : (x.markedAs b).waiting ≠ .kept := by
  subst hb
  unfold markedAs remark
  by_cases h : x.waiting = .nothing
  · simp only [h, if_true]
    decide
  · simp only [h, if_false]
    decide

omit [VideoCodec K] [AudioDecoder D] in
theorem allows_retire {target : Float} (hp : x.session.demuxer.point = .retire target) {leftOut : Bool} :
    x.Allows .demux leftOut ↔
      ((x.session.deck.pendingSeek == some target) = true → x.inHand = true → x.waiting ≠ .kept) := by
  simp only [Allows, hp]

theorem judged_of_ne_poll (hp : x.session.demuxer.point ≠ .poll) (now : Nat) (leftOut : Bool) :
    (x.act now .demux leftOut).Judged := fun _ hq =>
  absurd ((x.session.demuxer.slotStep now x.session.deck).seek hq) hp

/-- What the demuxer finds is judged by what the container will say. -/
theorem Ok.judged_poll (h : x.Ok) (hp : x.session.demuxer.point = .poll)
    (hb : b = true ↔ ∃ r, x.session.deck.pendingSeek = some r ∧ Refuses x.session.demuxer.container r) (now : Nat) :
    ((x.markedAs b).act now .demux false).Judged := by
  rw [act_poll (x := x.markedAs b) hp]
  intro target hq
  change (x.session.demux now).1.demuxer.point = .seek target at hq
  change decide ((x.markedAs b).waiting = .leftOut) = true ↔ Refuses (x.session.demux now).1.demuxer.container target
  rw [x.session.demux_poll hp] at hq ⊢
  cases hs : x.session.deck.pendingSeek with
  | none =>
    rw [hs] at hq
    cases hq
  | some r =>
    rw [hs] at hq
    cases hq
    have waits : x.waiting ≠ .nothing := by
      intro hc
      have := h.found hc target hs
      rw [hp] at this
      rcases this with hc | hc <;> cases hc
    have mark : decide ((x.markedAs b).waiting = .leftOut) = b := by
      simp only [markedAs, if_neg waits]
      cases b <;> rfl
    rw [mark, hb, hs]
    constructor
    · rintro ⟨r, hr, refuses⟩
      cases hr
      exact refuses
    · intro refuses
      exact ⟨target, rfl, refuses⟩

/-- The moves can be marked from here on, once what waits has the mark that turns out to be right. -/
def Plannable (x : Marked C K D) (moves : List (Nat × Move)) : Prop :=
  ∃ w plan, (w = .nothing ↔ x.waiting = .nothing) ∧ plan.map (·.1) = moves ∧ (x.remark w).Sound plan

variable {now : Nat} {m : Move} {moves : List (Nat × Move)}

theorem Plannable.of_nothing (h : x.Plannable moves) (hw : x.waiting = .nothing) :
    ∃ plan : Plan, plan.map (·.1) = moves ∧ x.Sound plan := by
  obtain ⟨w, plan, nothing, hmap, sound⟩ := h
  rw [remark_self ((nothing.2 hw).trans hw.symm)] at sound
  exact ⟨plan, hmap, sound⟩

/-- With a move that empties the slot the mark of what waited is settled. -/
theorem Plannable.settle (h : ((x.markedAs b).act now m false).Plannable moves)
    (empty : ((x.markedAs b).act now m false).waiting = .nothing) (allows : (x.markedAs b).Allows m false) :
    x.Plannable ((now, m) :: moves) := by
  obtain ⟨plan, hmap, sound⟩ := h.of_nothing empty
  exact ⟨_, ((now, m), false) :: plan, waiting_markedAs, by rw [List.map_cons, hmap], allows, sound⟩

/-- What waits has the same mark before a move that has nothing to do with it. -/
theorem Plannable.pass (h : (x.act now m false).Plannable moves) (waits : (x.act now m false).waiting = x.waiting)
    (same : ∀ w, (x.remark w).act now m false = (x.act now m false).remark w)
    (allows : ∀ w, (x.remark w).Allows m false) : x.Plannable ((now, m) :: moves) := by
  obtain ⟨w, plan, nothing, hmap, sound⟩ := h
  rw [waits] at nothing
  rw [← same] at sound
  exact ⟨w, ((now, m), false) :: plan, nothing, by rw [List.map_cons, hmap], allows w, sound⟩

/-- A request gets the mark of what waits behind it. -/
theorem Plannable.request {target : Float} (h : (x.act now (.requestSeek target) false).Plannable moves)
    (ht : (target == target) = true) : x.Plannable ((now, .requestSeek target) :: moves) := by
  obtain ⟨w, plan, nothing, hmap, sound⟩ := h
  have waits : w ≠ .nothing := fun hc => Waiting.noConfusion (nothing.1 hc)
  have mark : (x.act now (.requestSeek target) false).remark w =
      (x.markedAs (decide (w = .leftOut))).act now (.requestSeek target) (decide (w = .leftOut)) :=
    congrArg (x.act now (.requestSeek target) false).remark (Waiting.eq_of_ne waits)
  rw [mark] at sound
  exact ⟨_, ((now, .requestSeek target), decide (w = .leftOut)) :: plan, waiting_markedAs,
    by rw [List.map_cons, hmap], ⟨ht, markedAs_ne_kept⟩, sound⟩

omit [VideoCodec K] [AudioDecoder D] in
theorem Judged.allows (judged : x.Judged) (hretire : ∀ t, x.session.demuxer.point ≠ .retire t) (w : Waiting) :
    (x.remark w).Allows .demux b := by
  unfold Allows
  cases hp : x.session.demuxer.point with
  | seek target =>
    simp only [remark, hp]
    exact judged target hp
  | retire target => exact absurd hp (hretire target)
  | _ => simp only [remark, hp]

open Classical in
/-- **The requests of a run can be marked by what becomes of them.**  Whether a request is refused comes out only later,
so the marks are found from the end of the run on. -/
theorem plannable (ok : x.Ok) (judged : x.Judged) (moves : List (Nat × Move))
    (hs : ∀ m ∈ moves, ∀ target, m.2 = .requestSeek target → (target == target) = true) : x.Plannable moves := by
  induction moves generalizing x with
  | nil => exact ⟨x.waiting, [], Iff.rfl, rfl, trivial⟩
  | cons m moves ih =>
    obtain ⟨now, m⟩ := m
    have hrest := fun m' hm' => hs m' (List.mem_cons_of_mem _ hm')
    cases Move.kind x.session.demuxer.point m with
    | poll hp =>
      -- what is found is put to the container before anything else can happen, so its answer is known here
      let refused := decide (∃ r, x.session.deck.pendingSeek = some r ∧ Refuses x.session.demuxer.container r)
      have next : ((x.markedAs refused).act now .demux false).Ok := (ok.remark waiting_markedAs).poll hp now false
      have judged' := ok.judged_poll hp (decide_eq_true_iff ..) now
      refine (ih next judged' hrest).settle ?_ (judged.allows (by rw [hp]; nofun) _)
      rw [act_poll (x := x.markedAs refused) hp]
    | retire target hp =>
      have leaves : x.session.demuxer.point ≠ .poll := by rw [hp]; nofun
      cases heq : x.session.deck.pendingSeek == some target with
      | true =>
        -- what waits is answered together with what the demuxer is about, and so shares its mark
        have next : ((x.markedAs x.inHand).act now .demux false).Ok :=
          (ok.remark waiting_markedAs).retire hp now false
        have judged' := judged_of_ne_poll (x := x.markedAs x.inHand) leaves now false
        refine (ih next judged' hrest).settle ?_
          ((allows_retire (x := x.markedAs x.inHand) hp).2 (fun _ => markedAs_ne_kept))
        rw [act_retire (x := x.markedAs x.inHand) hp]
        exact if_pos heq
      | false =>
        have passed (w : Waiting) := act_retire (x := x.remark w) hp now false
        have other (w : Waiting) : ((x.remark w).session.deck.pendingSeek == some target) = false := heq
        refine (ih (ok.retire hp now false) (judged_of_ne_poll leaves now false) hrest).pass ?_ (fun w => ?_)
          (fun w => (allows_retire (x := x.remark w) hp).2 (fun hc => absurd ((other w).symm.trans hc) nofun))
        · rw [act_retire hp, heq]
          rfl
        · rw [passed w, act_retire hp, other w, heq]
          rfl
    | demux hpoll hretire =>
      have next : (x.act now .demux false).Ok := ok.demux hpoll hretire (judged.allows hretire x.waiting) now
      refine (ih next (judged_of_ne_poll hpoll now false) hrest).pass ?_ (fun w => ?_) (judged.allows hretire)
      · rw [act_demux hpoll hretire]
      · rw [act_demux hpoll hretire, act_demux (x := x.remark w) hpoll hretire]
        rfl
    | request target =>
      have ht := hs _ List.mem_cons_self target rfl
      exact (ih (ok.request ht now false) judged hrest).request ht
    | quiet hm hr =>
      have judged' : (x.act now m false).Judged := by
        rw [act_quiet hm hr, Judged, (x.session.asking_move hm hr now).2.2]
        exact judged
      refine (ih (ok.quiet hm hr now false) judged' hrest).pass ?_ (fun w => ?_) (fun w => ?_)
      · rw [act_quiet hm hr]
      · rw [act_quiet (x := x.remark w) hm hr, act_quiet (x := x) hm hr]
        rfl
      · cases m with
        | demux => exact absurd rfl hm
        | requestSeek target => exact absurd rfl (hr target)
        | _ => trivial

end Marked

end Playhead
