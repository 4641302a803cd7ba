import Playhead.Proofs.SeekRequests
import Playhead.Script.Source
/-!
# Unwinding — what the workers still do once the stop flag is up

The flag is not locked: a decode worker that comes for an item or for a slot looks at it first and acts by what it saw,
and the flag may be raised in between.  In a `Watched` session the look is an action of its own, and so is the raising
of the flag, before the queues are flushed; every run of moves is a run of such actions (`Watched.run_of_moves`).  Each
worker carries what it may still do with it from place to place (`DemuxPoint.readsLeft`, `Decoder.workLeft`), and no
place of a loop is one that a worker stays at when it has seen the flag (`DemuxPoint.toGo`, `Watched.Ends`).
-/
namespace Playhead

variable {C K D : Type}

def DecodePoint.isLeaving : DecodePoint → Bool
  | .leaving _ => true
  | _ => false

/-- The points at which the decode worker goes by the stop flag. -/
def DecodePoint.looks : DecodePoint → Bool
  | .take | .place _ => true
  | _ => false

theorem DecodePoint.isLeaving_of_looks {p : DecodePoint} (h : p.looks = true) : p.isLeaving = false := by
  cases p with
  | leaving how => cases h
  | _ => rfl

/-- An action by what was seen of the flag. -/
def Decoder.stepSeeing [VideoCodec K] (seen : Bool) (d : Deck) (w : Decoder K) : Deck × Decoder K :=
  let (after, w, _) := w.step { d with stop := seen }
  ({ after with stop := d.stop }, w)

/-- An action of the worker, which may have looked at the flag and not acted yet. -/
def Decoder.watch [VideoCodec K] (seen : Option Bool) (d : Deck) (w : Decoder K) : Deck × Decoder K × Option Bool :=
  match w.point.looks, seen with
  | false, _ => ((w.step d).1, (w.step d).2.1, none)
  | true, none => (d, w, some d.stop)
  | true, some seen => ((w.stepSeeing seen d).1, (w.stepSeeing seen d).2, none)

/-- What the workers should not go on doing in a session that ends. -/
inductive Deed
  | read
  /-- The decode worker took an item. -/
  | take
  /-- The decode worker handed a picture in; the ring may have refused it. -/
  | commit
deriving DecidableEq, Repr

def Demuxer.deeds (w : Demuxer C) : List Deed :=
  match w.point with
  | .read => [.read]
  | _ => []

def Decoder.deeds (seen : Option Bool) (d : Deck) (w : Decoder K) : List Deed :=
  match w.point, seen with
  | .take, some seen =>
    match (d.videoQueue.take seen).1 with
    | .item _ => [.take]
    | _ => []
  | .commit _, _ => [.commit]
  | _, _ => []

/-- A session, and what the decode worker saw if it has looked at the flag and not acted yet. -/
structure Watched (C K D : Type) where
  session : Session C K D
  seen : Option Bool := none

namespace Watched

inductive Action
  | decode
  | move (m : Move) (h : m ≠ .decode)
  /-- The flag is raised, and the queues are not flushed yet. -/
  | stop
  | flush (lane : Lane)

def decode [VideoCodec K] (x : Watched C K D) : Watched C K D :=
  match x.session.decoder with
  | none => x
  | some w =>
    let (deck, w, seen) := w.watch x.seen x.session.deck
    ⟨{ x.session with deck, decoder := some w }, seen⟩

def withDeck (x : Watched C K D) (f : Deck → Deck) : Watched C K D := { x with session := x.session.withDeck f }

variable [Container C K] [VideoCodec K] [AudioDecoder D]

def act (now : Nat) (x : Watched C K D) : Action → Watched C K D
  | .decode => x.decode
  | .move m _ => { x with session := x.session.move now m }
  | .stop => x.withDeck ({ · with stop := true })
  | .flush .video => x.withDeck (fun d => { d with videoQueue := d.videoQueue.flush })
  | .flush .audio => x.withDeck (fun d => { d with audioQueue := d.audioQueue.flush })

def run (x : Watched C K D) (actions : List (Nat × Action)) : Watched C K D :=
  actions.foldl (fun x a => x.act a.1 a.2) x

def deed (x : Watched C K D) : Action → List Deed
  | .decode => x.session.decoder.elim [] (·.deeds x.seen x.session.deck)
  | .move .demux _ => x.session.demuxer.deeds
  | _ => []

def deeds (x : Watched C K D) : List (Nat × Action) → List Deed
  | [] => []
  | a :: actions => x.deed a.2 ++ (x.act a.1 a.2).deeds actions

theorem run_append (x : Watched C K D) (actions actions' : List (Nat × Action)) :
    x.run (actions ++ actions') = (x.run actions).run actions' := List.foldl_append

end Watched

/-! ## The places of the demuxer -/

/-- How far it is from the place at which a successful seek stands to the end of the loop, once the flag is up. -/
def SeekStage.toGo : SeekStage → Nat
  | .clearAudio => 17
  | .markAudio => 16
  | .clearVideo => 15
  | .holdRing => 14
  | .markVideo | .clearRing => 13
  | .setClock => 12
  | .unsetEnded => 11

def DemuxPoint.toGo : DemuxPoint → Nat
  | .gone _ => 0
  | .leaving _ => 1
  | .top => 2
  | .start | .route _ | .markEnded => 3
  | .arrived _ | .ringEmpty => 4
  | .audioIdle => 5
  | .videoIdle => 6
  | .read => 7
  | .videoRoom => 8
  | .audioRoom => 9
  | .retire _ => 10
  | .apply _ _ stage => stage.toGo
  | .seek _ => 18
  | .poll => 19

/-- With the flag up the demuxer does not begin another pass, and so reads once more if the read lies ahead. -/
def DemuxPoint.readsLeft (p : DemuxPoint) : Nat := if 6 < p.toGo then 1 else 0

theorem ahead_mono {k near far : Nat} (h : near ≤ far) : (if k < near then 1 else 0) ≤ if k < far then 1 else 0 := by
  by_cases hk : k < near
  · simp [hk, Nat.lt_of_lt_of_le hk h]
  · simp [hk]

theorem DemuxPoint.toGo_le (p : DemuxPoint) : p.toGo ≤ 19 := by
  cases p with
  | apply target us stage => cases stage <;> simp [toGo, SeekStage.toGo]
  | _ => simp [toGo]

theorem SeekStage.toGo_first (d : Deck) : 1 < (first d).toGo ∧ (first d).toGo < 18 := by
  unfold first
  split
  · decide
  · split <;> decide

theorem SeekStage.toGo_next (stage : SeekStage) (d : Deck) (target : Float) (us : Ticks) :
    let q : DemuxPoint := (stage.next d).elim (.retire target) (.apply target us)
    1 < q.toGo ∧ q.toGo < stage.toGo := by
  cases stage with
  | markAudio =>
    simp only [next]
    split <;> simp [DemuxPoint.toGo, toGo]
  | _ => simp [next, DemuxPoint.toGo, toGo]

/-- **Where an action of the demuxer leads**: it leaves only from the loop, and every action is one toward the end, but
for the one that begins another pass, with the flag down. -/
theorem Demuxer.toGo_step [Container C K] (now : Nat) (d : Deck) (w : Demuxer C) :
    (w.point.toGo ≤ 1 → (w.step now d).2.1.point.toGo = 0) ∧
      (1 < w.point.toGo → 0 < (w.step now d).2.1.point.toGo ∧
        (d.stop = true ∨ w.point ≠ .top → (w.step now d).2.1.point.toGo < w.point.toGo)) := by
  have within {p q : DemuxPoint} (h : 1 < p.toGo) (hq : 0 < q.toGo ∧ q.toGo < p.toGo) :
      (p.toGo ≤ 1 → q.toGo = 0) ∧
        (1 < p.toGo → 0 < q.toGo ∧ (d.stop = true ∨ p ≠ .top → q.toGo < p.toGo)) :=
    ⟨fun hc => absurd h (Nat.not_lt.2 hc), fun _ => ⟨hq.1, fun _ => hq.2⟩⟩
  cases hp : w.point with
  | start =>
    simp only [step, hp, DemuxPoint.entry]
    split <;> exact within (by decide) (by decide)
  | top =>
    simp only [step, hp]
    split
    · exact within (by decide) (by decide)
    · next hs =>
      refine ⟨fun hc => absurd hc (by decide), fun _ => ⟨by decide, fun hc => ?_⟩⟩
      exact absurd rfl (hc.resolve_left hs)
  | poll =>
    simp only [step, hp]
    cases d.pendingSeek <;> exact within (by simp [DemuxPoint.toGo]) (by simp [DemuxPoint.toGo])
  | seek target =>
    simp only [step, hp]
    have hf := SeekStage.toGo_first d
    split
    · exact within (by simp [DemuxPoint.toGo]) ⟨Nat.lt_of_succ_lt hf.1, hf.2⟩
    · exact within (by simp [DemuxPoint.toGo]) (by simp [DemuxPoint.toGo])
    · exact within (by simp [DemuxPoint.toGo]) (by simp [DemuxPoint.toGo])
  | apply target us stage =>
    simp only [step, hp]
    have hn := stage.toGo_next d target us
    exact within (Nat.lt_trans hn.1 hn.2) ⟨Nat.lt_of_succ_lt hn.1, hn.2⟩
  | audioRoom | videoRoom | videoIdle | audioIdle | ringEmpty =>
    simp only [step, hp]
    split <;> exact within (by decide) (by decide)
  | read =>
    simp only [step, hp]
    split <;> exact within (by simp [DemuxPoint.toGo]) (by simp [DemuxPoint.toGo])
  | retire _ | arrived _ | route _ | markEnded =>
    simp only [step, hp]
    exact within (by simp [DemuxPoint.toGo]) (by simp [DemuxPoint.toGo])
  | leaving how =>
    simp only [step, hp]
    exact ⟨fun _ => rfl, fun hc => absurd hc (by simp [DemuxPoint.toGo])⟩
  | gone how =>
    simp only [step, hp]
    exact ⟨fun _ => rfl, fun hc => absurd hc (by simp [DemuxPoint.toGo])⟩

theorem Demuxer.isGone_iff (w : Demuxer C) : w.isGone = true ↔ w.point.toGo = 0 := by
  unfold isGone
  split
  · next h => simp [h, DemuxPoint.toGo]
  · next h =>
    refine ⟨nofun, fun hz => ?_⟩
    cases hp : w.point with
    | gone how => exact absurd hp (h how)
    | apply target us stage =>
      rw [hp] at hz
      cases stage <;> cases hz
    | _ =>
      rw [hp] at hz
      cases hz

theorem Demuxer.stop_step [Container C K] (now : Nat) (d : Deck) (w : Demuxer C) :
    (w.step now d).1.stop = (d.stop || decide (w.point.toGo = 1)) := by
  cases hp : w.point with
  | apply target us stage =>
    have h : stage.toGo ≠ 1 := by cases stage <;> decide
    simp only [step, hp, DemuxPoint.toGo, h, decide_false, Bool.or_false]
    rw [stage.act_eq]
  | retire target =>
    simp only [step, hp]
    rw [d.completeSeek_eq]
    exact (Bool.or_false _).symm
  | route p =>
    simp only [step, hp]
    rw [d.route_eq]
    exact (Bool.or_false _).symm
  | markEnded =>
    simp only [step, hp]
    rw [d.markEnded_eq]
    exact (Bool.or_false _).symm
  | seek target | read =>
    simp only [step, hp]
    split <;> exact (Bool.or_false _).symm
  | leaving how =>
    simp only [step, hp]
    exact (Bool.or_true _).symm
  | _ =>
    simp only [step, hp]
    exact (Bool.or_false _).symm

theorem Demuxer.toGo_step_le [Container C K] (now : Nat) {d : Deck} (w : Demuxer C) (hstop : d.stop = true) :
    (w.step now d).2.1.point.toGo ≤ w.point.toGo - 1 := by
  obtain ⟨hend, hon⟩ := w.toGo_step now d
  by_cases h : 1 < w.point.toGo
  · have := (hon h).2 (.inl hstop)
    omega
  · have := hend (Nat.not_lt.1 h)
    omega

theorem Demuxer.readsLeft_step [Container C K] (now : Nat) {d : Deck} (w : Demuxer C) (hstop : d.stop = true) :
    w.deeds.count .read + (w.step now d).2.1.point.readsLeft ≤ w.point.readsLeft := by
  have hle := w.toGo_step_le now hstop
  generalize (w.step now d).2.1.point = q at hle ⊢
  unfold deeds
  split
  · next hp =>
    rw [hp] at hle ⊢
    have hq : ¬ 6 < q.toGo := Nat.not_lt.2 hle
    simp only [DemuxPoint.readsLeft, if_neg hq]
    decide
  · rw [List.count_nil, Nat.zero_add]
    exact ahead_mono (Nat.le_trans hle (Nat.sub_le _ _))

/-! ## The places of the decode worker -/

def DecodePoint.hasItem : DecodePoint → Bool
  | .send _ | .flushCodec _ => true
  | _ => false

def DecodePoint.calls : DecodePoint → Bool
  | .flushCodec _ | .send _ | .receive | .convert _ => true
  | _ => false

/-- **Where an action of the decode worker leads**, and what deeds it is: the place and what was seen of the flag before
and afterwards. -/
inductive DecodePoint.Way (stop : Bool) :
    DecodePoint → Option Bool → List Deed → DecodePoint → Option Bool → Prop
  | look {p : DecodePoint} (h : p.looks = true) : Way stop p none [] p (some stop)
  /-- It saw that the flag was up. -/
  | stopped {p : DecodePoint} (h : p.looks = true) : Way stop p (some true) [] (.leaving .finished) none
  /-- It has to wait, and will look again. -/
  | again {p : DecodePoint} (h : p.looks = true) : Way stop p (some false) [] p none
  | flushed : Way stop .take (some false) [] (.leaving .finished) none
  | item {q : DecodePoint} (h : q.hasItem = true) : Way stop .take (some false) [.take] q none
  | slot (pts : Float) : Way stop (.place pts) (some false) [] (.convert pts) none
  /-- The codec has failed or died. -/
  | failed {p : DecodePoint} {seen : Option Bool} (how : Ending) (h : p.calls = true) :
      Way stop p seen [] (.leaving how) none
  | flush {seen : Option Bool} (start : Ticks) : Way stop (.flushCodec start) seen [] (.resetRing start) none
  | reset {seen : Option Bool} (start : Ticks) : Way stop (.resetRing start) seen [] .take none
  | send {seen : Option Bool} (p : Packet) : Way stop (.send p) seen [] .receive none
  | frame {seen : Option Bool} {q : DecodePoint} (h : q = .receive ∨ ∃ pts, q = .place pts) :
      Way stop .receive seen [] q none
  | done {seen : Option Bool} : Way stop .receive seen [] .take none
  | convert {seen : Option Bool} (pts : Float) : Way stop (.convert pts) seen [] (.commit pts) none
  | commit {seen : Option Bool} (pts : Float) : Way stop (.commit pts) seen [.commit] .receive none
  | leave {seen : Option Bool} (how : Ending) : Way stop (.leaving how) seen [] (.gone how) none
  | gone {seen : Option Bool} (how : Ending) : Way stop (.gone how) seen [] (.gone how) none

theorem Decoder.watch_way [VideoCodec K] (seen : Option Bool) (d : Deck) (w : Decoder K) :
    DecodePoint.Way d.stop w.point seen (w.deeds seen d) (w.watch seen d).2.1.point (w.watch seen d).2.2 := by
  -- only at these two points does the worker go by what it saw
  cases hp : w.point with
  | take =>
    match seen with
    | none =>
      simp only [watch, deeds, DecodePoint.looks, hp]
      exact .look rfl
    | some true =>
      simp only [watch, stepSeeing, step, deeds, DecodePoint.looks, hp]
      exact .stopped rfl
    | some false =>
      simp only [watch, stepSeeing, step, deeds, DecodePoint.looks, hp]
      cases (d.videoQueue.take false).1 with
      | item i => cases i <;> exact .item rfl
      | flushed | stopped => exact .flushed
      | nothing =>
        simp only [hp]
        exact .again rfl
  | place pts =>
    match seen with
    | none =>
      simp only [watch, deeds, DecodePoint.looks, hp]
      exact .look rfl
    | some true =>
      simp only [watch, stepSeeing, step, deeds, DecodePoint.looks, hp]
      exact .stopped rfl
    | some false =>
      simp only [watch, stepSeeing, step, deeds, DecodePoint.looks, hp]
      cases hs : d.ring.slotFor false with
      | free => exact .slot pts
      | wait =>
        simp only [hp]
        exact .again rfl
      | stopped =>
        simp only [PictureRing.slotFor, Bool.false_eq_true, if_false] at hs
        split at hs <;> cases hs
  | flushCodec start =>
    simp only [watch, step, deeds, DecodePoint.looks, hp]
    split
    · exact .failed _ rfl
    · exact .flush start
  | send p =>
    simp only [watch, step, deeds, DecodePoint.looks, hp]
    split
    · exact .send p
    · exact .failed _ rfl
    · exact .failed _ rfl
  | receive =>
    simp only [watch, step, deeds, DecodePoint.looks, hp]
    split
    · exact .frame (Decoder.advance_cases _ _).2
    · exact .done
    · exact .failed _ rfl
    · exact .failed _ rfl
  | convert pts =>
    simp only [watch, step, deeds, DecodePoint.looks, hp]
    split
    · exact .convert pts
    · exact .failed _ rfl
    · exact .failed _ rfl
  | resetRing start =>
    simp only [watch, step, deeds, DecodePoint.looks, hp]
    exact .reset start
  | commit pts =>
    simp only [watch, step, deeds, DecodePoint.looks, hp]
    exact .commit pts
  | leaving how =>
    simp only [watch, step, deeds, DecodePoint.looks, hp]
    exact .leave how
  | gone how =>
    simp only [watch, step, deeds, DecodePoint.looks, hp]
    exact .gone how

theorem Decoder.stop_step [VideoCodec K] (d : Deck) (w : Decoder K) :
    (w.step d).1.stop = (d.stop || w.point.isLeaving) := by
  cases hp : w.point with
  | take =>
    simp only [step, hp]
    split <;> exact (Bool.or_false _).symm
  | leaving how =>
    simp only [step, hp]
    exact (Bool.or_true _).symm
  | flushCodec start | send p | receive | place pts | convert pts =>
    simp only [step, hp]
    split <;> exact (Bool.or_false _).symm
  | _ =>
    simp only [step, hp]
    exact (Bool.or_false _).symm

theorem Session.stop_move [Container C K] [VideoCodec K] [AudioDecoder D] {x : Session C K D}
    (h : x.deck.stop = true) (now : Nat) (m : Move) : (x.move now m).deck.stop = true := by
  cases m with
  | demux =>
    change (x.demuxer.step now x.deck).1.stop = true
    rw [x.demuxer.stop_step, h, Bool.true_or]
  | decode =>
    simp only [Session.move, Session.decode]
    cases x.decoder with
    | none => exact h
    | some w =>
      change (w.step x.deck).1.stop = true
      rw [w.stop_step, h, Bool.true_or]
  | refresh master =>
    simp only [Session.move]
    split <;> exact h
  | beginClose => rfl
  | takeAudio | requestSeek target | setPaused on => exact h

theorem Decoder.stop_watch [VideoCodec K] (seen : Option Bool) (d : Deck) (w : Decoder K) :
    (w.watch seen d).1.stop = (d.stop || w.point.isLeaving) := by
  unfold watch
  cases hp : w.point.looks with
  | false => exact w.stop_step d
  | true =>
    rw [DecodePoint.isLeaving_of_looks hp]
    cases seen <;> exact (Bool.or_false _).symm

namespace DecodePoint

/-- How far it is from a place to the end of the loop once the flag is up, if the codec has no more frames. -/
def toGo : DecodePoint → (seen : Option Bool) → Nat
  | .gone _, _ => 0
  | .leaving _, _ => 1
  | .take, some true | .place _, some true => 2
  | .take, none | .place _, none => 3
  | .receive, _ | .resetRing _, _ => 4
  | .send _, _ | .flushCodec _, _ => 5
  | .commit _, _ => 6
  | .convert _, _ => 7
  | .take, some false | .place _, some false => 8

theorem gone_of_toGo {p : DecodePoint} {seen : Option Bool} (h : p.toGo seen = 0) : ∃ how, p = .gone how := by
  cases p with
  | gone how => exact ⟨how, rfl⟩
  | take | place pts => rcases seen with _ | _ | _ <;> cases h
  | _ => cases h

/-- With the flag up, a worker that has seen it down takes one item more or hands one picture in. -/
def workLeft (p : DecodePoint) (seen : Option Bool) : Nat := if 5 < p.toGo seen then 1 else 0

namespace Way

variable {p q : DecodePoint} {seen seen' : Option Bool} {ds : List Deed}

theorem gone_of {stop : Bool} {how : Ending} (h : Way stop p seen ds (.gone how) seen') :
    p.isLeaving = true ∨ p = .gone how := by
  cases h with
  | look h | again h => exact .inr rfl
  | item h => cases h
  | frame h => rcases h with h | ⟨_, h⟩ <;> cases h
  | leave => exact .inl rfl
  | gone => exact .inr rfl

theorem toGo_le (h : Way true p seen ds q seen') :
    q.toGo seen' ≤ p.toGo seen - 1 ∨ p = .receive ∧ q = .receive := by
  have looks {p : DecodePoint} (h : p.looks = true) :
      p.toGo (some true) = 2 ∧ p.toGo none = 3 ∧ p.toGo (some false) = 8 := by
    cases p with
    | take | place pts => exact ⟨rfl, rfl, rfl⟩
    | _ => cases h
  cases h with
  | look h | again h =>
    obtain ⟨h₁, h₂, h₃⟩ := looks h
    omega
  | stopped h =>
    obtain ⟨h₁, -, -⟩ := looks h
    rw [h₁]
    exact .inl (Nat.le_refl 1)
  | item h =>
    cases q with
    | send p | flushCodec start => exact .inl (by simp [toGo])
    | _ => cases h
  | failed how h =>
    cases p with
    | flushCodec start | send p | receive | convert pts => exact .inl (by simp [toGo])
    | _ => cases h
  | frame h =>
    rcases h with rfl | ⟨pts, rfl⟩
    · exact .inr ⟨rfl, rfl⟩
    · exact .inl (by simp [toGo])
  | _ => exact .inl (by simp [toGo])

/-- With the flag up, what the worker does is what it had left to do. -/
theorem workLeft_le (h : Way true p seen ds q seen') :
    ds.count .read = 0 ∧ ds.count .take + ds.count .commit + q.workLeft seen' ≤ p.workLeft seen := by
  have hle : ds = [] ∨ 5 < p.toGo seen ∧ q.toGo seen' ≤ 5 ∧ (ds = [.take] ∨ ds = [.commit]) := by
    cases h with
    | item h =>
      refine .inr ⟨by decide, ?_, .inl rfl⟩
      cases q with
      | send p | flushCodec start => exact Nat.le_refl _
      | _ => cases h
    | commit pts => exact .inr ⟨by simp [toGo], by simp [toGo], .inr rfl⟩
    | _ => exact .inl rfl
  have hdown := h.toGo_le
  unfold workLeft
  rcases hle with rfl | ⟨hp, hq, hds⟩
  · refine ⟨rfl, ?_⟩
    simp only [List.count_nil, Nat.zero_add]
    rcases hdown with hdown | ⟨rfl, rfl⟩
    · exact ahead_mono (Nat.le_trans hdown (Nat.sub_le _ _))
    · exact Nat.le_refl _
  · rw [if_pos hp, if_neg (Nat.not_lt.2 hq)]
    rcases hds with rfl | rfl <;> exact ⟨by decide, by decide⟩

end Way
end DecodePoint

theorem Decoder.isGone_iff (w : Decoder K) : w.isGone = true ↔ ∃ how, w.point = .gone how := by
  unfold isGone
  split
  · next how h => simp [h]
  · next h => exact ⟨nofun, fun ⟨how, hp⟩ => absurd hp (h how)⟩

/-! ## The session -/

theorem Player.update_stopped [AudioDecoder D] {p : Player C K D} {s : Session C K D} (hs : p.session = some s)
    (hstop : s.deck.stop = true) (now : Nat) : (p.update now).1.goesOn = false := by
  simp only [update, hs]
  split <;> simp [Session.goesOn, Session.refresh, Session.withDeck, hstop]

namespace Watched

variable [Container C K] [VideoCodec K] [AudioDecoder D] {x : Watched C K D} {w : Decoder K}

omit [Container C K] [AudioDecoder D] in
theorem decode_of_decoder (hw : x.session.decoder = some w) :
    x.decode =
      ⟨{ x.session with
          deck := (w.watch x.seen x.session.deck).1
          decoder := some (w.watch x.seen x.session.deck).2.1 },
        (w.watch x.seen x.session.deck).2.2⟩ := by
  unfold decode
  rw [hw]

omit [Container C K] [AudioDecoder D] in
theorem decode_of_none (hw : x.session.decoder = none) : x.decode = x := by
  unfold decode
  rw [hw]

theorem stop_act (h : x.session.deck.stop = true) (now : Nat) (a : Action) :
    (x.act now a).session.deck.stop = true := by
  cases a with
  | decode =>
    change x.decode.session.deck.stop = true
    cases hw : x.session.decoder with
    | none =>
      rw [decode_of_none hw]
      exact h
    | some w =>
      rw [decode_of_decoder hw]
      simp only [w.stop_watch, h, Bool.true_or]
  | move m hm =>
    change (x.session.move now m).deck.stop = true
    cases m with
    | demux =>
      change (x.session.demuxer.step now x.session.deck).1.stop = true
      rw [x.session.demuxer.stop_step, h, Bool.true_or]
    | decode => exact absurd rfl hm
    | refresh master =>
      simp only [Session.move]
      split <;> exact h
    | beginClose => rfl
    | takeAudio | requestSeek target | setPaused on => exact h
  | stop => rfl
  | flush lane => cases lane <;> exact h

theorem stop_run (h : x.session.deck.stop = true) (actions : List (Nat × Action)) :
    (x.run actions).session.deck.stop = true := by
  induction actions generalizing x with
  | nil => exact h
  | cons a actions ih => exact ih (stop_act h a.1 a.2)

structure Told (x : Watched C K D) : Prop where
  demuxer : x.session.demuxer.isGone = true → x.session.deck.stop = true
  decoder : ∀ w ∈ x.session.decoder, w.isGone = true → x.session.deck.stop = true

theorem Told.act (h : x.Told) (now : Nat) (a : Action) : (x.act now a).Told := by
  by_cases hstop : x.session.deck.stop = true
  · exact ⟨fun _ => stop_act hstop now a, fun _ _ _ => stop_act hstop now a⟩
  have hdemuxer : ¬ x.session.demuxer.isGone = true := fun hg => hstop (h.demuxer hg)
  cases a with
  | decode =>
    change x.decode.Told
    cases hw : x.session.decoder with
    | none =>
      rw [decode_of_none hw]
      exact h
    | some w =>
      rw [decode_of_decoder hw]
      refine ⟨fun hg => absurd hg hdemuxer, fun v hv hg => ?_⟩
      cases hv
      obtain ⟨how, hp⟩ := (Decoder.isGone_iff _).1 hg
      have way := w.watch_way x.seen x.session.deck
      rw [hp] at way
      rcases way.gone_of with hl | hp
      · simp only [w.stop_watch, hl, Bool.or_true]
      · exact absurd (h.decoder w hw (w.isGone_iff.2 ⟨how, hp⟩)) hstop
  | move m hm =>
    have hdecoder : (x.session.move now m).decoder = x.session.decoder := x.session.decoder_move now hm
    refine ⟨fun hg => ?_, fun v hv hg => ?_⟩
    · change (x.session.move now m).demuxer.isGone = true at hg
      change (x.session.move now m).deck.stop = true
      by_cases hd : m = .demux
      · subst hd
        change (x.session.demuxer.step now x.session.deck).2.1.isGone = true at hg
        change (x.session.demuxer.step now x.session.deck).1.stop = true
        obtain ⟨-, hon⟩ := x.session.demuxer.toGo_step now x.session.deck
        have hz := (Demuxer.isGone_iff _).1 hg
        have hnz : x.session.demuxer.point.toGo ≠ 0 := fun hc => hdemuxer (x.session.demuxer.isGone_iff.2 hc)
        have hone : x.session.demuxer.point.toGo = 1 := by
          by_cases hlt : 1 < x.session.demuxer.point.toGo
          · have := (hon hlt).1
            omega
          · omega
        rw [x.session.demuxer.stop_step, hone]
        exact Bool.or_true _
      · rw [(x.session.move_slot now hd).1] at hg
        exact absurd hg hdemuxer
    · change v ∈ (x.session.move now m).decoder at hv
      rw [hdecoder] at hv
      exact absurd (h.decoder v hv hg) hstop
  | stop => exact ⟨fun _ => rfl, fun _ _ _ => rfl⟩
  | flush lane => cases lane <;> exact ⟨fun hg => absurd hg hdemuxer, h.decoder⟩

theorem Told.run (h : x.Told) (actions : List (Nat × Action)) : (x.run actions).Told := by
  induction actions generalizing x with
  | nil => exact h
  | cons a actions ih => exact ih (h.act a.1 a.2)

omit [VideoCodec K] [AudioDecoder D] in
theorem told_start (now : Nat) (config : Config) (container : C) (audio : Option (StreamInfo × D))
    (video : Option (StreamInfo × K)) :
    ({ session := Player.sessionOf now config container audio video } : Watched C K D).Told := by
  refine ⟨nofun, fun w hw hg => ?_⟩
  obtain ⟨v, -, rfl⟩ := Option.map_eq_some_iff.1 hw
  cases hg

/-! ### What is still done -/

def readsLeft (x : Watched C K D) : Nat := x.session.demuxer.point.readsLeft

def workLeft (x : Watched C K D) : Nat := x.session.decoder.elim 0 (·.point.workLeft x.seen)

theorem left_act (hstop : x.session.deck.stop = true) (now : Nat) (a : Action) :
    (x.deed a).count .read + (x.act now a).readsLeft ≤ x.readsLeft ∧
      (x.deed a).count .take + (x.deed a).count .commit + (x.act now a).workLeft ≤ x.workLeft := by
  cases a with
  | decode =>
    change (x.session.decoder.elim [] (·.deeds x.seen x.session.deck)).count .read + x.decode.readsLeft ≤ _ ∧
      (x.session.decoder.elim [] (·.deeds x.seen x.session.deck)).count .take +
        (x.session.decoder.elim [] (·.deeds x.seen x.session.deck)).count .commit + x.decode.workLeft ≤ _
    cases hw : x.session.decoder with
    | none =>
      rw [decode_of_none hw]
      simp
    | some w =>
      have way := w.watch_way x.seen x.session.deck
      rw [hstop] at way
      obtain ⟨hread, hwork⟩ := way.workLeft_le
      rw [decode_of_decoder hw]
      simp only [Option.elim_some, readsLeft, workLeft, hw, hread, Nat.zero_add]
      exact ⟨Nat.le_refl _, hwork⟩
  | move m hm =>
    have hdecoder : (x.session.move now m).decoder = x.session.decoder := x.session.decoder_move now hm
    have hwork : (x.act now (.move m hm)).workLeft = x.workLeft := by
      change (x.session.move now m).decoder.elim 0 _ = _
      rw [hdecoder]
      rfl
    rw [hwork]
    by_cases hd : m = .demux
    · subst hd
      have hreads := x.session.demuxer.readsLeft_step now hstop
      have hdeeds : x.session.demuxer.deeds.count .take = 0 ∧ x.session.demuxer.deeds.count .commit = 0 := by
        unfold Demuxer.deeds
        split <;> exact ⟨rfl, rfl⟩
      refine ⟨hreads, ?_⟩
      change x.session.demuxer.deeds.count .take + x.session.demuxer.deeds.count .commit + _ ≤ _
      omega
    · have hdeed : x.deed (.move m hm) = [] := by
        cases m with
        | demux => exact absurd rfl hd
        | _ => rfl
      have hreads : (x.act now (.move m hm)).readsLeft = x.readsLeft :=
        congrArg (fun w : Demuxer C => w.point.readsLeft) (x.session.move_slot now hd).1
      rw [hdeed, hreads]
      simp
  | stop => simp [deed, act, withDeck, Session.withDeck, readsLeft, workLeft]
  | flush lane => cases lane <;> simp [deed, act, withDeck, Session.withDeck, readsLeft, workLeft]

/-- **What is done once the flag is up is what was left to do.** -/
theorem left_run (hstop : x.session.deck.stop = true) (actions : List (Nat × Action)) :
    (x.deeds actions).count .read ≤ x.readsLeft ∧
      (x.deeds actions).count .take + (x.deeds actions).count .commit ≤ x.workLeft := by
  induction actions generalizing x with
  | nil => exact ⟨Nat.zero_le _, Nat.zero_le _⟩
  | cons a actions ih =>
    obtain ⟨hreads, hwork⟩ := left_act hstop a.1 a.2
    obtain ⟨hreads', hwork'⟩ := ih (stop_act hstop a.1 a.2)
    simp only [deeds, List.count_append]
    omega

omit [Container C K] [VideoCodec K] [AudioDecoder D] in
theorem left_le_one (x : Watched C K D) : x.readsLeft ≤ 1 ∧ x.workLeft ≤ 1 := by
  constructor
  · unfold readsLeft DemuxPoint.readsLeft
    split <;> decide
  · unfold workLeft
    cases x.session.decoder with
    | none => exact Nat.zero_le 1
    | some w =>
      simp only [Option.elim_some, DecodePoint.workLeft]
      split <;> decide

/-! ### A worker on its own -/

def demuxes (instants : List Nat) : List (Nat × Action) := instants.map (fun now => (now, .move .demux nofun))

def decodes (instants : List Nat) : List (Nat × Action) := instants.map (fun now => (now, .decode))

theorem toGo_demuxes (hstop : x.session.deck.stop = true) (instants : List Nat) :
    (x.run (demuxes instants)).session.demuxer.point.toGo ≤ x.session.demuxer.point.toGo - instants.length := by
  induction instants generalizing x with
  | nil => exact Nat.le_refl _
  | cons now instants ih =>
    have hle := x.session.demuxer.toGo_step_le now hstop
    have hrest := ih (stop_act hstop now (.move .demux nofun))
    change _ ≤ (x.session.demuxer.step now x.session.deck).2.1.point.toGo - instants.length at hrest
    refine Nat.le_trans hrest ?_
    rw [List.length_cons]
    omega

def Ends (x : Watched C K D) : Prop :=
  ∃ steps, ∀ instants : List Nat, steps ≤ instants.length →
    (x.run (decodes instants)).session.decoder.all (·.isGone) = true

theorem Ends.of_decode (h : x.decode.Ends) : x.Ends := by
  obtain ⟨steps, hsteps⟩ := h
  refine ⟨steps + 1, fun instants hlen => ?_⟩
  cases instants with
  | nil => cases hlen
  | cons now instants => exact hsteps instants (Nat.le_of_succ_le_succ hlen)

omit [Container C K] [AudioDecoder D] in
theorem over_decode (h : x.session.decoder.all (·.isGone) = true) :
    x.decode.session.decoder.all (·.isGone) = true := by
  cases hw : x.session.decoder with
  | none => rwa [decode_of_none hw]
  | some w =>
    rw [hw] at h
    obtain ⟨how, hp⟩ := w.isGone_iff.1 h
    simp [decode_of_decoder hw, Decoder.watch, Decoder.step, DecodePoint.looks, Decoder.isGone, hp]

theorem ends_of_over (h : x.session.decoder.all (·.isGone) = true) : x.Ends := by
  refine ⟨0, fun instants _ => ?_⟩
  induction instants generalizing x with
  | nil => exact h
  | cons now instants ih => exact ih (over_decode h) (Nat.zero_le _)

omit [Container C K] [AudioDecoder D] in
theorem receive_of_watch {seen : Option Bool} {d : Deck} (hp : w.point = .receive)
    (hq : (w.watch seen d).2.1.point = .receive) :
    ∃ f, VideoCodec.receive w.codec = (.ok (some f), (w.watch seen d).2.1.codec) := by
  simp only [Decoder.watch, Decoder.step, DecodePoint.looks, hp] at hq ⊢
  split at hq
  · next f k hr =>
    refine ⟨f, ?_⟩
    rw [hr, (Decoder.advance_cases _ f).1]
  · cases hq
  · cases hq
  · cases hq

/-- The worker comes nearer to the end with every action, unless it receives one more frame that it skips. -/
theorem ends_of_stop (finite : WellFounded (fun k' k : K => ∃ f, VideoCodec.receive k = (.ok (some f), k')))
    (hstop : x.session.deck.stop = true) : x.Ends := by
  cases hw : x.session.decoder with
  | none => exact ends_of_over (by rw [hw]; rfl)
  | some w =>
    -- on the places to go, and within that on the frames of the codec: one that is skipped leads back to where it was
    induction hn : w.point.toGo x.seen using Nat.strongRecOn generalizing x w with
    | ind n nearer =>
      induction hk : w.codec using finite.induction generalizing x w with
      | h k fewer =>
        have way := w.watch_way x.seen x.session.deck
        rw [hstop] at way
        have stopped : x.decode.session.deck.stop = true := stop_act hstop 0 .decode
        have decoder : x.decode.session.decoder = some (w.watch x.seen x.session.deck).2.1 := by
          rw [decode_of_decoder hw]
        have seen : x.decode.seen = (w.watch x.seen x.session.deck).2.2 := by rw [decode_of_decoder hw]
        rw [← seen] at way
        rcases way.toGo_le with hle | ⟨hp, hq⟩
        · cases hz : n with
          | zero =>
            obtain ⟨how, hp⟩ := DecodePoint.gone_of_toGo (hn.trans hz)
            exact ends_of_over (by rw [hw]; exact w.isGone_iff.2 ⟨how, hp⟩)
          | succ n' => exact .of_decode (nearer _ (by omega) stopped _ decoder rfl)
        · obtain ⟨f, hr⟩ := receive_of_watch hp hq
          rw [hk] at hr
          have same : (w.watch x.seen x.session.deck).2.1.point.toGo x.decode.seen = n := by
            rw [← hn, hp, hq]
            rfl
          exact .of_decode (fewer _ ⟨f, hr⟩ stopped _ decoder same rfl)

/-! ### The moves of a session are such actions -/

omit [Container C K] [AudioDecoder D] in
theorem stepSeeing_eq (d : Deck) (hp : w.point.looks = true) :
    w.stepSeeing d.stop d = ((w.step d).1, (w.step d).2.1) := by
  have hstop : (w.step d).1.stop = d.stop := by
    rw [w.stop_step, DecodePoint.isLeaving_of_looks hp, Bool.or_false]
  change ({ (w.step d).1 with stop := d.stop }, (w.step d).2.1) = _
  rw [← hstop]

theorem decodes_of_decode (s : Session C K D) :
    ∃ instants ≠ [], ({ session := s } : Watched C K D).run (decodes instants) = { session := s.decode.1 } := by
  cases hw : s.decoder with
  | none =>
    refine ⟨[0], List.cons_ne_nil _ _, ?_⟩
    change decode _ = _
    rw [decode_of_none hw]
    simp only [Session.decode, hw]
  | some w =>
    have first := decode_of_decoder (x := { session := s }) hw
    cases hp : w.point.looks with
    | false =>
      refine ⟨[0], List.cons_ne_nil _ _, ?_⟩
      change decode _ = _
      rw [first]
      simp only [Decoder.watch, hp, Session.decode, hw]
    | true =>
      have looked : ({ session := s } : Watched C K D).decode = { session := s, seen := some s.deck.stop } := by
        rw [first]
        simp only [Decoder.watch, hp, ← hw]
      have second := decode_of_decoder (x := { session := s, seen := some s.deck.stop }) hw
      refine ⟨[0, 0], List.cons_ne_nil _ _, ?_⟩
      change decode (decode _) = _
      rw [looked, second]
      simp only [Decoder.watch, hp, stepSeeing_eq s.deck hp, Session.decode, hw]

/-- **Every run of moves is a run of actions.** -/
theorem run_of_moves (s : Session C K D) (moves : List (Nat × Move)) :
    ∃ actions, ({ session := s } : Watched C K D).run actions = { session := s.run moves } := by
  induction moves generalizing s with
  | nil => exact ⟨[], rfl⟩
  | cons m moves ih =>
    obtain ⟨rest, hrest⟩ := ih (s.move m.1 m.2)
    by_cases hm : m.2 = .decode
    · obtain ⟨instants, -, hrun⟩ := decodes_of_decode s
      refine ⟨decodes instants ++ rest, ?_⟩
      rw [hm] at hrest
      rw [run_append, hrun, Session.run_cons, hm]
      exact hrest
    · exact ⟨(m.1, .move m.2 hm) :: rest, hrest⟩

/-! ### What a host can rely on -/

/-- **One worker that ends, or the host, brings both workers to their end.**  In every run, in which the decode worker
may be late with what it saw of the flag: a worker that is over has raised the flag.  Once it is up it stays up, every
update tells the host that there is no more to come, and whoever comes in between, the demuxer reads once more at most,
and the decode worker takes one item more or hands one picture in, and not both.  And each worker leaves its loop
without the help of anybody, the demuxer after nineteen actions at most, the decode worker when the codec has no more
frames. -/
theorem workers_unwind (now : Nat) (config : Config) (container : C) (audio : Option (StreamInfo × D))
    (video : Option (StreamInfo × K)) (actions : List (Nat × Action)) :
    let start : Session C K D := Player.sessionOf now config container audio video
    let x := run { session := start } actions
    (∀ moves, ∃ actions, run { session := start } actions = { session := start.run moves }) ∧
    (x.session.demuxer.isGone = true ∨ (∃ w ∈ x.session.decoder, w.isGone = true) → x.session.deck.stop = true) ∧
    (x.session.deck.stop = true →
      (∀ later, let y := x.run later
        y.session.deck.stop = true ∧
        (∀ (p : Player C K D) (at_ : Nat), p.session = some y.session → (p.update at_).1.goesOn = false) ∧
        (x.deeds later).count .read ≤ 1 ∧ (x.deeds later).count .take + (x.deeds later).count .commit ≤ 1) ∧
      (∀ instants : List Nat, 19 ≤ instants.length → (x.run (demuxes instants)).session.demuxer.isGone = true) ∧
      (WellFounded (fun k' k : K => ∃ f, VideoCodec.receive k = (.ok (some f), k')) →
        ∃ steps, ∀ instants : List Nat, steps ≤ instants.length →
          (x.run (decodes instants)).session.decoder.all (·.isGone) = true)) := by
  intro start x
  have told : x.Told := (told_start now config container audio video).run actions
  refine ⟨run_of_moves start, ?_, fun hstop => ⟨fun later => ?_, fun instants hlen => ?_, fun finite => ?_⟩⟩
  · rintro (hg | ⟨w, hw, hg⟩)
    · exact told.demuxer hg
    · exact told.decoder w hw hg
  · intro y
    have stopped : y.session.deck.stop = true := stop_run hstop later
    obtain ⟨hreads, hwork⟩ := left_run hstop later
    obtain ⟨hreads', hwork'⟩ := x.left_le_one
    exact ⟨stopped, fun p at_ hp => Player.update_stopped hp stopped at_, Nat.le_trans hreads hreads',
      Nat.le_trans hwork hwork'⟩
  · have hle := toGo_demuxes hstop instants
    have hmost := x.session.demuxer.point.toGo_le
    exact (Demuxer.isGone_iff _).2 (by omega)
  · exact ends_of_stop finite hstop

theorem receive_finite :
    WellFounded (fun k' k : Script.Codec => ∃ f, VideoCodec.receive k = (.ok (some f), k')) := by
  refine Subrelation.wf (fun {k' k} h => ?_) (measure (fun k : Script.Codec => k.pending.length)).wf
  obtain ⟨f, hr⟩ := h
  change k.receive = (.ok (some f), k') at hr
  change k'.pending.length < k.pending.length
  unfold Script.Codec.receive at hr
  split at hr
  · cases hr
  · next hp =>
    cases hr
    rw [hp]
    exact Nat.lt_succ_self _
  · cases hr
  · cases hr

/-- The flag is raised after the decode worker, with a picture in its hands, has looked at it, and found the ring
full. -/
theorem workers_unwind_full_ring :
    let source : Script.Source := { items := #[.sample { size := 4, yields := [.frame {}, .frame {}] }] }
    let start : Session Script.Source Script.Codec Empty :=
      Player.sessionOf 0 { pictureCapacity := 1 } source none (some ({ kind := .video }, { items := source.items }))
    let x := run { session := start } (demuxes (List.replicate 8 0) ++ decodes (List.replicate 10 0) ++ [(0, .stop)])
    (x.session.deck.stop = true ∧ x.seen = some false ∧ x.session.deck.ring.isFull = true) ∧
      ∃ steps, ∀ instants : List Nat, steps ≤ instants.length →
        (x.run (decodes instants)).session.decoder.all (·.isGone) = true := by
  intro source start x
  have before : x.session.deck.stop = true ∧ x.seen = some false ∧ x.session.deck.ring.isFull = true := by
    decide +kernel
  obtain ⟨-, -, unwind⟩ := workers_unwind (D := Empty) 0 { pictureCapacity := 1 } source none
    (some ({ kind := .video }, { items := source.items }))
    (demuxes (List.replicate 8 0) ++ decodes (List.replicate 10 0) ++ [(0, .stop)])
  exact ⟨before, (unwind before.1).2.2 receive_finite⟩

end Watched

end Playhead
