import Playhead.Lockstep
import Playhead.Proofs.EndOfMedium
/-!
# HostRuns — what a host does to a session is a run

The laws of a session are proved for every order of its moves.  A host does not make moves: it updates, seeks and
pauses, and the player without threads lets the workers take turns in between.  All of this comes down to moves
(`Player.update_reaches` and its kin, `Lockstep.round_runs`), and so the laws of a run hold of it
(`Lockstep.law_after`).
-/
namespace Playhead

variable {C K D : Type} [Container C K] [VideoCodec K] [AudioDecoder D]

def Session.Reaches (s t : Session C K D) : Prop := ∃ moves, s.run moves = t

namespace Session.Reaches

variable {s t u : Session C K D}

theorem refl (s : Session C K D) : s.Reaches s := ⟨[], rfl⟩

theorem move (s : Session C K D) (now : Nat) (m : Move) : s.Reaches (s.move now m) := ⟨[(now, m)], rfl⟩

theorem trans (h : s.Reaches t) (h' : t.Reaches u) : s.Reaches u := by
  obtain ⟨moves, rfl⟩ := h
  obtain ⟨moves', rfl⟩ := h'
  exact ⟨moves ++ moves', s.run_append moves moves'⟩

end Session.Reaches

/-! ## The calls of a host -/

omit [AudioDecoder D] in
/-- A session gets its threads and begins, or it never does. -/
theorem Session.launch_cases (threads : Threads) (now steps : Nat) (s : Session C K D) :
    (∃ e, (s.launch threads now steps).1 = .error e) ∨ s.launch threads now steps = (.ok (), s, []) := by
  unfold launch
  split
  · exact .inl ⟨_, rfl⟩
  · exact .inl ⟨_, rfl⟩
  · exact .inr rfl

namespace Player

variable {p : Player C K D} {s : Session C K D}

omit [AudioDecoder D] in
theorem host_close (now : Nat) (p : Player C K D) : (p.close now).1.host = p.host := by
  unfold close
  split <;> rfl

omit [AudioDecoder D] in
/-- What was played before is ended in any case.  The new medium is played from its start, or nothing is played. -/
theorem attachOn_cases (threads : Threads) (now : Nat) (container : C) (p : Player C K D) :
    let audio := (openAudio p.host (Container.streams container)).1
    let video := openVideo container
    let r := p.attachOn threads now container
    (∃ e, r.1 = .error e ∧ r.2.1 = (p.close now).1) ∨
      (r.1 = .ok () ∧ (video.isSome = true ∨ audio.isSome = true) ∧
        r.2.1 = { (p.close now).1 with
          session := some (sessionOf now p.host.config container audio video)
          state := .opened }) := by
  intro audio video r
  have played : ¬ (video.isNone && audio.isNone) = true → video.isSome = true ∨ audio.isSome = true := by
    cases video <;> cases audio <;> simp
  have launched := (sessionOf now p.host.config container (openAudio p.host (Container.streams container)).1
    (openVideo container)).launch_cases threads now joinSteps
  simp only [r, attachOn, p.host_close now]
  split
  · exact .inl ⟨_, rfl, rfl⟩
  · split
    · exact .inl ⟨_, rfl, rfl⟩
    · next hn =>
      split
      · exact .inl ⟨_, rfl, rfl⟩
      · next hl =>
        rcases launched with ⟨e, he⟩ | hok
        · rw [hl] at he
          cases he
        · rw [hl] at hok
          cases hok
          exact .inr ⟨rfl, played hn, rfl⟩

omit [AudioDecoder D] in
/-- A medium that can be played is played from the start. -/
theorem session_of_attach {now : Nat} {container : C} (h : (p.attach now container).1 = .ok ()) :
    (p.attach now container).2.1.session =
      some (sessionOf now p.host.config container (openAudio p.host (Container.streams container)).1
        (openVideo container)) := by
  rcases p.attachOn_cases {} now container with ⟨e, he, -⟩ | ⟨-, -, hp⟩
  · rw [attach, he] at h
    cases h
  · rw [attach, hp]

theorem update_reaches (h : p.session = some s) (now : Nat) :
    ∃ t, (p.update now).2.session = some t ∧ s.Reaches t := by
  refine ⟨s.move now (.refresh (s.masterReading now)), ?_, .move s now _⟩
  unfold update
  rw [h]
  by_cases hp : s.deck.paused = true
  · simp [Session.move, hp]
  · simp [Session.move, hp]

theorem seekTo_reaches (h : p.session = some s) (time : Float) :
    ∃ t, (p.seekTo time).session = some t ∧ s.Reaches t := by
  refine ⟨s.move 0 (.requestSeek (clampTarget time s.deck.duration)), ?_, .move s 0 _⟩
  unfold seekTo
  rw [h]
  rfl

theorem setPaused_reaches (h : p.session = some s) (now : Nat) (on : Bool) :
    ∃ t, (p.setPaused now on).1.session = some t ∧ s.Reaches t := by
  refine ⟨s.move now (.setPaused on), ?_, .move s now _⟩
  unfold setPaused
  rw [h]
  rfl

end Player

/-! ## The turns of the workers -/

namespace Session

def withDemuxer (s : Session C K D) (d : Deck) (w : Demuxer C) : Session C K D := { s with deck := d, demuxer := w }

def withDecoder (s : Session C K D) (d : Deck) (w : Decoder K) : Session C K D :=
  { s with deck := d, decoder := some w }

theorem step_reaches (s : Session C K D) (now : Nat) (d : Deck) (w : Demuxer C) :
    (s.withDemuxer d w).Reaches (s.withDemuxer (w.step now d).1 (w.step now d).2.1) :=
  .move (s.withDemuxer d w) now .demux

theorem toRest_reaches (s : Session C K D) (now steps : Nat) (d : Deck) (w : Demuxer C) :
    (s.withDemuxer d w).Reaches (s.withDemuxer (w.toRest now steps d).1 (w.toRest now steps d).2.1) := by
  induction steps generalizing d w with
  | zero => exact .refl _
  | succ steps ih =>
    unfold Demuxer.toRest
    split
    · exact .refl _
    · exact (s.step_reaches now d w).trans (ih _ _)

theorem turn_reaches (s : Session C K D) (now : Nat) (d : Deck) (w : Demuxer C) :
    (s.withDemuxer d w).Reaches (s.withDemuxer (w.turn now d).1 (w.turn now d).2.1) := by
  have entered : (s.withDemuxer d w).Reaches (s.withDemuxer d (w.entered d)) := by
    cases hp : w.point with
    | start =>
      have hstep := s.step_reaches now d w
      simp only [Demuxer.step, hp] at hstep
      simp only [Demuxer.entered, hp]
      exact hstep
    | _ =>
      simp only [Demuxer.entered, hp]
      exact .refl _
  have stepped := entered.trans (s.step_reaches now d (w.entered d))
  unfold Demuxer.turn
  generalize Demuxer.passBound = steps
  exact stepped.trans (s.toRest_reaches now steps _ _)

theorem decode_reaches (s : Session C K D) (d : Deck) (w : Decoder K) :
    (s.withDecoder d w).Reaches (s.withDecoder (w.step d).1 (w.step d).2.1) :=
  .move (s.withDecoder d w) 0 .decode

end Session

namespace Lockstep

theorem demuxOn_reaches (s : Session C K D) (now turns : Nat) (moved : Bool) (d : Deck) (w : Demuxer C)
    (noticed : List Event) :
    (s.withDemuxer d w).Reaches
      (s.withDemuxer (demuxOn now turns moved d w noticed).deck (demuxOn now turns moved d w noticed).worker) := by
  induction turns generalizing moved d w noticed with
  | zero => exact .refl _
  | succ turns ih =>
    have turn := s.turn_reaches now d w
    unfold demuxOn
    split
    · exact .refl _
    · simp only
      split
      · exact turn.trans (ih _ _ _ _)
      · exact turn

theorem decodeOn_reaches (s : Session C K D) (steps : Nat) (moved : Bool) (d : Deck) (w : Decoder K)
    (noticed : List Event) :
    (s.withDecoder d w).Reaches
      (s.withDecoder (decodeOn steps moved d w noticed).deck (decodeOn steps moved d w noticed).worker) := by
  induction steps generalizing moved d w noticed with
  | zero => exact .refl _
  | succ steps ih =>
    unfold decodeOn
    split
    · exact .refl _
    · exact (s.decode_reaches d w).trans (ih _ _ _ _)

/-- What happens to the session of a player is a run of it. -/
def Runs (l l' : Lockstep C K D) : Prop :=
  ∀ s, l.player.session = some s → ∃ t, l'.player.session = some t ∧ s.Reaches t

theorem Runs.refl (l : Lockstep C K D) : l.Runs l := fun s h => ⟨s, h, .refl s⟩

theorem Runs.trans {l l' l'' : Lockstep C K D} (h : l.Runs l') (h' : l'.Runs l'') : l.Runs l'' := by
  intro s hs
  obtain ⟨t, ht, hst⟩ := h s hs
  obtain ⟨u, hu, htu⟩ := h' t ht
  exact ⟨u, hu, hst.trans htu⟩

/-- **A round is a run.** -/
theorem round_runs (l : Lockstep C K D) : l.Runs l.round.2 := by
  intro s hs
  have read := demuxOn_reaches s l.now bound false s.deck s.demuxer l.noticed
  unfold round
  rw [hs]
  simp only
  cases hw : s.decoder with
  | none =>
    refine ⟨_, rfl, ?_⟩
    rw [← hw]
    exact read
  | some w =>
    generalize demuxOn l.now bound false s.deck s.demuxer l.noticed = r at read
    have decoded := decodeOn_reaches (s.withDemuxer r.deck r.worker) bound r.moved r.deck w r.noticed
    have hsame : (s.withDemuxer r.deck r.worker).withDecoder r.deck w = s.withDemuxer r.deck r.worker := by
      simp only [Session.withDecoder, Session.withDemuxer, hw]
    rw [hsame] at decoded
    exact ⟨_, rfl, read.trans decoded⟩

theorem settle_runs (l : Lockstep C K D) (rounds : Nat) : l.Runs (l.settle rounds) := by
  induction rounds generalizing l with
  | zero => exact .refl l
  | succ rounds ih =>
    unfold settle
    simp only
    split
    · exact l.round_runs.trans (ih _)
    · exact l.round_runs

theorem pass_runs (l : Lockstep C K D) : l.Runs l.pass := l.round_runs

theorem update_runs (l : Lockstep C K D) : l.Runs l.update.2 := fun _ hs => Player.update_reaches hs l.now

theorem seekTo_runs (l : Lockstep C K D) (time : Float) : l.Runs (l.seekTo time) :=
  fun _ hs => Player.seekTo_reaches hs time

theorem setPaused_runs (l : Lockstep C K D) (on : Bool) : l.Runs (l.setPaused on) :=
  fun _ hs => Player.setPaused_reaches hs l.now on

theorem showOn_runs (l : Lockstep C K D) (rounds count : Nat) (shown : List Picture) :
    l.Runs (l.showOn rounds count shown).2 := by
  induction rounds generalizing l count shown with
  | zero => cases count <;> exact .refl l
  | succ rounds ih =>
    cases count with
    | zero => exact .refl l
    | succ count =>
      have next := l.update_runs.trans l.update.2.pass_runs
      unfold showOn
      simp only
      split
      · exact next.trans (ih _ _ _)
      · split
        · exact l.update_runs
        · exact next.trans (ih _ _ _)

theorem showOut_runs (l : Lockstep C K D) (rounds : Nat) (shown : List Picture) :
    l.Runs (l.showOut rounds shown).2 := by
  induction rounds generalizing l shown with
  | zero => exact .refl l
  | succ rounds ih =>
    unfold showOut
    simp only
    split
    · exact (l.update_runs.trans l.update.2.pass_runs).trans (ih _ _)
    · exact l.update_runs

theorem askForAudio_runs (l : Lockstep C K D) (rounds : Nat) : l.Runs (l.askForAudio rounds).2 := by
  induction rounds generalizing l with
  | zero => exact .refl l
  | succ rounds ih =>
    unfold askForAudio
    cases hs : l.player.session with
    | none => exact .refl l
    | some s =>
      simp only
      split
      · exact .refl l
      · have took : l.Runs (l.withSession s.takeAudio.2) := by
          intro s' hs'
          rw [hs] at hs'
          cases hs'
          exact ⟨_, rfl, .move s l.now .takeAudio⟩
        split
        · next s' ht =>
          rw [ht] at took
          exact (took.trans (pass_runs _)).trans (ih _)
        · next taken s' _ ht =>
          rw [ht] at took
          exact took

/-- What the host of a player without threads does while a medium is played. -/
inductive Use
  | settle (rounds : Nat)
  | update
  | seekTo (time : Float)
  | setPaused (on : Bool)
  | showOn (rounds count : Nat)
  | showOut (rounds : Nat)
  | askForAudio (rounds : Nat)

def use (l : Lockstep C K D) : Use → Lockstep C K D
  | .settle rounds => l.settle rounds
  | .update => l.update.2
  | .seekTo time => l.seekTo time
  | .setPaused on => l.setPaused on
  | .showOn rounds count => (l.showOn rounds count []).2
  | .showOut rounds => (l.showOut rounds []).2
  | .askForAudio rounds => (l.askForAudio rounds).2

def after (l : Lockstep C K D) (uses : List Use) : Lockstep C K D := uses.foldl use l

theorem use_runs (l : Lockstep C K D) (u : Use) : l.Runs (l.use u) := by
  cases u with
  | settle rounds => exact l.settle_runs rounds
  | update => exact l.update_runs
  | seekTo time => exact l.seekTo_runs time
  | setPaused on => exact l.setPaused_runs on
  | showOn rounds count => exact l.showOn_runs rounds count []
  | showOut rounds => exact l.showOut_runs rounds []
  | askForAudio rounds => exact l.askForAudio_runs rounds

theorem after_runs (l : Lockstep C K D) (uses : List Use) : l.Runs (l.after uses) := by
  induction uses generalizing l with
  | nil => exact .refl l
  | cons u uses ih => exact (l.use_runs u).trans (ih (l.use u))

variable {l : Lockstep C K D} {container : C}

/-- **What holds in every run of a session holds whatever the host does.** -/
theorem law_after {P : Session C K D → Prop} (attached : (l.attach container).1 = .ok ())
    (law : ∀ audio video moves,
      P ((Player.sessionOf l.now l.player.host.config container audio video : Session C K D).run moves))
    (uses : List Use) : ∃ s, ((l.attach container).2.after uses).player.session = some s ∧ P s := by
  have same : l.keep.now = l.now ∧ l.keep.player = l.player := by
    unfold keep
    split <;> exact ⟨rfl, rfl⟩
  have played : (l.player.attach l.now container).1 = .ok () := by
    rw [← same.1, ← same.2]
    exact attached
  have opened : (l.attach container).2.player.session = (l.player.attach l.now container).2.1.session := by
    rw [← same.1, ← same.2]
    rfl
  rw [Player.session_of_attach played] at opened
  obtain ⟨s, hs, moves, rfl⟩ := after_runs _ uses _ opened
  exact ⟨_, hs, law _ _ moves⟩

/-- **A player says that the medium has ended only when nothing is left to come**: no packet, no picture and no seek. -/
theorem nothing_left_of_isEnded (attached : (l.attach container).1 = .ok ()) (uses : List Use) :
    let p := ((l.attach container).2.after uses).player
    p.isEnded = true → p.isSeekPending = false ∧
      p.buffers.videoPackets = 0 ∧ p.buffers.audioPackets = 0 ∧ p.buffers.pictures = 0 := by
  intro p ended
  obtain ⟨s, hs, lawful⟩ := law_after attached (fun audio video moves =>
    Session.endLawful_run l.now l.player.host.config container audio video moves) uses
  have hp : p.session = some s := hs
  rw [Player.isEnded, hp] at ended
  obtain ⟨pending, queued, -, -, pictures⟩ := lawful.nothingLeft ended
  have length (lane : Lane) : (s.deck.queue lane).length = 0 := by
    rw [PacketQueue.length, ← Fifo.length_toList]
    exact congrArg List.length (queued lane)
  have count : s.deck.ring.size = 0 := by rw [← PictureRing.length_pictures, pictures, List.length_nil]
  rw [Player.isSeekPending, Player.buffers, hp, Option.any_some, pending]
  exact ⟨rfl, length .video, length .audio, count⟩

end Lockstep
end Playhead
