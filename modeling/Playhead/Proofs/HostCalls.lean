import Playhead.Proofs.Closing
import Playhead.Proofs.HostRuns
/-!
# HostCalls — a player agrees with itself

A pause is written down in four places, a stream that can not be played is left out in three, and a medium that is
attached ends the one before it even if it can not be played itself.  Whatever a host calls, in any order, and however
its collaborators answer, the places agree (`Stage.Coherent.call`), and a call that fails leaves nothing half done.
-/
namespace Playhead

def PlaybackState.hasSession : PlaybackState → Bool
  | .opened | .playing | .paused => true
  | .uninitialized | .closed => false

/-- Who takes a turn in a session without being called. -/
inductive Turn
  | demux | decode | takeAudio

def Turn.move : Turn → Move
  | .demux => .demux
  | .decode => .decode
  | .takeAudio => .takeAudio

/-- What a host calls, and what goes on by itself in between. -/
inductive Call (C D : Type)
  /-- The host changes what it gives the player; the settings are fixed. -/
  | equip (opener : Option (String → Except PlayError C)) (makeAudio : Option (StreamInfo → Except PlayError D))
      (hasSink : Bool)
  | init (threads : Threads) (name : String)
  | attach (threads : Threads) (container : C)
  | update
  | seekTo (time : Float)
  | setPaused (on : Bool)
  | close
  | turn (t : Turn)
  /-- The audio decoder goes on. -/
  | play (f : D → D)

/-- A container, and how the host made audio decoders when it was attached. -/
structure Medium (C D : Type) where
  container : C
  makeAudio : Option (StreamInfo → Except PlayError D)

namespace Medium

variable {C K D : Type} [Container C K]

def video (medium : Medium C D) : Option StreamInfo :=
  (firstOf .video (Container.streams medium.container)).filter
    (fun stream => (Container.openCodec medium.container stream.index).isOk)

def audio (medium : Medium C D) : Option StreamInfo :=
  (firstOf .audio (Container.streams medium.container)).filter
    (fun stream => medium.makeAudio.any (fun make => (make stream).isOk))

theorem video_eq (medium : Medium C D) : (Player.openVideo medium.container).map (·.1) = medium.video := by
  unfold Player.openVideo video
  cases firstOf .video (Container.streams medium.container) with
  | none => rfl
  | some stream =>
    cases h : Container.openCodec medium.container stream.index with
    | ok codec => simp [Option.filter, h, Except.isOk, Except.toBool]
    | error e => simp [Option.filter, h, Except.isOk, Except.toBool]

theorem audio_eq (host : Host C D) (container : C) :
    (Player.openAudio host (Container.streams container)).1.map (·.1) = audio ⟨container, host.makeAudio⟩ := by
  unfold Player.openAudio audio
  cases firstOf .audio (Container.streams container) with
  | none => rfl
  | some stream =>
    cases host.makeAudio with
    | none => rfl
    | some make =>
      cases h : make stream with
      | ok decoder => simp [Option.filter, h, Except.isOk, Except.toBool]
      | error e => simp [Option.filter, h, Except.isOk, Except.toBool]

end Medium

/-! ## One session -/

theorem SeekStage.paused_act (stage : SeekStage) (now : Nat) (us : Ticks) (d : Deck) :
    (stage.act now us d).clock.paused = d.clock.paused := by
  cases stage with
  | markAudio => simp only [act]; cases d.audio <;> rfl
  | markVideo => simp only [act]; cases d.video <;> rfl
  | _ => rfl

theorem Demuxer.paused_step {C K : Type} [Container C K] (now : Nat) (d : Deck) (w : Demuxer C) :
    (w.step now d).1.clock.paused = d.clock.paused := by
  cases hp : w.point with
  | apply target us stage =>
    simp only [Demuxer.step, hp]
    exact stage.paused_act now us d
  | retire target =>
    simp only [Demuxer.step, hp]
    rw [d.completeSeek_eq]
  | route p =>
    simp only [Demuxer.step, hp]
    rw [d.route_eq]
  | markEnded =>
    simp only [Demuxer.step, hp]
    rw [d.markEnded_eq]
  | seek target | read =>
    simp only [Demuxer.step, hp]
    split <;> rfl
  | _ => simp only [Demuxer.step, hp]

namespace Session

variable {C K D : Type} {s t : Session C K D}

/-- What a session has to do with its medium, with the state of its player, and with itself. -/
structure Fits [Container C K] (medium : Medium C D) (state : PlaybackState) (s : Session C K D) : Prop where
  paused : state = .paused ↔ s.deck.paused = true
  clock : s.deck.clock.paused = s.deck.paused
  video : s.deck.video = medium.video
  audio : s.deck.audio = medium.audio
  plays : s.deck.video.isSome = true ∨ s.deck.audio.isSome = true
  decodes : s.decoder.isSome = s.deck.video.isSome
  hears : s.audio.isSome = s.deck.audio.isSome
  byAudio : s.master = .audio → s.deck.audio.isSome = true
  byVideo : s.master = .video → s.deck.video.isSome = true

/-- The sessions differ in nothing that `Fits` speaks of. -/
structure Alike (s t : Session C K D) : Prop where
  paused : t.deck.paused = s.deck.paused
  clock : t.deck.clock.paused = s.deck.clock.paused
  video : t.deck.video = s.deck.video
  audio : t.deck.audio = s.deck.audio
  decodes : t.decoder.isSome = s.decoder.isSome
  hears : t.audio.isSome = s.audio.isSome
  master : t.master = s.master

theorem Fits.of_alike [Container C K] {medium : Medium C D} {state : PlaybackState} (h : s.Fits medium state)
    (ha : s.Alike t) : t.Fits medium state where
  paused := by rw [ha.paused]; exact h.paused
  clock := by rw [ha.paused, ha.clock]; exact h.clock
  video := ha.video.trans h.video
  audio := ha.audio.trans h.audio
  plays := by rw [ha.video, ha.audio]; exact h.plays
  decodes := by rw [ha.decodes, ha.video]; exact h.decodes
  hears := by rw [ha.hears, ha.audio]; exact h.hears
  byAudio := by rw [ha.master, ha.audio]; exact h.byAudio
  byVideo := by rw [ha.master, ha.video]; exact h.byVideo

theorem Fits.of_state [Container C K] {medium : Medium C D} {state state' : PlaybackState} (h : s.Fits medium state)
    (hs : state' = .paused ↔ state = .paused) : s.Fits medium state' :=
  { h with paused := hs.trans h.paused }

theorem Fits.reading [Container C K] [AudioDecoder D] {medium : Medium C D} {state : PlaybackState}
    (h : s.Fits medium state) (hm : s.master = .audio) (now : Nat) :
    ∃ decoder, s.audio = some decoder ∧ s.masterReading now = some (AudioDecoder.clock decoder) := by
  have heard : s.audio.isSome = true := h.hears.trans (h.byAudio hm)
  obtain ⟨decoder, hd⟩ := Option.isSome_iff_exists.1 heard
  exact ⟨decoder, hd, by simp only [masterReading, hm, hd, Option.elim_some]⟩

theorem alike_turn [Container C K] [VideoCodec K] [AudioDecoder D] (s : Session C K D) (now : Nat) (t : Turn) :
    s.Alike (s.move now t.move) := by
  obtain ⟨video, audio⟩ := s.move_streams now t.move
  cases t with
  | demux =>
    refine ⟨?_, s.demuxer.paused_step now s.deck, video, audio, rfl, rfl, rfl⟩
    change (s.demuxer.step now s.deck).1.paused = _
    rw [s.demuxer.step_eq]
  | decode =>
    simp only [Turn.move, move, decode] at video audio ⊢
    cases hw : s.decoder with
    | none => exact ⟨rfl, rfl, rfl, rfl, rfl, rfl, rfl⟩
    | some w =>
      rw [hw] at video audio
      refine ⟨?_, ?_, video, audio, by rw [hw]; rfl, rfl, rfl⟩
      · change (w.step s.deck).1.paused = _
        rw [w.step_eq]
      · change (w.step s.deck).1.clock.paused = _
        rw [w.step_eq]
  | takeAudio => exact ⟨rfl, rfl, video, audio, rfl, rfl, rfl⟩

end Session

/-! ## A player among its host's calls -/

theorem MasterClock.select_audio {mode : SyncMode} {hasVideo hasAudio : Bool}
    (h : select mode hasVideo hasAudio = .audio) : hasAudio = true := by
  cases mode <;> cases hasVideo <;> cases hasAudio <;> first | rfl | cases h

theorem MasterClock.select_video {mode : SyncMode} {hasVideo hasAudio : Bool}
    (h : select mode hasVideo hasAudio = .video) : hasVideo = true := by
  cases mode <;> cases hasVideo <;> cases hasAudio <;> first | rfl | cases h

/-- A player, and the medium that was attached to it last. -/
structure Stage (C K D : Type) where
  player : Player C K D
  medium : Option (Medium C D) := none

namespace Stage

variable {C K D : Type}

def attached (x : Stage C K D) (container : C) (p : Player C K D) : Stage C K D :=
  { player := p, medium := some ⟨container, x.player.host.makeAudio⟩ }

def withSession (x : Stage C K D) (f : Session C K D → Session C K D) : Stage C K D :=
  { x with player := { x.player with session := x.player.session.map f } }

variable [Container C K] [VideoCodec K] [AudioDecoder D]

def call (now : Nat) (x : Stage C K D) : Call C D → Stage C K D
  | .equip opener makeAudio hasSink =>
    { x with player := { x.player with host := { x.player.host with opener, makeAudio, hasSink } } }
  | .init threads name =>
    let p := (x.player.initOn threads now name).2.1
    match x.player.openMedium name with
    | .error _ => { x with player := p }
    | .ok container => x.attached container p
  | .attach threads container => x.attached container (x.player.attachOn threads now container).2.1
  | .update => { x with player := (x.player.update now).2 }
  | .seekTo time => { x with player := x.player.seekTo time }
  | .setPaused on => { x with player := (x.player.setPaused now on).1 }
  | .close => { x with player := (x.player.close now).1 }
  | .turn t => x.withSession (·.move now t.move)
  | .play f => x.withSession (fun s => { s with audio := s.audio.map f })

def run (x : Stage C K D) (calls : List (Nat × Call C D)) : Stage C K D :=
  calls.foldl (fun x c => x.call c.1 c.2) x

/-- A player has a session in the states that say so, and the session fits. -/
structure Coherent (x : Stage C K D) : Prop where
  session : x.player.session.isSome = x.player.state.hasSession
  fits : ∀ s ∈ x.player.session, ∃ medium ∈ x.medium, s.Fits medium x.player.state

variable {x : Stage C K D}

omit [VideoCodec K] [AudioDecoder D] in
theorem Coherent.withSession (h : x.Coherent) {f : Session C K D → Session C K D}
    (hf : ∀ s : Session C K D, s.Alike (f s)) : (x.withSession f).Coherent where
  session := (Option.isSome_map ..).trans h.session
  fits := by
    intro t ht
    obtain ⟨s, hs, rfl⟩ := Option.map_eq_some_iff.1 ht
    obtain ⟨medium, hm, hfits⟩ := h.fits s hs
    exact ⟨medium, hm, hfits.of_alike (hf s)⟩

omit [AudioDecoder D] in
theorem close_eq (now : Nat) (p : Player C K D) :
    (p.close now).1 = { p with session := none, state := if p.session.isSome then .closed else p.state } := by
  rcases p with ⟨host, session, state⟩
  cases session <;> rfl

omit [AudioDecoder D] in
theorem Coherent.close (h : x.Coherent) (medium : Option (Medium C D)) (now : Nat) :
    Coherent { player := (x.player.close now).1, medium } := by
  have hs := h.session
  simp only [close_eq]
  refine ⟨?_, fun s hs => nomatch hs⟩
  cases he : x.player.session.isSome with
  | true => rfl
  | false => exact he.symm.trans hs

omit [VideoCodec K] [AudioDecoder D] in
theorem fits_start (now : Nat) (host : Host C D) (container : C) :
    let audio := (Player.openAudio host (Container.streams container)).1
    let video := Player.openVideo container
    video.isSome = true ∨ audio.isSome = true →
    (Player.sessionOf now host.config container audio video).Fits ⟨container, host.makeAudio⟩ .opened := by
  intro audio video hplays
  exact {
    paused := ⟨nofun, nofun⟩
    clock := rfl
    video := Medium.video_eq ⟨container, host.makeAudio⟩
    audio := Medium.audio_eq host container
    plays := hplays.imp (Option.isSome_map ..).trans (Option.isSome_map ..).trans
    decodes := (Option.isSome_map ..).trans (Option.isSome_map ..).symm
    hears := (Option.isSome_map ..).trans (Option.isSome_map ..).symm
    byAudio := fun h => (Option.isSome_map ..).trans (MasterClock.select_audio h)
    byVideo := fun h => (Option.isSome_map ..).trans (MasterClock.select_video h) }

omit [AudioDecoder D] in
theorem Coherent.attached (h : x.Coherent) (threads : Threads) (now : Nat) (container : C) :
    (x.attached container (x.player.attachOn threads now container).2.1).Coherent := by
  rcases x.player.attachOn_cases threads now container with ⟨e, -, hp⟩ | ⟨-, hplays, hp⟩
  · rw [hp]
    exact h.close _ now
  · rw [hp]
    refine ⟨rfl, fun s hs => ⟨_, rfl, ?_⟩⟩
    cases hs
    exact fits_start now x.player.host container hplays

omit [VideoCodec K] in
theorem Coherent.update (h : x.Coherent) (now : Nat) : Coherent { x with player := (x.player.update now).2 } := by
  rcases x with ⟨⟨host, session, state⟩, medium⟩
  cases session with
  | none => exact h
  | some s =>
    have alike : s.Alike (if s.deck.paused then (none, s) else s.refresh (s.masterReading now)).2 := by
      split <;> exact ⟨rfl, rfl, rfl, rfl, rfl, rfl, rfl⟩
    obtain ⟨m, hm, hfits⟩ := h.fits s rfl
    refine ⟨?_, fun t ht => ⟨m, hm, ?_⟩⟩
    · have hs := h.session
      cases state <;> exact hs
    · cases ht
      refine (hfits.of_alike alike).of_state ?_
      cases state <;> simp [Player.update]

omit [VideoCodec K] in
theorem Coherent.setPaused (h : x.Coherent) (now : Nat) (on : Bool) :
    Coherent { x with player := (x.player.setPaused now on).1 } := by
  rcases x with ⟨⟨host, session, state⟩, medium⟩
  cases session with
  | none => exact h
  | some s =>
    obtain ⟨m, hm, hfits⟩ := h.fits s rfl
    refine ⟨by cases on <;> rfl, fun t ht => ⟨m, hm, ?_⟩⟩
    cases ht
    exact { hfits with
      paused := by cases on <;> simp [Player.setPaused, Session.setPaused]
      clock := s.deck.clock.paused_setPaused now on
      hears := (Option.isSome_map ..).trans hfits.hears }

/-- **Whatever is called, and however the collaborators answer, a player keeps agreeing with itself.** -/
theorem Coherent.call (h : x.Coherent) (now : Nat) (c : Call C D) : (x.call now c).Coherent := by
  cases c with
  | equip opener makeAudio hasSink => exact ⟨h.session, h.fits⟩
  | init threads name =>
    simp only [Stage.call, Player.initOn]
    cases x.player.openMedium name with
    | error e => exact h
    | ok container => exact h.attached threads now container
  | attach threads container => exact h.attached threads now container
  | update => exact h.update now
  | seekTo time => exact h.withSession (fun s => ⟨rfl, rfl, rfl, rfl, rfl, rfl, rfl⟩)
  | setPaused on => exact h.setPaused now on
  | close => exact h.close x.medium now
  | turn t => exact h.withSession (fun s => s.alike_turn now t)
  | play f => exact h.withSession (fun s => ⟨rfl, rfl, rfl, rfl, rfl, Option.isSome_map .., rfl⟩)

theorem Coherent.run (h : x.Coherent) (calls : List (Nat × Call C D)) : (x.run calls).Coherent := by
  induction calls generalizing x with
  | nil => exact h
  | cons c calls ih => exact ih (h.call c.1 c.2)

omit [VideoCodec K] [AudioDecoder D] in
theorem coherent_start (host : Host C D) : Coherent { player := { host } : Stage C K D } :=
  ⟨rfl, fun _ hs => nomatch hs⟩

/-! ## Calls that fail -/

omit [AudioDecoder D] in
theorem attachOn_error {threads : Threads} {now : Nat} {container : C} {p : Player C K D} {e : PlayError}
    (h : (p.attachOn threads now container).1 = .error e) :
    (p.attachOn threads now container).2.1 =
      { p with session := none, state := if p.session.isSome then .closed else p.state } := by
  rcases p.attachOn_cases threads now container with ⟨-, -, hp⟩ | ⟨hok, -, -⟩
  · exact hp.trans (close_eq now p)
  · rw [hok] at h
    cases h

/-- **A player agrees with itself whatever its host calls**, its workers, its audio consumer and its audio decoder going
on in between.  It has a session exactly in the states that say so.  The session is paused in all places or in none, it
plays the first video and the first audio stream of its medium if these can be played, one of them at least, it has a
decode worker and an audio decoder exactly for what it plays, and it is led by a stream only if it plays that.  A medium
that can not be opened changes nothing.  One that can not be played leaves nothing to play and no worker, neither of the
session before it nor of its own.  Without a session, calls do nothing. -/
theorem calls_coherent (host : Host C D) (calls : List (Nat × Call C D)) :
    let x : Stage C K D := run { player := { host } } calls
    let p := x.player
    (p.session.isSome = true ↔ p.state = .opened ∨ p.state = .playing ∨ p.state = .paused) ∧
    (∀ s, p.session = some s →
      (∃ medium, x.medium = some medium ∧ s.Fits medium p.state) ∧
      (s.master = .audio → ∀ now, ∃ decoder,
        s.audio = some decoder ∧ s.masterReading now = some (AudioDecoder.clock decoder))) ∧
    (∀ threads now name e, p.openMedium name = .error e → p.initOn threads now name = (.error e, p, [])) ∧
    (∀ threads now container e, (p.attachOn threads now container).1 = .error e →
      (p.attachOn threads now container).2.1 =
        { p with session := none, state := if p.session.isSome then .closed else p.state }) ∧
    (∀ s, p.session = some s → WellFounded (fun k' k : K => ∃ f, VideoCodec.receive k = (.ok (some f), k')) →
      ∀ now, ∃ enough, ∀ steps, enough ≤ steps → (s.close now steps).1.isOver = true) ∧
    (∀ threads now config container audio video e,
      let s : Session C K D := Player.sessionOf now config container audio video
      (s.launch threads now Player.joinSteps).1 = .error e →
        (s.launch threads now Player.joinSteps).2.1.isOver = true) ∧
    (p.session = none → ∀ now,
      p.update now = ({}, p) ∧ (∀ time, p.seekTo time = p) ∧ (∀ on, p.setPaused now on = (p, [])) ∧
        p.close now = (p, [])) := by
  intro x p
  have coherent : x.Coherent := (coherent_start host).run calls
  refine ⟨?_, fun s hs => ?_, ?_, ?_, ?_, ?_, ?_⟩
  · rw [coherent.session]
    cases p.state <;> simp [PlaybackState.hasSession]
  · obtain ⟨medium, hm, hfits⟩ := coherent.fits s hs
    exact ⟨⟨medium, hm, hfits⟩, fun hmaster now => hfits.reading hmaster now⟩
  · intro threads now name e he
    rw [Player.initOn, he]
  · intro threads now container e he
    exact attachOn_error he
  · intro s _ finite now
    exact s.close_over finite now
  · intro threads now config container audio video e s he
    refine s.launch_over threads now (by decide) (fun w hw => ?_) he
    obtain ⟨v, -, rfl⟩ := Option.map_eq_some_iff.1 hw
    rfl
  · intro hn now
    simp only [Player.update, Player.seekTo, Player.setPaused, Player.close, hn, Option.map_none, true_and]
    exact ⟨fun _ => by rw [← hn], fun _ => trivial, trivial⟩

/-- A medium without streams is attached while another one is paused. -/
theorem calls_coherent_second_medium :
    let source : Script.Source := { streams := [{ kind := .video }], items := #[.sample { size := 4 }] }
    let x : Stage Script.Source Script.Codec Empty :=
      run { player := { host := {} } } [(0, .attach {} source), (1, .turn .demux), (2, .setPaused true)]
    let r := x.player.attachOn {} 3 {}
    (x.player.session.isSome = true ∧ r.1.isOk = false) ∧
      (∃ s, x.player.session = some s ∧ s.deck.clock.paused = s.deck.paused ∧
        ∃ enough, ∀ steps, enough ≤ steps → (s.close 3 steps).1.isOver = true) ∧
      r.2.1.state = .closed := by
  intro source x r
  have before : x.player.session.isSome = true ∧ r.1.isOk = false := by decide +kernel
  obtain ⟨-, fits, -, failed, ends, -, -⟩ := calls_coherent (K := Script.Codec) (D := Empty) {}
    [(0, .attach {} source), (1, .turn .demux), (2, .setPaused true)]
  obtain ⟨s, hs⟩ := Option.isSome_iff_exists.1 before.1
  obtain ⟨⟨medium, -, hfits⟩, -⟩ := fits s hs
  refine ⟨before, ⟨s, hs, hfits.clock, ends s hs Watched.receive_finite 3⟩, ?_⟩
  cases he : r.1 with
  | ok _ =>
    rw [he] at before
    cases before.2
  | error e =>
    have ended : r.2.1.state = if x.player.session.isSome then .closed else x.player.state :=
      congrArg Player.state (failed {} 3 {} e he)
    rw [ended, before.1, if_pos rfl]

end Stage
end Playhead
