import Playhead.Proofs.EndOfMedium
import Playhead.Proofs.MarkedRequests
import Playhead.Script.Source
/-!
# RefusedSeeks — a seek that the container refuses leaves no trace

A request takes the flag back and keeps it down before anybody has asked the container.  If the container then refuses
and stays where it is, the run goes on as if nobody had asked: it agrees, move by move, with the run in which the
refused requests are left out, with those that they took the place of, and the demuxer's actions that were about them
(`Marked.Beside.act`).  The request slot and the flag differ meanwhile, and are the same again after the next read that
nobody is asking during (`Session.CatchesUp.move`).  A refused request cannot always be left out by itself
(`Session.refused_request_seen`).
-/
namespace Playhead

variable {C K D : Type} [Container C K] [VideoCodec K] [AudioDecoder D]

namespace Marked

variable {x : Marked C K D} {w : Waiting} {b : Bool}

/-! ### The run without the marked requests -/

/-- How the other run differs: by the request in its slot, its flag, and where its demuxer is. -/
structure Apart (x : Marked C K D) (pending : Option Float) (ended : Bool) (p : DemuxPoint) : Prop where
  ok : x.Ok
  /-- While the demuxer is about a request that is left out, that of the other run stands behind the seek. -/
  place : p = if x.inHand then .audioRoom else x.session.demuxer.point
  kept : x.waiting = .kept → pending = x.session.deck.pendingSeek
  nothing : x.waiting = .nothing → pending = if x.inHand then none else x.session.deck.pendingSeek
  leftOut : x.waiting = .leftOut → p.Settled pending
  flag : x.session.deck.ended = true → ended = true

/-- The session is where the run without the marked requests is. -/
def Beside (x : Marked C K D) (t : Session C K D) : Prop :=
  ∃ pending ended p, t = x.session.elsewhere pending ended p ∧ x.Apart pending ended p

variable {pending : Option Float} {ended : Bool} {p : DemuxPoint}

omit [Container C K] [VideoCodec K] [AudioDecoder D] in
theorem Apart.front (h : x.Apart pending ended p) (hseek : ∀ t, x.session.demuxer.point ≠ .seek t)
    (hretire : ∀ t, x.session.demuxer.point ≠ .retire t) : x.inHand = false ∧ p = x.session.demuxer.point := by
  have front : x.inHand = false := by
    rw [← Bool.not_eq_true]
    intro hi
    obtain ⟨target, hp | hp⟩ := h.ok.behind hi
    · exact hseek target hp
    · exact hretire target hp
  exact ⟨front, by rw [h.place, front]; rfl⟩

theorem Apart.poll (h : x.Apart pending ended p) (hp : x.session.demuxer.point = .poll) (now : Nat) (leftOut : Bool) :
    x.skips .demux leftOut = false ∧
      (x.act now .demux leftOut).Beside ((x.session.elsewhere pending ended p).move now .demux) := by
  obtain ⟨front, place⟩ := h.front (by rw [hp]; nofun) (by rw [hp]; nofun)
  have slot : pending = if x.waiting = .leftOut then none else x.session.deck.pendingSeek := by
    cases hw : x.waiting with
    | nothing => rw [h.nothing hw, front]; rfl
    | kept => exact h.kept hw
    | leftOut =>
      have settled := h.leftOut hw
      rw [place, hp] at settled
      exact settled.eq_none rfl rfl
  have ok := h.ok.poll hp now leftOut
  have moved := x.session.demux_elsewhere now pending ended
  rw [place]
  refine ⟨front, _, _, _, moved, ?_⟩
  rw [act_poll hp, x.session.demux_poll hp] at ok ⊢
  rw [hp]
  by_cases hw : x.waiting = .leftOut
  · simp only [hw, if_true] at slot
    subst slot
    exact {
      ok
      place := by simp [hw, DemuxPoint.goesOn]
      kept := nofun
      nothing := fun _ => by simp [hw, DemuxPoint.slotAfter]
      leftOut := nofun
      flag := h.flag }
  · simp only [hw, if_false] at slot
    subst slot
    exact {
      ok
      place := by simp [hw, DemuxPoint.goesOn, Session.elsewhere]
      kept := nofun
      nothing := fun _ => by simp [hw, DemuxPoint.slotAfter, Session.elsewhere, Deck.asking]
      leftOut := nofun
      flag := h.flag }

theorem Apart.retire_leftOut (h : x.Apart pending ended p) {target : Float}
    (hp : x.session.demuxer.point = .retire target) {leftOut : Bool} (ha : x.Allows .demux leftOut)
    (hi : x.inHand = true) (now : Nat) :
    (x.act now .demux leftOut).Beside (x.session.elsewhere pending ended p) := by
  have ok := h.ok.retire hp now leftOut
  have place := h.place
  rw [hi, if_pos rfl] at place
  rw [act_retire hp, x.session.demux_retire hp] at ok ⊢
  refine ⟨pending, ended, p, rfl, ?_⟩
  cases heq : x.session.deck.pendingSeek == some target with
  | true =>
    rw [heq] at ok
    have shared := (allows_retire hp).1 ha heq hi
    exact {
      ok
      place
      kept := nofun
      nothing := fun _ => by
        cases hw : x.waiting with
        | nothing => rw [h.nothing hw, hi]; rfl
        | kept => exact absurd hw shared
        | leftOut => exact (place ▸ h.leftOut hw).eq_none rfl rfl
      leftOut := nofun
      flag := h.flag }
  | false =>
    rw [heq] at ok
    exact {
      ok
      place
      kept := h.kept
      nothing := fun hw => by
        have empty : x.session.deck.pendingSeek = none := (ok.found hw).eq_none rfl rfl
        rw [h.nothing hw, hi]
        exact empty.symm
      leftOut := h.leftOut
      flag := h.flag }

theorem Apart.retire_kept (h : x.Apart pending ended p) {target : Float} (hp : x.session.demuxer.point = .retire target)
    (hi : x.inHand = false) (now : Nat) (leftOut : Bool) :
    (x.act now .demux leftOut).Beside ((x.session.elsewhere pending ended p).move now .demux) := by
  have ok := h.ok.retire hp now leftOut
  have place := h.place
  rw [hi, if_neg Bool.false_ne_true, hp] at place
  rw [act_retire hp, x.session.demux_retire hp] at ok ⊢
  have moved := x.session.demux_elsewhere now pending ended
  rw [x.session.demux_retire hp, hp, ← place] at moved
  have same (hw : x.waiting ≠ .leftOut) : pending = x.session.deck.pendingSeek := by
    cases hc : x.waiting with
    | nothing => rw [h.nothing hc, hi]; rfl
    | kept => exact h.kept hc
    | leftOut => exact absurd hc hw
  have gone (hw : x.waiting = .leftOut) : p.slotAfter pending = none := by
    cases hs : pending with
    | none => rw [place]; rfl
    | some r =>
      rcases h.leftOut hw r hs with ht | ho
      · rw [place] at ht
        obtain rfl : target = r := Option.some.inj ht
        have same : (target == target) = true := h.ok.sound target (.inr (by rw [hp]; rfl))
        simp [place, DemuxPoint.slotAfter, same]
      · rw [place] at ho
        cases ho
  refine ⟨_, _, _, moved, ?_⟩
  cases heq : x.session.deck.pendingSeek == some target with
  | true =>
    rw [heq] at ok
    exact {
      ok
      place := by rw [place]; rfl
      kept := nofun
      nothing := fun _ => by
        by_cases hw : x.waiting = .leftOut
        · exact gone hw
        · rw [same hw, place]
          exact if_pos heq
      leftOut := nofun
      flag := by rw [place]; exact h.flag }
  | false =>
    rw [heq] at ok
    have stays (hw : x.waiting ≠ .leftOut) : p.slotAfter pending = x.session.deck.pendingSeek := by
      rw [same hw, place]
      exact if_neg (by rw [heq]; nofun)
    exact {
      ok
      place := by rw [place]; rfl
      kept := fun (hw : x.waiting = .kept) => stays (by rw [hw]; decide)
      nothing := fun (hw : x.waiting = .nothing) => stays (by rw [hw]; decide)
      leftOut := fun hw => by rw [gone hw]; exact DemuxPoint.settled_none _
      flag := by rw [place]; exact h.flag }

theorem Apart.retire (h : x.Apart pending ended p) {target : Float} (hp : x.session.demuxer.point = .retire target)
    {leftOut : Bool} (ha : x.Allows .demux leftOut) (now : Nat) :
    (x.act now .demux leftOut).Beside
      (if x.inHand then x.session.elsewhere pending ended p
        else (x.session.elsewhere pending ended p).move now .demux) := by
  cases hi : x.inHand with
  | true => exact h.retire_leftOut hp ha hi now
  | false => exact h.retire_kept hp hi now leftOut

theorem Apart.demux (h : x.Apart pending ended p) (hpoll : x.session.demuxer.point ≠ .poll)
    (hretire : ∀ t, x.session.demuxer.point ≠ .retire t) {leftOut : Bool} (ha : x.Allows .demux leftOut) (now : Nat) :
    (x.act now .demux leftOut).Beside
      (if x.inHand then x.session.elsewhere pending ended p
        else (x.session.elsewhere pending ended p).move now .demux) := by
  have ok := h.ok.demux hpoll hretire ha now
  rw [act_demux hpoll hretire] at ok ⊢
  cases hi : x.inHand with
  | true =>
    obtain ⟨target, hp | hp⟩ := h.ok.behind hi
    · have refused := ha.refuses hp hi
      have place := h.place
      rw [hi] at ok place
      have nothing := h.nothing
      rw [hi] at nothing
      rw [x.session.demux_refused hp refused] at ok ⊢
      exact ⟨pending, ended, p, rfl, { ok, place, kept := h.kept, nothing, leftOut := h.leftOut, flag := h.flag }⟩
    · exact absurd hp (hretire target)
  | false =>
    have place := h.place
    rw [hi, if_neg Bool.false_ne_true] at place
    have moved := x.session.demux_elsewhere now pending ended
    have stays : (x.session.demux now).1.deck.pendingSeek = x.session.deck.pendingSeek :=
      (x.session.demuxer.pendingSeek_step now x.session.deck).trans (DemuxPoint.slotAfter_eq hretire _)
    simp only [DemuxPoint.slotAfter_eq hretire, DemuxPoint.goesOn_eq hpoll] at moved
    rw [← place] at moved
    refine ⟨_, _, _, moved, ?_⟩
    rw [hi] at ok
    exact {
      ok
      place := rfl
      kept := fun hw => (h.kept hw).trans stays.symm
      nothing := fun hw => by
        have := h.nothing hw
        rw [hi] at this
        exact this.trans stays.symm
      leftOut := fun hw => by
        have settled := h.leftOut hw
        rw [place] at settled
        exact x.session.demuxer.settled_step now x.session.deck hpoll hretire settled
      flag := by
        intro he
        rw [place]
        refine DemuxPoint.flagAfter_of h.flag (fun empty => ?_)
          ((x.session.demuxer.ended_step now x.session.deck).symm.trans he)
        rw [h.nothing (h.ok.nothing_of_empty empty), hi]
        exact empty }

theorem Apart.request (h : x.Apart pending ended p) {target : Float} {leftOut : Bool}
    (ha : x.Allows (.requestSeek target) leftOut) (now : Nat) :
    (x.act now (.requestSeek target) leftOut).Beside
      (if leftOut then x.session.elsewhere pending ended p
        else (x.session.elsewhere pending ended p).move now (.requestSeek target)) := by
  have ok := h.ok.request ha.1 now leftOut
  cases leftOut with
  | false =>
    exact ⟨some target, false, p, rfl, {
      ok
      place := h.place
      kept := fun _ => rfl
      nothing := nofun
      leftOut := nofun
      flag := nofun }⟩
  | true =>
    refine ⟨pending, ended, p, rfl, {
      ok
      place := h.place
      kept := nofun
      nothing := nofun
      leftOut := fun _ => ?_
      flag := nofun }⟩
    cases hw : x.waiting with
    | nothing =>
      -- nobody waits in the other run either
      rw [h.nothing hw, h.place]
      cases x.inHand with
      | true => exact DemuxPoint.settled_none _
      | false => exact h.ok.found hw
    | kept => exact absurd hw (ha.2 rfl)
    | leftOut => exact h.leftOut hw

theorem Apart.quiet (h : x.Apart pending ended p) {m : Move} (hm : m ≠ .demux) (hr : ∀ t, m ≠ .requestSeek t)
    (now : Nat) (leftOut : Bool) :
    (x.act now m leftOut).Beside ((x.session.elsewhere pending ended p).move now m) := by
  obtain ⟨hpending, hended, hdemuxer⟩ := x.session.asking_move hm hr now
  have ok := h.ok.quiet hm hr now leftOut
  refine ⟨pending, ended, p, ?_, ?_⟩
  · rw [act_quiet hm hr]
    exact x.session.move_elsewhere now hm hr pending ended p
  · rw [act_quiet hm hr] at ok ⊢
    exact {
      ok
      place := by
        simp only [hdemuxer]
        exact h.place
      kept := by
        simp only [hpending]
        exact h.kept
      nothing := by
        simp only [hpending]
        exact h.nothing
      leftOut := h.leftOut
      flag := by
        simp only [hended]
        exact h.flag }

theorem Beside.act {t : Session C K D} (h : x.Beside t) {m : Move} {leftOut : Bool} (ha : x.Allows m leftOut)
    (now : Nat) : (x.act now m leftOut).Beside (if x.skips m leftOut then t else t.move now m) := by
  obtain ⟨pending, ended, p, rfl, apart⟩ := h
  cases Move.kind x.session.demuxer.point m with
  | poll hp =>
    obtain ⟨common, beside⟩ := apart.poll hp now leftOut
    rw [common]
    exact beside
  | retire target hp => exact apart.retire hp ha now
  | demux hpoll hretire => exact apart.demux hpoll hretire ha now
  | request target => exact apart.request ha now
  | quiet hm hr =>
    have common : x.skips m leftOut = false := by
      cases m with
      | demux => exact absurd rfl hm
      | requestSeek target => exact absurd rfl (hr target)
      | _ => rfl
    rw [common]
    exact apart.quiet hm hr now leftOut

/-- **The marked requests leave no trace in a run.** -/
theorem Beside.run {t : Session C K D} (h : x.Beside t) {plan : Plan} (sound : x.Sound plan) :
    (x.run plan).Beside (t.run (x.thin plan)) := by
  induction plan generalizing x t with
  | nil => exact h
  | cons m plan ih =>
    have next := ih (h.act sound.1 m.1.1) sound.2
    rw [thin]
    cases hs : x.skips m.1.2 m.2 with
    | true =>
      rw [hs] at next
      exact next
    | false =>
      rw [hs] at next
      exact next

end Marked

/-! ## What happens meanwhile -/

namespace Note

def isAsking : Note → Bool
  | .requested _ | .found _ | .applied _ => true
  | _ => false

def taken? : Note → Option Picture
  | .left pictures => pictures.getLast?
  | _ => none

end Note

namespace Session

def takes (s : Session C K D) : Move → List Picture
  | .refresh master => if s.deck.paused then [] else (s.refresh master).1.toList
  | _ => []

def handed (s : Session C K D) : List (Nat × Move) → List Picture
  | [] => []
  | m :: moves => s.takes m.2 ++ (s.move m.1 m.2).handed moves

def plainNotes (s : Session C K D) (m : Move) : List Note := (s.notes m).filter (fun n => !n.isAsking)

/-- What happens in a run, but for the asking for seeks. -/
def story (s : Session C K D) (moves : List (Nat × Move)) : List Note :=
  (s.chronicle moves).filter (fun n => !n.isAsking)

theorem story_cons (s : Session C K D) (m : Nat × Move) (moves : List (Nat × Move)) :
    s.story (m :: moves) = s.plainNotes m.2 ++ (s.move m.1 m.2).story moves := List.filter_append ..

omit [AudioDecoder D] in
theorem taken_notes (s : Session C K D) (m : Move) : (s.notes m).filterMap Note.taken? = s.takes m := by
  have consumed (lane : Lane) (t : Taken) : (t.notes lane).filterMap Note.taken? = [] := by cases t <;> rfl
  have listed {α : Type} (o : Option α) (f : α → Note) (hf : ∀ a, (f a).taken? = none) :
      (o.toList.map f).filterMap Note.taken? = [] := by
    cases o with
    | none => rfl
    | some a => simp [hf]
  cases m with
  | demux =>
    simp only [notes, takes, Demuxer.notes]
    split
    · exact listed _ _ (fun _ => rfl)
    · split <;> rfl
    · rfl
    · exact listed _ _ (fun _ => rfl)
    · rfl
    · rfl
    · exact listed _ _ (fun _ => rfl)
    · rfl
    · exact listed _ _ (fun _ => rfl)
    · rfl
  | decode =>
    simp only [notes, takes]
    cases s.decoder with
    | none => rfl
    | some w =>
      simp only [Option.elim, Decoder.notes]
      split
      · exact consumed ..
      · rfl
  | takeAudio => exact consumed ..
  | refresh master =>
    simp only [notes, takes]
    split
    · rfl
    · simp only [refresh, PictureRing.refresh_fst, List.filterMap_cons, List.filterMap_nil, Note.taken?]
      cases (s.deck.ring.outgoing master s.deck.config.threshold).getLast? <;> rfl
  | requestSeek target | setPaused on | beginClose => rfl

/-- What the driver takes can be told from what happens. -/
theorem handed_eq (s : Session C K D) (moves : List (Nat × Move)) :
    s.handed moves = (s.story moves).filterMap Note.taken? := by
  have all : s.handed moves = (s.chronicle moves).filterMap Note.taken? := by
    induction moves generalizing s with
    | nil => rfl
    | cons m moves ih => rw [chronicle, List.filterMap_append, taken_notes, handed, ih]
  rw [all, story, List.filterMap_filter]
  congr 1
  funext n
  cases n <;> rfl

omit [AudioDecoder D] in
theorem notes_elsewhere (s : Session C K D) {m : Move} (hm : m ≠ .demux) (pending : Option Float) (ended : Bool)
    (p : DemuxPoint) : (s.elsewhere pending ended p).notes m = s.notes m := by
  cases m with
  | demux => exact absurd rfl hm
  | _ => rfl

omit [AudioDecoder D] in
theorem plainNotes_elsewhere (s : Session C K D) (m : Move) (pending : Option Float) (ended : Bool) :
    (s.elsewhere pending ended s.demuxer.point).plainNotes m = s.plainNotes m := by
  by_cases hm : m = .demux
  · subst hm
    cases hp : s.demuxer.point with
    | poll =>
      have asking (pending : Option Float) :
          (pending.toList.map Note.found).filter (fun n => !n.isAsking) = [] := by cases pending <;> rfl
      simp only [plainNotes, notes, Demuxer.notes, elsewhere, hp, asking]
    | apply target us stage => cases stage <;> simp only [plainNotes, notes, Demuxer.notes, elsewhere, hp, Deck.asking]
    | route p =>
      simp only [plainNotes, notes, Demuxer.notes, elsewhere, hp]
      rfl
    | _ => simp only [plainNotes, notes, Demuxer.notes, elsewhere, hp]
  · rw [plainNotes, s.notes_elsewhere hm]
    rfl

end Session

namespace Marked

variable {x : Marked C K D}

omit [AudioDecoder D] in
theorem Ok.plainNotes_skipped (h : x.Ok) {m : Move} {leftOut : Bool} (ha : x.Allows m leftOut)
    (hs : x.skips m leftOut = true) : x.session.plainNotes m = [] := by
  cases m with
  | demux =>
    obtain ⟨target, hp | hp⟩ := h.behind hs
    · obtain ⟨e, he⟩ := ha.refuses hp hs
      simp only [Session.plainNotes, Session.notes, Demuxer.notes, hp, he]
      rfl
    · simp only [Session.plainNotes, Session.notes, Demuxer.notes, hp]
      rfl
  | requestSeek target => rfl
  | _ => cases hs

omit [AudioDecoder D] in
theorem Beside.plainNotes {t : Session C K D} (h : x.Beside t) {m : Move} {leftOut : Bool} (ha : x.Allows m leftOut) :
    x.session.plainNotes m = if x.skips m leftOut then [] else t.plainNotes m := by
  obtain ⟨pending, ended, p, rfl, apart⟩ := h
  cases hs : x.skips m leftOut with
  | true => exact apart.ok.plainNotes_skipped ha hs
  | false =>
    by_cases hm : m = .demux
    · subst hm
      have place := apart.place
      rw [show x.inHand = false from hs] at place
      rw [place]
      exact (x.session.plainNotes_elsewhere .demux pending ended).symm
    · exact congrArg (List.filter _) (x.session.notes_elsewhere hm pending ended p).symm

theorem Beside.story {t : Session C K D} (h : x.Beside t) {plan : Plan} (sound : x.Sound plan) :
    x.session.story (plan.map (·.1)) = t.story (x.thin plan) := by
  induction plan generalizing x t with
  | nil => rfl
  | cons m plan ih =>
    have next := ih (h.act sound.1 m.1.1) sound.2
    rw [List.map_cons, Session.story_cons, h.plainNotes sound.1, thin]
    cases hs : x.skips m.1.2 m.2 with
    | true =>
      rw [hs] at next
      exact next
    | false =>
      rw [hs] at next
      exact (congrArg (t.plainNotes m.1.2 ++ ·) next).trans (t.story_cons m.1 _).symm

end Marked

/-! ## After a read -/

namespace DemuxPoint

/-- From a read on until the flag tells what came of it.  A worker that died in the read tells nothing. -/
def isReading : DemuxPoint → Bool
  | .read | .arrived _ | .videoIdle | .audioIdle | .ringEmpty | .markEnded | .leaving _ | .gone _ => true
  | _ => false

def isTelling : DemuxPoint → Bool
  | .arrived _ | .markEnded => true
  | _ => false

variable {p : DemuxPoint}

theorem flagAfter_of_telling (ht : p.isTelling = true) (ended : Bool) :
    p.flagAfter none ended = p.flagAfter none true := by
  cases p with
  | arrived packet => rfl
  | markEnded => rfl
  | _ => cases ht

theorem flagAfter_of_reading (hr : p.isReading = true) (ht : p.isTelling = false) : p.flagAfter none true = true := by
  cases p with
  | arrived packet => cases ht
  | apply target us stage => cases hr
  | _ => rfl

end DemuxPoint

namespace Session

variable {s t : Session C K D}

/-- The sessions are the same, or the demuxer is at a read, nobody asks for a seek, and only the flag of the first is
still down. -/
def CatchesUp (s t : Session C K D) : Prop :=
  t = s ∨ t = s.elsewhere none true s.demuxer.point ∧ s.deck.pendingSeek = none ∧ s.demuxer.point.isReading = true

omit [Container C K] [VideoCodec K] [AudioDecoder D] in
theorem elsewhere_self {pending : Option Float} {ended : Bool} (hs : s.deck.pendingSeek = pending)
    (he : s.deck.ended = ended) : s.elsewhere pending ended s.demuxer.point = s := by
  subst hs he
  rfl

omit [VideoCodec K] [AudioDecoder D] in
theorem reading_demux (idle : s.deck.isDrained = true) (hr : s.demuxer.point.isReading = true)
    (ht : s.demuxer.point.isTelling = false) (now : Nat) : (s.demux now).1.demuxer.point.isReading = true := by
  simp only [Deck.isDrained, Bool.and_eq_true] at idle
  obtain ⟨⟨hv, ha⟩, hring⟩ := idle
  cases hp : s.demuxer.point with
  | read =>
    simp only [demux, Demuxer.step, hp]
    split <;> rfl
  | videoIdle | audioIdle | ringEmpty =>
    simp only [demux, Demuxer.step, hp, hv, ha, hring]
    rfl
  | leaving how | gone how =>
    simp only [demux, Demuxer.step, hp]
    rfl
  | arrived packet | markEnded =>
    rw [hp] at ht
    cases ht
  | _ =>
    rw [hp] at hr
    cases hr

omit [VideoCodec K] [AudioDecoder D] in
theorem catchesUp_demux (idle : s.deck.isDrained = true) (empty : s.deck.pendingSeek = none)
    (hr : s.demuxer.point.isReading = true) (now : Nat) :
    (s.demux now).1.CatchesUp ((s.elsewhere none true s.demuxer.point).demux now).1 := by
  have hpoll : s.demuxer.point ≠ .poll := fun hp => by rw [hp] at hr; cases hr
  have hretire (target : Float) : s.demuxer.point ≠ .retire target := fun hp => by rw [hp] at hr; cases hr
  have moved := s.demux_elsewhere now none true
  simp only [DemuxPoint.slotAfter_eq hretire, DemuxPoint.goesOn_eq hpoll] at moved
  have hs : (s.demux now).1.deck.pendingSeek = none :=
    (s.demuxer.pendingSeek_step now s.deck).trans ((DemuxPoint.slotAfter_eq hretire _).trans empty)
  have he : (s.demux now).1.deck.ended = s.demuxer.point.flagAfter none s.deck.ended := by
    rw [← empty]
    exact s.demuxer.ended_step now s.deck
  cases ht : s.demuxer.point.isTelling with
  | true => exact .inl (moved.trans (elsewhere_self hs (he.trans (DemuxPoint.flagAfter_of_telling ht _))))
  | false =>
    rw [DemuxPoint.flagAfter_of_reading hr ht] at moved
    exact .inr ⟨moved, hs, reading_demux idle hr ht now⟩

/-- **What a read without a request comes to is the same**, and so are the flags behind it. -/
theorem CatchesUp.move (h : s.CatchesUp t) (lawful : t.EndLawful) (now : Nat) (m : Move) :
    (s.move now m).CatchesUp (t.move now m) := by
  obtain rfl | ⟨rfl, empty, reading⟩ := h
  · exact .inl rfl
  · have own : (s.move now .demux).CatchesUp ((s.elsewhere none true s.demuxer.point).move now .demux) := by
      have idle : s.deck.isDrained = true := by
        simp only [Deck.isDrained, Bool.and_eq_true]
        exact ⟨⟨lawful.video (.inl rfl), lawful.audio (.inl rfl)⟩, lawful.ring (.inl rfl)⟩
      exact catchesUp_demux idle empty reading now
    cases Move.kind s.demuxer.point m with
    | poll | retire | demux => exact own
    | request target => exact .inl rfl
    | quiet hm hr =>
      obtain ⟨hpending, -, hdemuxer⟩ := s.asking_move hm hr now
      refine .inr ⟨?_, hpending.trans empty, ?_⟩
      · rw [s.move_elsewhere now hm hr, hdemuxer]
      · rw [hdemuxer]
        exact reading

theorem CatchesUp.run (h : s.CatchesUp t) (lawful : ∀ moves, (t.run moves).EndLawful) (moves : List (Nat × Move)) :
    (s.run moves).CatchesUp (t.run moves) := by
  induction moves generalizing s t with
  | nil => exact h
  | cons m moves ih => exact ih (h.move (lawful []) m.1 m.2) (fun rest => lawful (m :: rest))

end Session

/-! ## The two runs -/

def Move.isRequest : Move → Bool
  | .requestSeek _ => true
  | _ => false

namespace Marked

variable {x : Marked C K D} {t : Session C K D}

/-- Nobody but the demuxer does anything else, except that the marked requests are not made. -/
theorem thin_others (x : Marked C K D) (plan : Plan) :
    (x.thin plan).filter (fun m => !m.2.isDemux) =
      (plan.filter (fun m => !m.1.2.isDemux && !(m.1.2.isRequest && m.2))).map (·.1) := by
  induction plan generalizing x with
  | nil => rfl
  | cons m plan ih =>
    obtain ⟨⟨now, m⟩, leftOut⟩ := m
    rw [thin, List.filter_append, ih]
    cases m with
    | demux => cases hs : x.skips .demux leftOut <;> rfl
    | requestSeek target => cases leftOut <;> rfl
    | _ => rfl

omit [Container C K] [VideoCodec K] [AudioDecoder D] in
/-- At a read that nobody is asking during, only the flag can differ. -/
theorem Beside.catchesUp (h : x.Beside t) (hr : x.session.demuxer.point.isReading = true)
    (empty : x.session.deck.pendingSeek = none) :
    x.session.CatchesUp t ∧ x.waiting = .nothing ∧ x.inHand = false := by
  obtain ⟨pending, ended, p, rfl, apart⟩ := h
  have nothing := apart.ok.nothing_of_empty empty
  obtain ⟨front, place⟩ := apart.front (fun _ hp => by rw [hp] at hr; cases hr) (fun _ hp => by rw [hp] at hr; cases hr)
  have slot := apart.nothing nothing
  rw [front] at slot
  refine ⟨?_, nothing, front⟩
  rw [place]
  cases ended with
  | true => exact .inr ⟨by rw [slot.trans empty], empty, hr⟩
  | false =>
    refine .inl (Session.elsewhere_self slot.symm ?_)
    exact Bool.eq_false_iff.2 (fun he => Bool.noConfusion (apart.flag he))

end Marked

namespace Session

/-- **A refused seek leaves no trace**, whatever is played, and whatever the workers, the audio consumer and the driver
do when.

In every run of requests for numbers, which is what a driver asks for (`clampTarget_beq`), the requests can be marked by
what becomes of them.  Left out are those that the container gets to hear of and refuses, staying as it is, and with
each of them those that it took the place of, and one for the same target that it was answered together with.

The run without the marked requests, in which otherwise everybody but the demuxer does the same, then agrees with the
run itself, move by move: in the queues, the ring, the clock, the decode worker and its codec, the audio decoder and the
container; and so do the reads and whatever else happens in the two, the pictures that are handed to the sink, and what
the driver reads from the master clock.  What may differ is the request slot, the flag, which is down meanwhile, and
that the demuxer has a refused request in its hand.

Once the demuxer has come to a read, or to what follows on it, with nobody asking for a seek, and no more refused ones
are asked for, the two sessions are the same altogether as soon as it is told what came of the read. -/
theorem refused_seeks_unseen (now : Nat) (config : Config) (container : C) (audio : Option (StreamInfo × D))
    (video : Option (StreamInfo × K)) :
    let start : Session C K D := Player.sessionOf now config container audio video
    let marked : Marked C K D := { session := start }
    (∀ moves : List (Nat × Move),
      (∀ m ∈ moves, ∀ target, m.2 = .requestSeek target → (target == target) = true) →
        ∃ plan : Plan, plan.map (·.1) = moves ∧ marked.Sound plan) ∧
    ∀ plan : Plan, marked.Sound plan →
      let s := start.run (plan.map (·.1))
      let t := start.run (marked.thin plan)
      (marked.thin plan).filter (fun m => !m.2.isDemux) =
        (plan.filter (fun m => !m.1.2.isDemux && !(m.1.2.isRequest && m.2))).map (·.1) ∧
      s.Agrees t ∧ (s.deck.ended = true → t.deck.ended = true) ∧
      (t.demuxer.point = s.demuxer.point ∨
        t.demuxer.point = .audioRoom ∧ ∃ r, s.demuxer.point = .seek r ∨ s.demuxer.point = .retire r) ∧
      start.story (plan.map (·.1)) = start.story (marked.thin plan) ∧
      start.handed (plan.map (·.1)) = start.handed (marked.thin plan) ∧
      (∀ now, t.masterReading now = s.masterReading now) ∧
      (∀ before after, plan = before ++ after →
        marked.Sound before ∧ ∃ rest, marked.thin plan = marked.thin before ++ rest) ∧
      (s.demuxer.point.isReading = true → s.deck.pendingSeek = none → ∀ rest : Plan,
        (∀ m ∈ rest, ∀ target, m.1.2 = .requestSeek target → m.2 = false) →
          let s' := start.run ((plan ++ rest).map (·.1))
          s'.demuxer.point.isReading = false → start.run (marked.thin (plan ++ rest)) = s') := by
  intro start marked
  have ok : marked.Ok := {
    sound := by rintro r (hr | hr) <;> cases hr
    behind := nofun
    found := fun _ => DemuxPoint.settled_none _
    waits := fun hc => absurd rfl hc }
  have beside : marked.Beside start :=
    ⟨none, false, .start, rfl, ok, rfl, nofun, fun _ => rfl, nofun, nofun⟩
  constructor
  · intro moves numbers
    exact (Marked.plannable ok nofun moves numbers).of_nothing rfl
  · intro plan sound s t
    have after : (marked.run plan).Beside t := beside.run sound
    have story : start.story (plan.map (·.1)) = start.story (marked.thin plan) := beside.story sound
    have session : (marked.run plan).session = s := marked.session_run plan
    have ⟨pending, ended, p, ht, apart⟩ := after
    rw [session] at ht
    refine ⟨marked.thin_others plan, ?_, ?_, ?_, story, ?_, ?_, ?_, ?_⟩
    · rw [ht]
      exact s.agrees_elsewhere pending ended p
    · rw [ht, ← session]
      exact apart.flag
    · have place := apart.place
      have behind := apart.ok.behind
      rw [session] at place behind
      rw [ht]
      cases hi : (marked.run plan).inHand with
      | true =>
        rw [hi] at place
        exact .inr ⟨place, behind hi⟩
      | false =>
        rw [hi] at place
        exact .inl place
    · rw [handed_eq, handed_eq, story]
    · rw [ht]
      exact fun _ => rfl
    · rintro before rest rfl
      exact ⟨sound.left, _, marked.thin_append before rest⟩
    · intro reading empty rest kept s' told
      rw [← session] at reading empty
      obtain ⟨catches, waiting, front⟩ := after.catchesUp reading empty
      have lawful (moves : List (Nat × Move)) : (t.run moves).EndLawful := by
        rw [← run_append]
        exact endLawful_run now config container audio video _
      have same : marked.thin (plan ++ rest) = marked.thin plan ++ rest.map (·.1) := by
        rw [marked.thin_append, Marked.thin_of_kept (by rw [waiting]; nofun) front kept]
      have there : s' = s.run (rest.map (·.1)) := by
        rw [← run_append, ← List.map_append]
      rw [session] at catches
      rw [same, run_append]
      obtain same | ⟨-, -, reading⟩ := catches.run lawful (rest.map (·.1))
      · exact same.trans there.symm
      · rw [there, reading] at told
        cases told

end Session

/-! ## A container that refuses -/

/-- A scripted container that refuses some seeks, by where it is and where it is to go. -/
structure Choosy where
  source : Script.Source
  refusal : (position : Nat) → (us : Ticks) → Bool

namespace Choosy

def seek (c : Choosy) (us : Ticks) : Outcome Unit × Choosy :=
  if c.refusal c.source.position us then (.error (.cannotOpen "seek"), c)
  else (.ok (), { c with source := { c.source with position := c.source.landing us } })

instance : Container Choosy Script.Codec where
  streams c := c.source.streams
  duration c := c.source.duration
  description _ := "choosy"
  read c := liftState (fun source => { c with source }) c.source.read
  atEnd c := c.source.atEnd
  seek := seek
  openCodec c := c.source.openCodec

theorem refuses_iff (c : Choosy) (target : Float) :
    Refuses c target ↔ c.refusal c.source.position (seekMicros target) = true := by
  simp only [Refuses, Container.seek, seek]
  cases c.refusal c.source.position (seekMicros target) with
  | true => exact ⟨fun _ => rfl, fun _ => ⟨_, rfl⟩⟩
  | false => exact ⟨nofun, nofun⟩

instance (c : Choosy) (target : Float) : Decidable (Refuses c target) :=
  decidable_of_iff _ (c.refuses_iff target).symm

/-- A second of a medium: a packet with one frame, where a seek can land. -/
def second (n : Nat) : Script.Item :=
  .sample {
    pts := some (.ofNat n)
    dts := some (.ofNat n)
    duration := 1
    size := 4
    landing := some (n * 1000000)
    yields := [.frame { timestamp := some (.ofNat n), width := 1, height := 1 }] }

def marked (items : Array Script.Item) (refusal : Nat → Ticks → Bool) : Marked Choosy Script.Codec Empty where
  session := Player.sessionOf 0 {} { source := { items }, refusal } none
    (some ({ kind := .video, timeBase := ⟨1, 1⟩ }, { items }))

end Choosy

def Plan.of (leftOut : Bool) (moves : List Move) : Plan := moves.map (fun m => ((0, m), leftOut))

def Plan.demuxing (n : Nat) : Plan := .of false (List.replicate n .demux)

def Plan.decoding (n : Nat) : Plan := .of false (List.replicate n .decode)

namespace Marked

def without (x : Marked C K D) (plan : Plan) : Session C K D := x.session.run (x.thin plan)

/-- The demuxer asks the container to go there, and the container refuses. -/
def IsRefused (x : Marked C K D) (target : Float) : Prop :=
  x.session.demuxer.point.target? = some target ∧ Refuses x.session.demuxer.container target

/-- The medium has ended with nobody asking for a seek, and in the run without the marked requests it has not. -/
def EndsAlone (x : Marked C K D) (plan : Plan) : Prop :=
  (x.run plan).session.deck.pendingSeek = none ∧ (x.run plan).session.deck.ended = true ∧
    (x.without plan).deck.ended = false

end Marked

namespace Session

open Choosy (marked second)
open Plan (demuxing decoding)

/-- Both seconds of a medium have been shown, and it has ended.  A good request is replaced by one that is refused: the
flag goes down, and is up again after the next read. -/
theorem refused_seek_after_end :
    let marked := marked #[second 0, second 1] (fun _ us => decide (2000000 < us))
    let start := marked.session
    let showing : Plan := .of false [.refresh none]
    let played := demuxing 17 ++ decoding 18 ++ showing ++ decoding 10 ++ showing ++ decoding 10 ++ demuxing 17
    let plan := played ++ .of true [.requestSeek 1, .requestSeek 3] ++ demuxing 6
    let later := plan ++ demuxing 4
    (start.run (played.map (·.1))).deck.ended = true ∧ (start.handed (plan.map (·.1))).map (·.pts) = [0, 1] ∧
      start.handed (plan.map (·.1)) = start.handed (marked.thin plan) ∧
      (start.run (plan.map (·.1))).deck.ended = false ∧ (start.run (marked.thin plan)).deck.ended = true ∧
      start.run (marked.thin later) = start.run (later.map (·.1)) ∧
      (start.run (later.map (·.1))).deck.ended = true := by
  intro marked start showing played plan later
  have sound : marked.Sound plan := by decide +kernel
  have unseen := refused_seeks_unseen (D := Empty) 0 {} marked.session.demuxer.container none
    (marked.session.decoder.map (fun w => (w.stream, w.codec)))
  obtain ⟨-, -, -, -, -, handed, -, -, behind⟩ := unseen.2 plan sound
  refine ⟨by decide +kernel, by decide +kernel, handed, by decide +kernel, by decide +kernel, ?_, by decide +kernel⟩
  refine behind (by decide +kernel) (by decide +kernel) (demuxing 4) ?_ (by decide +kernel)
  intro m hm target
  obtain ⟨m, -, rfl⟩ := List.mem_map.1 hm
  exact fun _ => rfl

/-- Not every request that the container refuses can be left out by itself.  It may have taken the place of a good one,
or of a request for no number, which nothing would have answered; one for the same target may have been answered with
it; and a request for no number is asked again and again, and may be refused once and granted the next time. -/
theorem refused_request_seen :
    let nan : Float := 0 / 0
    (let x := marked #[second 0, second 1] (fun _ us => decide (2000000 < us))
      let plan := .of false [.requestSeek 1] ++ .of true [.requestSeek 3] ++ demuxing 3
      ¬ Refuses x.session.demuxer.container 1 ∧ (x.run plan).IsRefused 3 ∧
        ¬ (x.run (plan ++ demuxing 40)).session.Agrees (x.without (plan ++ demuxing 40))) ∧
    (let x := marked #[] (fun _ _ => true)
      let plan := .of false [.requestSeek nan] ++ .of true [.requestSeek 3] ++ demuxing 3
      (x.run plan).IsRefused 3 ∧ x.EndsAlone (plan ++ demuxing 40)) ∧
    (let x := marked #[] (fun _ _ => true)
      let plan := .of true [.requestSeek 3] ++ demuxing 3
      (x.run plan).IsRefused 3 ∧ x.EndsAlone (plan ++ .of false [.requestSeek 3] ++ demuxing 9)) ∧
    (let x := marked #[second 0, second 1] (fun position _ => position == 0)
      let plan := .of true [.requestSeek nan] ++ demuxing 3
      (x.run plan).IsRefused nan ∧
        ¬ (x.run (plan ++ demuxing 40)).session.Agrees (x.without (plan ++ demuxing 40))) := by
  intro nan
  have apart {s t : Session Choosy Script.Codec Empty} (h : t.deck.ring.holding ≠ s.deck.ring.holding) :
      ¬ s.Agrees t := by
    intro agrees
    rw [agrees.deck] at h
    exact h rfl
  refine ⟨⟨?_, ⟨?_, ?_⟩, apart ?_⟩, ⟨⟨?_, ?_⟩, ?_, ?_, ?_⟩, ⟨⟨?_, ?_⟩, ?_, ?_, ?_⟩, ⟨?_, ?_⟩, apart ?_⟩ <;>
    decide +kernel

end Session
end Playhead
