import Playhead.Proofs.BackPressure
import Playhead.Proofs.EndOfMedium
/-!
# FailedReads — which reads can end a medium

A container tells the end of a medium from a read that went wrong; the demuxer does not.  After either it looks whether
anything is left, and sets the flag if nothing is.  So what was read last when the flag is set is the end or an error
(`Session.ReadLawful`), and an error ends the medium if it comes when everything is drained
(`Session.ended_after_nothing`).
-/
namespace Playhead

variable {C K D : Type}

def Note.result? : Note → Option (Outcome (Option Packet))
  | .read r => some r
  | _ => none

def lastResult (notes : List Note) : Option (Outcome (Option Packet)) := (notes.filterMap Note.result?).getLast?

def Outcome.isNothing : Outcome (Option Packet) → Bool
  | .ok none | .error _ => true
  | _ => false

def DemuxPoint.isChecking : DemuxPoint → Bool
  | .videoIdle | .audioIdle | .ringEmpty | .markEnded => true
  | _ => false

theorem lastResult_append_of_none {ns : List Note} (h : ∀ n ∈ ns, n.result? = none) (notes : List Note) :
    lastResult (notes ++ ns) = lastResult notes := by
  rw [lastResult, List.filterMap_append, List.filterMap_eq_nil_iff.2 h, List.append_nil]
  rfl

theorem mem_of_lastResult {notes : List Note} {r : Outcome (Option Packet)} (h : lastResult notes = some r) :
    .read r ∈ notes := by
  obtain ⟨n, hn, hr⟩ := List.mem_filterMap.1 (List.mem_of_getLast? h)
  cases n with
  | read r' =>
    cases hr
    exact hn
  | _ => cases hr

/-- The demuxer comes to a check from a read that brought nothing, or from the check before. -/
theorem Demuxer.checking_step [Container C K] {now : Nat} {d : Deck} {w : Demuxer C}
    (h : (w.step now d).2.1.point.isChecking = true) :
    w.point = .read ∧ (Container.read w.container).1.isNothing = true ∨
      w.point.isChecking = true ∧ w.notes d = [] := by
  cases hp : w.point with
  | read =>
    refine .inl ⟨rfl, ?_⟩
    rcases hr : Container.read w.container with ⟨_ | _ | _, c⟩
    · next result =>
      cases result with
      | none => rfl
      | some p =>
        simp only [step, hp, hr] at h
        cases h
    · rfl
    · simp only [step, hp, hr] at h
      cases h
  | videoIdle | audioIdle | ringEmpty | markEnded => exact .inr ⟨rfl, by simp only [notes, hp]⟩
  | start =>
    simp only [step, hp, DemuxPoint.entry] at h
    split at h <;> cases h
  | poll =>
    simp only [step, hp] at h
    cases hs : d.pendingSeek <;> rw [hs] at h <;> cases h
  | apply target us stage =>
    simp only [step, hp] at h
    cases hn : stage.next d <;> rw [hn] at h <;> cases h
  | top | seek target | audioRoom | videoRoom =>
    simp only [step, hp] at h
    split at h <;> cases h
  | retire target | arrived p | route p | leaving how =>
    simp only [step, hp] at h
    cases h
  | gone how =>
    simp only [step, hp] at h
    cases h

namespace Session

variable [Container C K] [VideoCodec K] [AudioDecoder D]

/-- While the demuxer looks whether anything is left, the last read has brought nothing. -/
def ReadLawful (s : Session C K D) (notes : List Note) : Prop :=
  s.demuxer.point.isChecking = true → ∃ r, lastResult notes = some r ∧ r.isNothing = true

theorem ReadLawful.move {s : Session C K D} {notes : List Note} (h : s.ReadLawful notes) (now : Nat) (m : Move) :
    (s.move now m).ReadLawful (notes ++ s.notes m) := by
  intro hq
  by_cases hm : m = .demux
  · subst hm
    rcases Demuxer.checking_step (K := K) hq with ⟨hp, hr⟩ | ⟨hp, hn⟩
    · have note : s.notes .demux = [.read (Container.read s.demuxer.container).1] := by
        simp only [Session.notes, Demuxer.notes, hp]
      exact ⟨_, by rw [note]; simp [lastResult, Note.result?], hr⟩
    · have note : s.notes .demux = [] := hn
      rw [note, List.append_nil]
      exact h hp
  · have silent : ∀ n ∈ s.notes m, n.result? = none := by
      intro n hn
      cases n with
      | read r => exact absurd ((point_of_note hn).1 r rfl).1 hm
      | _ => rfl
    rw [lastResult_append_of_none silent]
    rw [(s.move_slot now hm).1] at hq
    exact h hq

theorem readLawful_run (now : Nat) (config : Config) (container : C) (audio : Option (StreamInfo × D))
    (video : Option (StreamInfo × K)) (moves : List (Nat × Move)) :
    let start : Session C K D := Player.sessionOf now config container audio video
    (start.run moves).ReadLawful (start.chronicle moves) := by
  intro start
  have atStart : start.ReadLawful [] := fun hc => by cases hc
  exact run_keeps (P := ReadLawful) (fun _ _ now m h => h.move now m) start [] atStart moves

/-- **A medium ends with a read that brought nothing, be it the end or an error.**  Whatever the order of the moves:
when the flag is set, the demuxer has just gone through its checks, nothing is left, and what was read last is the end
of the medium or an error; it is the end if the container has never given an error.  And an error, too, sets the flag if
nothing is left at any of the checks behind it, whatever the container still holds. -/
theorem ended_after_nothing (now : Nat) (config : Config) (container : C) (audio : Option (StreamInfo × D))
    (video : Option (StreamInfo × K)) (moves : List (Nat × Move)) :
    let start : Session C K D := Player.sessionOf now config container audio video
    let s := start.run moves
    let notes := start.chronicle moves
    (∀ at_ m, s.deck.ended = false → (s.move at_ m).deck.ended = true →
      m = .demux ∧ s.demuxer.point = .markEnded ∧ (s.move at_ m).NothingLeft ∧
      (lastResult notes = some (.ok none) ∨ ∃ e, lastResult notes = some (.error e)) ∧
      ((∀ e, .read (.error e) ∉ notes) → lastResult notes = some (.ok none))) ∧
    (∀ at_ e checks last, s.demuxer.point = .read → (Container.read s.demuxer.container).1 = .error e →
      checks.countP (fun m => m.2.isDemux) = 3 →
      (∀ before now after, checks ++ [(last, .demux)] = before ++ (now, .demux) :: after →
        ((s.move at_ .demux).run before).deck.Quiet) →
      (((s.move at_ .demux).run checks).move last .demux).deck.ended = true) := by
  intro start s notes
  obtain ⟨law, seeking⟩ : s.EndLawful ∧ ∀ t, s.demuxer.point.target? = some t → s.deck.pendingSeek.isSome = true :=
    reached now config container audio video moves
  have readLaw : s.ReadLawful notes := readLawful_run now config container audio video moves
  refine ⟨?_, ?_⟩
  · intro at_ m hs he
    obtain ⟨rfl, hp, -⟩ := markEnded_of_move hs he
    have after : (s.move at_ .demux).EndLawful := EndLawful.move law seeking at_ .demux
    obtain ⟨r, hr, hn⟩ := readLaw (by rw [hp]; rfl)
    have last : r = .ok none ∨ ∃ e, r = .error e := by
      cases r with
      | ok p =>
        cases p with
        | none => exact .inl rfl
        | some p => cases hn
      | error e => exact .inr ⟨e, rfl⟩
      | died => cases hn
    refine ⟨rfl, hp, after.nothingLeft he, ?_, ?_⟩
    · rcases last with rfl | ⟨e, rfl⟩
      · exact .inl hr
      · exact .inr ⟨e, hr⟩
    · intro never
      rcases last with rfl | ⟨e, rfl⟩
      · exact hr
      · exact absurd (mem_of_lastResult hr) (never e)
  · intro at_ e checks last hp hr hk hq
    have first : (s.move at_ .demux).demuxer.point = checkPoint 0 := by
      change (s.demuxer.step at_ s.deck).2.1.point = .videoIdle
      simp only [Demuxer.step, hp]
      rcases hc : Container.read s.demuxer.container with ⟨r, c⟩
      rw [hc] at hr
      cases hr
      rfl
    exact (check_pass first hk last hq).2

/-- The first read of a container goes wrong, and the medium has ended, with its only packet yet to come. -/
theorem ended_by_first_read :
    let source : Script.Source := { items := #[.fault "unreadable", .sample { size := 4 }] }
    let start : Session Script.Source Script.Codec Empty :=
      Player.sessionOf 0 {} source none (some ({ kind := .video }, { items := source.items }))
    let moves := List.replicate 10 (0, Move.demux)
    let s := start.run moves
    s.deck.ended = true ∧ s.deck.stop = false ∧ s.goesOn = false ∧
      lastResult (start.chronicle moves) = some (.error (.cannotOpen "unreadable")) ∧
      (Container.read s.demuxer.container).1 = .ok (some (Script.Source.packetOf 1 { size := 4 })) := by
  decide +kernel

end Session

end Playhead
