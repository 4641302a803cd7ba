import Playhead.Proofs.Chronicle
/-!
# Schedules — sessions that go on

A schedule says who moves when, for ever.  What a session comes to under every schedule that lets everybody move again
and again is shown by a rank that no move raises, with one kind of move in each state that lowers it
(`Session.leads_to`).
-/
namespace Playhead

/-- The moves of a session that goes on for ever, with their instants. -/
abbrev Schedule := Nat → Nat × Move

/-- A move that neither asks for a seek nor ends the session. -/
def Move.goesOn : Move → Bool
  | .requestSeek _ | .beginClose => false
  | _ => true

namespace Schedule

variable {σ : Schedule} {m : Move} {audio : Bool}

def first (σ : Schedule) (n : Nat) : List (Nat × Move) := (List.range n).map σ

def drop (σ : Schedule) (n : Nat) : Schedule := fun k => σ (n + k)

/-- A move that is made again and again. -/
def Again (σ : Schedule) (m : Move) : Prop := ∀ n, ∃ k, (σ (n + k)).2 = m

/-- **A fair schedule**: nobody asks for a seek or ends the session, and each of the workers, and the audio consumer if
audio is played, moves again and again. -/
structure Fair (σ : Schedule) (audio : Bool) : Prop where
  goesOn : ∀ n, (σ n).2.goesOn = true
  demux : σ.Again .demux
  decode : σ.Again .decode
  takeAudio : audio = true → σ.Again .takeAudio

theorem first_add (σ : Schedule) (n k : Nat) : σ.first (n + k) = σ.first n ++ (σ.drop n).first k := by
  rw [first, List.range_add, List.map_append, List.map_map]
  rfl

theorem first_succ (σ : Schedule) (n : Nat) : σ.first (n + 1) = σ 0 :: (σ.drop 1).first n := by
  rw [Nat.add_comm, first_add]
  rfl

theorem Again.drop (h : σ.Again m) (n : Nat) : (σ.drop n).Again m := by
  intro i
  obtain ⟨k, hk⟩ := h (n + i)
  refine ⟨k, ?_⟩
  rw [← hk, Nat.add_assoc]
  rfl

theorem Fair.drop (h : σ.Fair audio) (n : Nat) : (σ.drop n).Fair audio :=
  ⟨fun k => h.goesOn (n + k), h.demux.drop n, h.decode.drop n, fun ha => (h.takeAudio ha).drop n⟩

end Schedule

namespace Session

variable {C K D : Type} [Container C K] [VideoCodec K] [AudioDecoder D]

theorem chronicle_append (s : Session C K D) (moves moves' : List (Nat × Move)) :
    s.chronicle (moves ++ moves') = s.chronicle moves ++ (s.run moves).chronicle moves' := by
  induction moves generalizing s with
  | nil => rfl
  | cons m moves ih =>
    rw [List.cons_append, chronicle, chronicle, ih, List.append_assoc]
    rfl

theorem chronicle_concat (s : Session C K D) (moves : List (Nat × Move)) (m : Nat × Move) :
    s.chronicle (moves ++ [m]) = s.chronicle moves ++ (s.run moves).notes m.2 := by
  rw [chronicle_append, chronicle, chronicle, List.append_nil]

theorem run_concat (s : Session C K D) (moves : List (Nat × Move)) (m : Nat × Move) :
    s.run (moves ++ [m]) = (s.run moves).move m.1 m.2 := s.run_append moves [m]

/-- **What every fair schedule comes to.**  If every move leads to `Q`, or keeps `P` and does not raise the rank, and in
each state one kind of move, which stays the same as long as the rank does, lowers it, then a schedule that makes these
moves again and again comes from `P` to `Q`. -/
theorem leads_to {P Q : Session C K D → List Note → Prop} (rank : Session C K D → Nat)
    (helpful : Session C K D → Move)
    (keep : ∀ s notes now m, m.goesOn = true → P s notes →
      Q (s.move now m) (notes ++ s.notes m) ∨ P (s.move now m) (notes ++ s.notes m) ∧
        (rank (s.move now m) < rank s ∨
          rank (s.move now m) = rank s ∧ helpful (s.move now m) = helpful s ∧ m ≠ helpful s))
    {σ : Schedule} (goesOn : ∀ n, (σ n).2.goesOn = true) (again : ∀ s notes, P s notes → σ.Again (helpful s))
    {s : Session C K D} {notes : List Note} (h : P s notes) :
    ∃ n, Q (s.run (σ.first n)) (notes ++ s.chronicle (σ.first n)) := by
  -- on the rank, and while it stays as it is on the moves up to the helpful one
  induction hr : rank s using Nat.strongRecOn generalizing s notes σ with
  | ind r less =>
    have goesOn' {σ : Schedule} (hσ : ∀ n, (σ n).2.goesOn = true) : ∀ n, (σ.drop 1 n).2.goesOn = true :=
      fun n => hσ (1 + n)
    have again' {σ : Schedule} (hσ : ∀ s notes, P s notes → σ.Again (helpful s)) :
        ∀ s notes, P s notes → (σ.drop 1).Again (helpful s) := fun s notes hp => (hσ s notes hp).drop 1
    -- what comes behind the first move
    have behind {σ : Schedule} {s : Session C K D} {notes : List Note}
        (hn : ∃ n, Q ((s.move (σ 0).1 (σ 0).2).run ((σ.drop 1).first n))
          (notes ++ s.notes (σ 0).2 ++ (s.move (σ 0).1 (σ 0).2).chronicle ((σ.drop 1).first n))) :
        ∃ n, Q (s.run (σ.first n)) (notes ++ s.chronicle (σ.first n)) := by
      obtain ⟨n, hq⟩ := hn
      refine ⟨n + 1, ?_⟩
      rw [List.append_assoc] at hq
      rw [Schedule.first_succ]
      exact hq
    obtain ⟨k, hk⟩ := again s notes h 0
    rw [Nat.zero_add] at hk
    induction k generalizing s notes σ with
    | zero =>
      rcases keep s notes (σ 0).1 (σ 0).2 (goesOn 0) h with hq | ⟨hp, hless | ⟨-, -, hne⟩⟩
      · exact behind ⟨0, by simpa [Schedule.first, chronicle] using hq⟩
      · exact behind (less _ (hr ▸ hless) (goesOn' goesOn) (again' again) hp rfl)
      · exact absurd hk hne
    | succ k ih =>
      rcases keep s notes (σ 0).1 (σ 0).2 (goesOn 0) h with hq | ⟨hp, hless | ⟨hsame, hhelp, -⟩⟩
      · exact behind ⟨0, by simpa [Schedule.first, chronicle] using hq⟩
      · exact behind (less _ (hr ▸ hless) (goesOn' goesOn) (again' again) hp rfl)
      · refine behind (ih (goesOn' goesOn) (again' again) hp (hsame.trans hr) ?_)
        rw [hhelp, ← hk, Nat.add_comm]
        rfl

end Session
end Playhead
