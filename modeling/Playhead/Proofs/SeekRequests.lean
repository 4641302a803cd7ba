import Playhead.Proofs.Chronicle
/-!
# SeekRequests — no seek request is lost

The driver puts a request into a slot of one place, over whatever is there; the demuxer reads the slot, does the seek,
and empties the slot if it still holds that target.  So the target that is applied is the newest one at the moment of
reading (`TakenUp`), a request that came meanwhile stays unless it asks for the same, and an empty slot means that the
newest request has been done (`SeekLaw`, `Session.seek_requests_kept`).
-/
namespace Playhead

def DemuxPoint.target? : DemuxPoint → Option Float
  | .seek target | .apply target _ _ | .retire target => some target
  | _ => none

def DemuxPoint.isPastSeek : DemuxPoint → Bool
  | .apply _ _ _ | .retire _ => true
  | _ => false

namespace Note

def requested? : Note → Option Float
  | .requested target => some target
  | _ => none

def found? : Note → Option Float
  | .found target => some target
  | _ => none

def applied? : Note → Option Float
  | .applied target => some target
  | _ => none

end Note

variable {C K D : Type}

def newestRequest (notes : List Note) : Option Float := (notes.filterMap Note.requested?).getLast?

def lastApplied (notes : List Note) : Option Float := (notes.filterMap Note.applied?).getLast?

/-- The demuxer found the target when it last looked for a request, and it was the newest request then. -/
def TakenUp (notes : List Note) (target : Float) : Prop :=
  ∃ before after, notes = before ++ .found target :: after ∧ newestRequest before = some target ∧
    ∀ n ∈ after, n.found? = none ∧ n.applied? = none

/-- Notes that do not speak about requests. -/
def Silent (notes : List Note) : Prop :=
  ∀ n ∈ notes, n.requested? = none ∧ n.found? = none ∧ n.applied? = none

theorem Silent.newestRequest_append {ns : List Note} (h : Silent ns) (notes : List Note) :
    newestRequest (notes ++ ns) = newestRequest notes := by
  have hns : ns.filterMap Note.requested? = [] := List.filterMap_eq_nil_iff.2 (fun n hn => (h n hn).1)
  rw [newestRequest, List.filterMap_append, hns, List.append_nil]
  rfl

theorem lastApplied_append_of_none {ns : List Note} (h : ∀ n ∈ ns, n.applied? = none) (notes : List Note) :
    lastApplied (notes ++ ns) = lastApplied notes := by
  rw [lastApplied, List.filterMap_append, List.filterMap_eq_nil_iff.2 h, List.append_nil]
  rfl

theorem TakenUp.append {notes ns : List Note} {target : Float} (h : TakenUp notes target)
    (hns : ∀ n ∈ ns, n.found? = none ∧ n.applied? = none) : TakenUp (notes ++ ns) target := by
  obtain ⟨before, after, rfl, hnew, hafter⟩ := h
  refine ⟨before, after ++ ns, by simp, hnew, fun n hn => ?_⟩
  rcases List.mem_append.1 hn with hn | hn
  · exact hafter n hn
  · exact hns n hn

/-- Every seek that was applied had been taken up. -/
def Founded (notes : List Note) : Prop :=
  ∀ before target after, notes = before ++ .applied target :: after → TakenUp before target

theorem founded_nil : Founded ([] : List Note) := by
  intro before target after h
  simp at h

theorem Founded.append {notes ns : List Note} (h : Founded notes) (hns : ∀ n ∈ ns, n.applied? = none) :
    Founded (notes ++ ns) := by
  intro before target after he
  rcases List.append_eq_append_iff.1 he with ⟨as, rfl, hs⟩ | ⟨bs, hb, hs⟩
  · have : (.applied target : Note) ∈ ns := by rw [hs]; simp
    cases hns _ this
  · cases bs with
    | nil =>
      have : (.applied target : Note) ∈ ns := by rw [← List.nil_append ns, ← hs]; exact List.mem_cons_self
      cases hns _ this
    | cons b bs =>
      rw [List.cons_append, List.cons.injEq] at hs
      obtain ⟨rfl, -⟩ := hs
      exact h before target bs hb

theorem Founded.apply {notes : List Note} (h : Founded notes) {target : Float} (ht : TakenUp notes target) :
    Founded (notes ++ [.applied target]) := by
  intro before target' after he
  rcases List.eq_nil_or_concat after with rfl | ⟨after, n, rfl⟩
  · obtain ⟨rfl, hc⟩ := List.append_inj' he rfl
    cases hc
    exact ht
  · rw [List.concat_eq_append, ← List.cons_append, ← List.append_assoc] at he
    exact h before target' after (List.append_inj' he rfl).1

/-! ## What a move does to the slot -/

/-- An action of the demuxer as the slot sees it: from a point to a point, with the slot before and after it. -/
inductive SlotStep : DemuxPoint → Option Float → DemuxPoint → Option Float → List Note → Prop
  | find (target : Float) : SlotStep .poll (some target) (.seek target) (some target) [.found target]
  | ask {target : Float} {pending : Option Float} {p : DemuxPoint} {ns : List Note}
      (hp : p.target? = some target ∧ p.isPastSeek = true ∨ p.target? = none) (hns : Silent ns) :
      SlotStep (.seek target) pending p pending (.applied target :: ns)
  | act {p q : DemuxPoint} {target : Float} {pending : Option Float} {ns : List Note}
      (hp : p.target? = some target ∧ p.isPastSeek = true) (hq : q.target? = some target ∧ q.isPastSeek = true)
      (hns : Silent ns) : SlotStep p pending q pending ns
  | retire (target : Float) (pending : Option Float) :
      SlotStep (.retire target) pending .audioRoom (if pending == some target then none else pending) []
  | other {p q : DemuxPoint} {pending : Option Float} {ns : List Note} (hp : p.target? = none)
      (hq : q.target? = none) (hns : Silent ns) : SlotStep p pending q pending ns

theorem silent_nil : Silent ([] : List Note) := by
  intro n hn
  cases hn

theorem silent_singleton {n : Note} (h : n.requested? = none ∧ n.found? = none ∧ n.applied? = none) :
    Silent [n] := by
  intro m hm
  rw [List.mem_singleton.1 hm]
  exact h

theorem Demuxer.slotStep [Container C K] (now : Nat) (d : Deck) (w : Demuxer C) :
    SlotStep w.point d.pendingSeek (w.step now d).2.1.point (w.step now d).1.pendingSeek (w.notes d) := by
  cases hp : w.point with
  | poll =>
    simp only [Demuxer.step, Demuxer.notes, hp]
    cases hs : d.pendingSeek with
    | none => exact .other rfl rfl silent_nil
    | some target => exact .find target
  | seek target =>
    simp only [Demuxer.step, Demuxer.notes, hp]
    split
    · next h => rw [h]; exact .ask (.inl ⟨rfl, rfl⟩) (silent_singleton ⟨rfl, rfl, rfl⟩)
    · next h => rw [h]; exact .ask (.inl ⟨rfl, rfl⟩) silent_nil
    · next h => rw [h]; exact .ask (.inr rfl) silent_nil
  | apply target us stage =>
    have hns : Silent (w.notes (K := K) d) := by
      simp only [Demuxer.notes, hp]
      cases stage with
      | markAudio => cases d.audio <;> first | exact silent_nil | exact silent_singleton ⟨rfl, rfl, rfl⟩
      | markVideo => cases d.video <;> first | exact silent_nil | exact silent_singleton ⟨rfl, rfl, rfl⟩
      | clearAudio | clearVideo | holdRing => exact silent_singleton ⟨rfl, rfl, rfl⟩
      | clearRing | setClock | unsetEnded => exact silent_nil
    simp only [Demuxer.step, hp, stage.pendingSeek_act]
    cases stage.next d <;> exact .act ⟨rfl, rfl⟩ ⟨rfl, rfl⟩ hns
  | retire target =>
    simp only [Demuxer.step, Demuxer.notes, hp, d.completeSeek_eq]
    exact .retire target d.pendingSeek
  | start =>
    simp only [Demuxer.step, Demuxer.notes, hp]
    refine .other rfl ?_ silent_nil
    unfold DemuxPoint.entry
    split <;> rfl
  | read =>
    simp only [Demuxer.step, Demuxer.notes, hp]
    split <;> exact .other rfl rfl (silent_singleton ⟨rfl, rfl, rfl⟩)
  | route p =>
    simp only [Demuxer.step, Demuxer.notes, hp, d.pendingSeek_route]
    refine .other rfl rfl (fun n hn => ?_)
    rcases List.mem_cons.1 hn with rfl | hn
    · exact ⟨rfl, rfl, rfl⟩
    · obtain ⟨lane, -, rfl⟩ := List.mem_map.1 hn
      exact ⟨rfl, rfl, rfl⟩
  | markEnded =>
    simp only [Demuxer.step, Demuxer.notes, hp, d.markEnded_eq]
    exact .other rfl rfl silent_nil
  | top | audioRoom | videoRoom | videoIdle | audioIdle | ringEmpty =>
    simp only [Demuxer.step, Demuxer.notes, hp]
    refine .other rfl ?_ silent_nil
    split <;> rfl
  | arrived _ | leaving _ | gone _ =>
    simp only [Demuxer.step, Demuxer.notes, hp]
    exact .other rfl rfl silent_nil

/-! ## The law -/

/-- How the slot, the demuxer and what has happened so far hang together. -/
structure SeekLaw (p : DemuxPoint) (pending : Option Float) (notes : List Note) : Prop where
  /-- While a seek is being done, the slot is not empty. -/
  seeking : ∀ target, p.target? = some target → pending.isSome = true
  /-- The slot holds the newest request. -/
  newest : ∀ r, pending = some r → newestRequest notes = some r
  /-- When the slot is empty, the newest request has been done. -/
  done : pending = none → newestRequest notes = none ∧ lastApplied notes = none ∨
    ∃ r target, newestRequest notes = some r ∧ lastApplied notes = some target ∧ (r == target) = true
  takenUp : ∀ target, p = .seek target → TakenUp notes target
  applying : ∀ target, p.target? = some target → p.isPastSeek = true → lastApplied notes = some target
  founded : Founded notes

theorem seekLaw_start : SeekLaw .start none ([] : List Note) where
  seeking _ h := by cases h
  newest _ h := by cases h
  done _ := .inl ⟨rfl, rfl⟩
  takenUp _ h := by cases h
  applying _ h := by cases h
  founded := founded_nil

theorem SeekLaw.silent {p q : DemuxPoint} {pending : Option Float} {notes ns : List Note}
    (h : SeekLaw p pending notes) (hns : Silent ns) (hseek : ∀ t, q = .seek t → p = .seek t)
    (hpast : ∀ t, q.target? = some t → p.target? = some t ∧ (q.isPastSeek = true → p.isPastSeek = true)) :
    SeekLaw q pending (notes ++ ns) := by
  have hnew := hns.newestRequest_append notes
  have hlast := lastApplied_append_of_none (fun n hn => (hns n hn).2.2) notes
  constructor
  case seeking =>
    intro t ht
    exact h.seeking t (hpast t ht).1
  case newest =>
    intro r hr
    rw [hnew]
    exact h.newest r hr
  case done =>
    intro hn
    rw [hnew, hlast]
    exact h.done hn
  case takenUp =>
    intro t ht
    exact (h.takenUp t (hseek t ht)).append (fun n hn => (hns n hn).2)
  case applying =>
    intro t ht hq
    obtain ⟨hp, hpast⟩ := hpast t ht
    rw [hlast]
    exact h.applying t hp (hpast hq)
  case founded => exact h.founded.append (fun n hn => (hns n hn).2.2)

theorem SeekLaw.request {p : DemuxPoint} {pending : Option Float} {notes : List Note}
    (h : SeekLaw p pending notes) (target : Float) : SeekLaw p (some target) (notes ++ [.requested target]) := by
  have hns : ∀ n ∈ [(.requested target : Note)], n.found? = none ∧ n.applied? = none := by
    intro n hn
    rw [List.mem_singleton.1 hn]
    exact ⟨rfl, rfl⟩
  constructor
  case seeking => exact fun _ _ => rfl
  case newest =>
    intro r hr
    cases hr
    simp [newestRequest, Note.requested?]
  case done =>
    intro hn
    cases hn
  case takenUp =>
    intro t ht
    exact (h.takenUp t ht).append hns
  case applying =>
    intro t ht hpast
    rw [lastApplied_append_of_none (fun n hn => (hns n hn).2)]
    exact h.applying t ht hpast
  case founded => exact h.founded.append (fun n hn => (hns n hn).2)

theorem SeekLaw.find {notes : List Note} {target : Float} (h : SeekLaw .poll (some target) notes) :
    SeekLaw (.seek target) (some target) (notes ++ [.found target]) := by
  have hns : ∀ n ∈ [(.found target : Note)], n.applied? = none := by
    intro n hn
    rw [List.mem_singleton.1 hn]
    rfl
  have hnew : newestRequest (notes ++ [.found target]) = newestRequest notes := by
    simp [newestRequest, Note.requested?]
  constructor
  case seeking => exact fun _ _ => rfl
  case newest =>
    intro r hr
    rw [hnew]
    exact h.newest r hr
  case done =>
    intro hn
    cases hn
  case takenUp =>
    intro t ht
    cases ht
    exact ⟨notes, [], rfl, h.newest _ rfl, fun n hn => by cases hn⟩
  case applying =>
    intro t _ hpast
    cases hpast
  case founded => exact h.founded.append hns

theorem SeekLaw.ask {q : DemuxPoint} {target : Float} {pending : Option Float} {notes ns : List Note}
    (h : SeekLaw (.seek target) pending notes)
    (hq : q.target? = some target ∧ q.isPastSeek = true ∨ q.target? = none) (hns : Silent ns) :
    SeekLaw q pending (notes ++ .applied target :: ns) := by
  have happ : notes ++ .applied target :: ns = (notes ++ [.applied target]) ++ ns := by simp
  have hnew : newestRequest (notes ++ .applied target :: ns) = newestRequest notes := by
    rw [happ, hns.newestRequest_append]
    simp [newestRequest, Note.requested?]
  have hlast : lastApplied (notes ++ .applied target :: ns) = some target := by
    rw [happ, lastApplied_append_of_none (fun n hn => (hns n hn).2.2)]
    simp [lastApplied, Note.applied?]
  have hsome : pending.isSome = true := h.seeking target rfl
  constructor
  case seeking => exact fun _ _ => hsome
  case newest =>
    intro r hr
    rw [hnew]
    exact h.newest r hr
  case done =>
    intro hn
    rw [hn] at hsome
    cases hsome
  case takenUp =>
    intro t ht
    subst ht
    rcases hq with ⟨-, hq⟩ | hq <;> cases hq
  case applying =>
    intro t ht _
    rcases hq with ⟨hq, -⟩ | hq
    · rw [hlast, ← ht, hq]
    · rw [hq] at ht
      cases ht
  case founded =>
    rw [happ]
    exact (h.founded.apply (h.takenUp target rfl)).append (fun n hn => (hns n hn).2.2)

theorem SeekLaw.retire {target : Float} {pending : Option Float} {notes : List Note}
    (h : SeekLaw (.retire target) pending notes) :
    SeekLaw .audioRoom (if pending == some target then none else pending) notes := by
  constructor
  case newest =>
    intro r hr
    split at hr
    · cases hr
    · exact h.newest r hr
  case done =>
    intro hn
    split at hn
    · next heq =>
      -- what is taken out of the slot is the newest request, and it asks for what has just been done
      obtain ⟨r, hr⟩ := Option.isSome_iff_exists.1 (h.seeking target rfl)
      rw [hr, Option.some_beq_some] at heq
      exact .inr ⟨r, target, h.newest r hr, h.applying target rfl rfl, heq⟩
    · exact h.done hn
  case founded => exact h.founded
  case seeking | takenUp | applying =>
    intro t ht
    cases ht

theorem SeekLaw.demux {p q : DemuxPoint} {pending pending' : Option Float} {notes ns : List Note}
    (h : SeekLaw p pending notes) (hs : SlotStep p pending q pending' ns) : SeekLaw q pending' (notes ++ ns) := by
  cases hs with
  | find target => exact h.find
  | ask hq hns => exact h.ask hq hns
  | retire target =>
    rw [List.append_nil]
    exact h.retire
  | act hp hq hns =>
    refine h.silent hns (fun t ht => ?_) (fun t ht => ⟨?_, fun _ => hp.2⟩)
    · subst ht
      cases hq.2
    · rw [hp.1, ← hq.1, ht]
  | other hp hq hns =>
    refine h.silent hns (fun t ht => ?_) (fun t ht => ?_)
    · subst ht
      cases hq
    · rw [hq] at ht
      cases ht

/-- The demuxer empties the slot only when it has done a seek, and only of a request for the same time. -/
theorem SlotStep.slot {p q : DemuxPoint} {pending pending' : Option Float} {ns : List Note}
    (h : SlotStep p pending q pending' ns) :
    pending' = pending ∨ ∃ target, p = .retire target ∧ (pending == some target) = true := by
  cases h with
  | retire target =>
    split
    · next heq => exact .inr ⟨target, rfl, heq⟩
    · exact .inl rfl
  | _ => exact .inl rfl

theorem Taken.silent_notes (lane : Lane) (taken : Taken) : Silent (taken.notes lane : List Note) := by
  cases taken with
  | item i => exact silent_singleton ⟨rfl, rfl, rfl⟩
  | _ => exact silent_nil

theorem Decoder.silent_notes [VideoCodec K] (d : Deck) (w : Decoder K) : Silent (w.notes d) := by
  unfold Decoder.notes
  split
  · exact Taken.silent_notes _ _
  · exact silent_nil

namespace Session

variable [Container C K] [VideoCodec K] [AudioDecoder D]

theorem move_slot (s : Session C K D) (now : Nat) {m : Move} (hm : m ≠ .demux) :
    (s.move now m).demuxer = s.demuxer ∧
      ((∃ target, m = .requestSeek target ∧ (s.move now m).deck.pendingSeek = some target) ∨
        (s.move now m).deck.pendingSeek = s.deck.pendingSeek ∧ Silent (s.notes m)) := by
  cases m with
  | demux => exact absurd rfl hm
  | requestSeek target => exact ⟨rfl, .inl ⟨target, rfl, rfl⟩⟩
  | setPaused on => exact ⟨rfl, .inr ⟨rfl, silent_nil⟩⟩
  | beginClose => exact ⟨rfl, .inr ⟨rfl, silent_nil⟩⟩
  | takeAudio => exact ⟨rfl, .inr ⟨rfl, Taken.silent_notes _ _⟩⟩
  | refresh master =>
    simp only [move, notes]
    split
    · exact ⟨rfl, .inr ⟨rfl, silent_nil⟩⟩
    · exact ⟨rfl, .inr ⟨rfl, silent_singleton ⟨rfl, rfl, rfl⟩⟩⟩
  | decode =>
    simp only [move, notes, decode]
    cases s.decoder with
    | none => exact ⟨rfl, .inr ⟨rfl, silent_nil⟩⟩
    | some w => exact ⟨rfl, .inr ⟨w.pendingSeek_step s.deck, w.silent_notes s.deck⟩⟩

def SeekLawful (s : Session C K D) (notes : List Note) : Prop := SeekLaw s.demuxer.point s.deck.pendingSeek notes

theorem SeekLawful.move {s : Session C K D} {notes : List Note} (h : s.SeekLawful notes) (now : Nat) (m : Move) :
    (s.move now m).SeekLawful (notes ++ s.notes m) := by
  by_cases hm : m = .demux
  · subst hm
    exact h.demux (s.demuxer.slotStep now s.deck)
  · obtain ⟨hw, ⟨target, rfl, hp⟩ | ⟨hp, hns⟩⟩ := s.move_slot now hm
    · rw [SeekLawful, hw, hp]
      exact SeekLaw.request h target
    · rw [SeekLawful, hw, hp]
      exact SeekLaw.silent h hns (fun _ ht => ht) (fun _ ht => ⟨ht, id⟩)

omit [VideoCodec K] [AudioDecoder D] in
theorem seekLawful_start (now : Nat) (config : Config) (container : C) (audio : Option (StreamInfo × D))
    (video : Option (StreamInfo × K)) :
    (Player.sessionOf now config container audio video : Session C K D).SeekLawful [] := seekLaw_start

theorem seekLawful_run (now : Nat) (config : Config) (container : C) (audio : Option (StreamInfo × D))
    (video : Option (StreamInfo × K)) (moves : List (Nat × Move)) :
    ((Player.sessionOf now config container audio video : Session C K D).run moves).SeekLawful
      ((Player.sessionOf now config container audio video : Session C K D).chronicle moves) :=
  run_keeps (P := SeekLawful) (fun _ _ now m h => h.move now m) _ []
    (seekLawful_start now config container audio video) moves

/-- **No seek request is lost.**  Whatever the order of the moves: every target that is applied was the newest request
when the demuxer looked; a request that waits is replaced by a newer one, or stays until a seek to the same time has
been applied; and if none waits, the target that was asked for last is the one that was applied last. -/
theorem seek_requests_kept (now : Nat) (config : Config) (container : C) (audio : Option (StreamInfo × D))
    (video : Option (StreamInfo × K)) (moves : List (Nat × Move)) :
    let start : Session C K D := Player.sessionOf now config container audio video
    let s := start.run moves
    let notes := start.chronicle moves
    Founded notes ∧
    (∀ r, s.deck.pendingSeek = some r → newestRequest notes = some r ∧
      ∀ at_ m, (s.move at_ m).deck.pendingSeek = some r ∨ (∃ newer, m = .requestSeek newer) ∨
        ∃ target, m = .demux ∧ s.demuxer.point = .retire target ∧ lastApplied notes = some target ∧
          (r == target) = true) ∧
    (s.deck.pendingSeek = none → newestRequest notes = none ∧ lastApplied notes = none ∨
      ∃ r target, newestRequest notes = some r ∧ lastApplied notes = some target ∧ (r == target) = true) := by
  intro start s notes
  have law : SeekLaw s.demuxer.point s.deck.pendingSeek notes := seekLawful_run now config container audio video moves
  refine ⟨law.founded, ?_, law.done⟩
  intro r hr
  refine ⟨law.newest r hr, ?_⟩
  intro at_ m
  by_cases hm : m = .demux
  · subst hm
    rcases (s.demuxer.slotStep at_ s.deck).slot with hp | ⟨target, hp, heq⟩
    · exact .inl (hp.trans hr)
    · have happlied : lastApplied notes = some target := by
        apply law.applying target <;> rw [hp] <;> rfl
      rw [hr, Option.some_beq_some] at heq
      exact .inr (.inr ⟨target, rfl, hp, happlied, heq⟩)
  · obtain ⟨-, ⟨target, rfl, -⟩ | ⟨hp, -⟩⟩ := s.move_slot at_ hm
    · exact .inr (.inl ⟨target, rfl⟩)
    · exact .inl (hp.trans hr)

end Session

end Playhead
