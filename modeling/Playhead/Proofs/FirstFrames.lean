import Playhead.Proofs.PatternReads
/-!
# FirstFrames — the first picture behind a seek

Of the frames that an epoch reads, those that are too early are received and thrown away, and the first other one is
the first picture that comes into the ring (`TestPattern.Source.come_of_decoded`).  So the first picture of an epoch
is the first frame from the position of the seek on that is not too early, and it is there as soon as the worker has
come that far (`Regular.first_run`).
-/
namespace Playhead

namespace TestPattern.Source

def Early (s : Source) (skipBefore : Option Float) (n : Nat) : Prop :=
  ∃ t, skipBefore = some t ∧ s.frameTime n + Decoder.tolerance < t

/-- What has become of frames: all were early, or the first picture is the first that was not. -/
def Shown (s : Source) (skipBefore : Option Float) (ns : List Nat) (first : Option Float) : Prop :=
  (first = none ∧ ∀ n ∈ ns, s.Early skipBefore n) ∨
    ∃ before n after, ns = before ++ n :: after ∧ (∀ i ∈ before, s.Early skipBefore i) ∧ ¬ s.Early skipBefore n ∧
      first = some (s.frameTime n)

variable {s : Source} {start l : Line Codec} {ps : List Packet} {frames : List Accepted} {inside : Bool}

/-- How far a decoding has come with the frames whose packets it was given. -/
structure Come (s : Source) (start : Line Codec) (ns : List Nat) (frames : List Accepted) (inside : Bool)
    (l : Line Codec) (heard waiting : List Nat) : Prop where
  split : ns = heard ++ waiting
  all : inside = false → waiting = []
  pending : l.codec.pending.toList.map (·.2) = waiting.map (fun n => some (Int64.ofNat n))
  skip : frames = [] → l.skipBefore = start.skipBefore
  shown : s.Shown start.skipBefore heard (frames.head?.map Accepted.pts)

theorem timeOf_frame {f : FrameInfo} {n : Nat} (hf : f.timestamp = some (Int64.ofNat n)) :
    l.timeOf s.videoStream f = s.frameTime n := by
  unfold Line.timeOf
  rw [hf]
  rfl

theorem early_iff {f : FrameInfo} {n : Nat} (hf : f.timestamp = some (Int64.ofNat n)) :
    l.skips s.videoStream f = true ↔ s.Early l.skipBefore n := by
  unfold Line.skips Early
  rw [timeOf_frame hf]
  cases l.skipBefore <;> simp

theorem receive_some {k k' : Codec} {f : FrameInfo} {waiting : List Nat}
    (h : k.pending.toList.map (·.2) = waiting.map (fun n => some (Int64.ofNat n)))
    (hr : VideoCodec.receive k = (.ok (some f), k')) :
    ∃ n behind, waiting = n :: behind ∧ f.timestamp = some (Int64.ofNat n) ∧
      k'.pending.toList.map (·.2) = behind.map (fun n => some (Int64.ofNat n)) := by
  change k.receive = (.ok (some f), k') at hr
  unfold Codec.receive at hr
  split at hr
  · cases hr
  · next frame pts pending hpop =>
    cases hr
    rw [Fifo.pop?_eq_some hpop, List.map_cons] at h
    obtain ⟨n, behind, rfl, hn, hbehind⟩ := List.map_eq_cons_iff.1 h.symm
    exact ⟨n, behind, rfl, hn.symm, hbehind.symm⟩

theorem receive_none {k k' : Codec} {waiting : List Nat}
    (h : k.pending.toList.map (·.2) = waiting.map (fun n => some (Int64.ofNat n)))
    (hr : VideoCodec.receive k = (.ok none, k')) : waiting = [] ∧ k' = k := by
  change k.receive = (.ok none, k') at hr
  unfold Codec.receive at hr
  split at hr
  · next hpop =>
    cases hr
    rw [Fifo.pop?_eq_none.1 hpop] at h
    exact ⟨List.map_eq_nil_iff.1 h.symm, rfl⟩
  · cases hr

/-- A frame more has been heard: a picture that was there stays the first one, and otherwise this frame is early or is
the first. -/
theorem Shown.hear {skipBefore : Option Float} {heard : List Nat} {frames : List Accepted}
    (h : s.Shown skipBefore heard (frames.head?.map Accepted.pts)) (n : Nat) (more : List Accepted)
    (hn : frames = [] → more = [] ∧ s.Early skipBefore n ∨
      ¬ s.Early skipBefore n ∧ more.head?.map Accepted.pts = some (s.frameTime n)) :
    s.Shown skipBefore (heard ++ [n]) ((frames ++ more).head?.map Accepted.pts) := by
  rcases h with ⟨hnone, hearly⟩ | ⟨before, m, after, rfl, hbefore, hm, hfirst⟩
  · have hnil : frames = [] := List.head?_eq_none_iff.1 (Option.map_eq_none_iff.1 hnone)
    subst hnil
    rcases hn rfl with ⟨rfl, he⟩ | ⟨he, hfirst⟩
    · refine .inl ⟨rfl, fun i hi => ?_⟩
      rcases List.mem_append.1 hi with hi | hi
      · exact hearly i hi
      · rw [List.mem_singleton.1 hi]
        exact he
    · exact .inr ⟨heard, n, [], rfl, hearly, he, hfirst⟩
  · refine .inr ⟨before, m, after ++ [n], by simp, hbefore, hm, ?_⟩
    cases frames with
    | nil => cases hfirst
    | cons a frames => exact hfirst

/-- **What has become of the frames of a decoding.** -/
theorem come_of_decoded (h : Decoded Codec.contract s.videoStream start ps frames inside l)
    (hfresh : start.codec.pending.toList = []) (ns : List Nat) (hps : ps = ns.map (s.videoPacket 0)) :
    ∃ heard waiting, s.Come start ns frames inside l heard waiting := by
  induction h generalizing ns with
  | start =>
    obtain rfl : ns = [] := List.map_eq_nil_iff.1 hps.symm
    exact ⟨[], [], rfl, fun _ => rfl, by rw [hfresh]; rfl, fun _ => rfl, .inl ⟨rfl, fun n hn => by cases hn⟩⟩
  | @send ps frames l p k h hs ih =>
    obtain ⟨ns, last, rfl, hns, hlast⟩ := List.map_eq_append_iff.1 hps.symm
    obtain ⟨n, rfl, rfl⟩ := List.map_eq_singleton_iff.1 hlast
    obtain ⟨heard, waiting, come⟩ := ih ns hns.symm
    obtain rfl := come.all rfl
    change l.codec.send (s.videoPacket 0 n) = (.ok (), k) at hs
    unfold Codec.send at hs
    split at hs
    · cases hs
    · cases hs
      refine ⟨heard, [n], by rw [come.split, List.append_nil], nofun, ?_, come.skip, come.shown⟩
      rw [Fifo.toList_push, List.map_append, come.pending]
      rfl
  | @skip ps frames l f k h hr hf ih =>
    obtain ⟨heard, waiting, come⟩ := ih ns hps
    obtain ⟨n, behind, rfl, ht, hpending⟩ := receive_some come.pending hr
    refine ⟨heard ++ [n], behind, by rw [come.split, List.append_assoc]; rfl, nofun, hpending, come.skip, ?_⟩
    have shown := come.shown.hear n [] (fun hnil =>
      .inl ⟨rfl, by rw [← come.skip hnil]; exact (early_iff ht).1 hf⟩)
    rwa [List.append_nil] at shown
  | @accept ps frames l f k k' buffer image h hr hf hb hc ih =>
    obtain ⟨heard, waiting, come⟩ := ih ns hps
    obtain ⟨n, behind, rfl, ht, hpending⟩ := receive_some come.pending hr
    have hk : k' = k := by
      cases hc
      rfl
    refine ⟨heard ++ [n], behind, by rw [come.split, List.append_assoc]; rfl, nofun, ?_, fun hnil => ?_, ?_⟩
    · rw [hk]
      exact hpending
    · exact absurd hnil (List.append_ne_nil_of_right_ne_nil _ (List.cons_ne_nil _ _))
    · refine come.shown.hear n _ (fun hnil => .inr ⟨fun he => ?_, ?_⟩)
      · rw [← come.skip hnil, ← early_iff ht, hf] at he
        cases he
      · exact congrArg some (timeOf_frame ht)
  | @done ps frames l k h hr ih =>
    obtain ⟨heard, waiting, come⟩ := ih ns hps
    obtain ⟨hnil, rfl⟩ := receive_none come.pending hr
    exact ⟨heard, waiting, come.split, fun _ => hnil, come.pending, come.skip, come.shown⟩

variable {D : Type} [AudioDecoder D]

/-- The first frames of the position that an epoch reads from come to its first picture; all that were read, when the
worker has come for the next item and nothing is on its way to it. -/
theorem Regular.shown_run (hs : s.Regular) (now : Nat) (config : Config) (audio : Option (StreamInfo × D))
    {codec : Codec} (hfresh : codec.pending.toList = []) (moves : List (Nat × Move)) :
    let start : Session Source Codec D := Player.sessionOf now config s audio (some (s.videoStream, codec))
    let x := start.run moves
    let e := Epoch.after start.deck.laneOf {} (start.chronicle moves)
    ∃ heard, s.Shown (e.seek.map s.markTime) heard ((e.left ++ x.deck.ring.pictures).head?.map Picture.pts) ∧
      heard <+: List.range' (s.landing e.seek) e.read.length ∧
      ((∀ w ∈ x.decoder, w.ending? = none) → x.demuxer.point.phase .video = .settled → x.demuxer.point.inHand = [] →
        x.deck.videoQueue.isIdle = true → heard = List.range' (s.landing e.seek) e.read.length) := by
  intro start x e
  have placed : s.Placed x.demuxer e := hs.placed_run now config audio codec moves
  have law : x.EpochLawful Codec.contract s.videoStream codec start.deck.laneOf (start.chronicle moves) :=
    Session.epochLawful_run now config s audio hfresh moves
  have ends : x.EndLawful := Session.endLawful_run now config s audio (some (s.videoStream, codec)) moves
  have reads : e.read = e.packets ++ x.demuxer.point.inHand.filter (fun p => start.deck.laneOf p = some .video) :=
    Session.reads_epoch rfl start.deck.laneOf moves
  obtain ⟨w, hw, hlaw⟩ := law.worker
  obtain ⟨line, packets, rest, inside, l, hopens, hpackets, ⟨frames, hd, hpics⟩, hall⟩ :=
    hlaw.standing.shows hfresh law.queued.front
  change e.packets = packets ++ rest at hpackets
  change e.left ++ x.deck.ring.pictures = _ at hpics
  have hread : (List.range' (s.landing e.seek) e.read.length).map (s.videoPacket 0) =
      packets ++ (rest ++ x.demuxer.point.inHand.filter (fun p => start.deck.laneOf p = some .video)) := by
    rw [← placed.read, reads, hpackets, List.append_assoc]
  obtain ⟨ns, behind, hns, rfl, hbehind⟩ := List.map_eq_append_iff.1 hread
  obtain ⟨heard, waiting, come⟩ := come_of_decoded hd (hopens.fresh hfresh) ns rfl
  have hskip : line.skipBefore = e.seek.map s.markTime := by
    cases hseek : e.seek with
    | none =>
      change line.Opens _ _ _ e.seek at hopens
      rw [hseek] at hopens
      have hline : line = { codec } := hopens
      rw [hline]
      rfl
    | some us =>
      change line.Opens _ _ _ e.seek at hopens
      rw [hseek] at hopens
      exact hopens.2.2.trans (congrArg some hopens.2.1)
  have hhead : (e.left ++ x.deck.ring.pictures).head?.map Picture.pts = frames.head?.map Accepted.pts := by
    rw [hpics, List.head?_map, Option.map_map]
    rfl
  refine ⟨heard, ?_, ?_, ?_⟩
  · rw [hhead, ← hskip]
    exact come.shown
  · rw [hns, come.split, List.append_assoc]
    exact List.prefix_append _ _
  · intro hend hphase hhand hidle
    obtain ⟨hrest, hinside⟩ := hall (ends.point_of_idle hw hidle (hend w hw)) (law.taken_of_idle hphase hidle)
    rw [hrest, hhand] at hbehind
    have hnil : behind = [] := List.map_eq_nil_iff.1 hbehind
    rw [hns, hnil, come.split, come.all hinside, List.append_nil, List.append_nil]

/-- **The first picture behind a seek** is the first frame from its position that is not too early. -/
theorem Shown.firstAt {us : Ticks} {heard : List Nat} {k : Nat} {first : Option Float}
    (h : s.Shown (some (s.markTime us)) heard first) (hfront : heard <+: List.range' (s.landing (some us)) k)
    (hk : k = 0 ∨ s.landing (some us) + k ≤ s.frameCount) {pts : Float} (hp : pts ∈ first) :
    ∃ j, s.FirstAt us j ∧ j < s.frameCount ∧ pts = s.frameTime j := by
  rcases h with ⟨hnone, -⟩ | ⟨before, j, after, rfl, hbefore, hj, hfirst⟩
  · rw [hnone] at hp
    cases hp
  · obtain ⟨rest, hrest⟩ := hfront
    rw [List.append_assoc] at hrest
    obtain ⟨m, -, rfl, hbehind⟩ := List.range'_eq_append_iff.1 hrest.symm
    obtain ⟨rfl, hlt, -⟩ := List.range'_eq_cons_iff.1 hbehind.symm
    have hcount : s.landing (some us) + k ≤ s.frameCount := hk.resolve_left (by omega)
    have hland : s.landing (some us) = s.frameAt us := by
      have hmin : s.landing (some us) = min (s.frameAt us) s.frameCount := rfl
      omega
    rw [Nat.mul_one] at hj hfirst
    rw [hfirst] at hp
    refine ⟨s.landing (some us) + m, ⟨by omega, fun i hi hlt => ?_, fun he => hj ⟨_, rfl, he⟩⟩, by omega,
      (Option.some.inj hp).symm⟩
    obtain ⟨t, ht, he⟩ := hbefore i (List.mem_range'_1.2 ⟨by omega, hlt⟩)
    cases ht
    exact he

theorem Shown.some_of_mem {skipBefore : Option Float} {heard : List Nat} {first : Option Float}
    (h : s.Shown skipBefore heard first) {j : Nat} (hj : j ∈ heard) (hdue : ¬ s.Early skipBefore j) : first ≠ none := by
  rcases h with ⟨-, hall⟩ | ⟨before, n, after, -, -, -, hfirst⟩
  · exact absurd (hall j hj) hdue
  · rw [hfirst]
    exact nofun

/-- **The first picture of a run's epoch** is that frame; and it is there when the frame has been read, and the worker
has come for the next item with nothing on its way to it. -/
theorem Regular.first_run (hs : s.Regular) (now : Nat) (config : Config) (audio : Option (StreamInfo × D))
    {codec : Codec} (hfresh : codec.pending.toList = []) (moves : List (Nat × Move)) :
    let start : Session Source Codec D := Player.sessionOf now config s audio (some (s.videoStream, codec))
    let x := start.run moves
    let e := Epoch.after start.deck.laneOf {} (start.chronicle moves)
    ∀ us, e.seek = some us →
      (∀ p ∈ (e.left ++ x.deck.ring.pictures).head?, ∃ j, s.FirstAt us j ∧ j < s.frameCount ∧ p.pts = s.frameTime j) ∧
      ∀ j, s.FirstAt us j → j < x.demuxer.container.position → (∀ w ∈ x.decoder, w.ending? = none) →
        x.demuxer.point.phase .video = .settled → x.demuxer.point.inHand = [] → x.deck.videoQueue.isIdle = true →
        e.left ++ x.deck.ring.pictures ≠ [] := by
  intro start x e us hseek
  have placed : s.Placed x.demuxer e := hs.placed_run now config audio codec moves
  obtain ⟨heard, hshown, hfront, hall⟩ := hs.shown_run now config audio hfresh moves
  change s.Shown (e.seek.map s.markTime) heard _ at hshown
  change heard <+: List.range' (s.landing e.seek) e.read.length at hfront
  have hwithin := placed.within
  rw [hseek] at hshown hfront hwithin
  refine ⟨fun p hp => ?_, fun j hj hread hloop hphase hhand hidle hnone => ?_⟩
  · refine hshown.firstAt hfront (hwithin.imp_left (fun hnil => by rw [hnil]; rfl)) ?_
    exact Option.mem_map.2 ⟨p, hp, rfl⟩
  · have hheard : heard = List.range' (s.landing e.seek) e.read.length := hall hloop hphase hhand hidle
    have hposition := placed.position
    rw [hphase] at hposition
    change x.demuxer.container.position = s.landing e.seek + e.read.length at hposition
    rw [hseek] at hheard hposition
    have hland : s.landing (some us) ≤ s.frameAt us := Nat.min_le_left _ _
    have hbehind := hj.behind
    refine hshown.some_of_mem (j := j) ?_ (fun ⟨t, ht, he⟩ => ?_) ?_
    · rw [hheard, List.mem_range'_1]
      omega
    · cases ht
      exact hj.due he
    · rw [hnone]
      rfl

end TestPattern.Source
end Playhead
