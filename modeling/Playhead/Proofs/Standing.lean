import Playhead.Proofs.Decoding
import Playhead.Proofs.Epochs
/-!
# Standing — where the decode worker stands in an epoch

From the shutting of the ring on the decode worker is behind (`Standing.behind`) until it takes the marker of the epoch:
whatever it still has in its hands, a packet, a frame or the marker of an earlier seek, does not come into the ring,
for the ring is shut, or it does not come to hand anything in before it takes the next item.  At the marker nothing is
in the ring and the codec is flushed; from there on the pictures that left the ring and those that are in it are the
frames of the packets it has heard since (`Standing.current`).  Whatever the worker and the driver do keeps the worker
in one of these places (`WorkerLaw.decode`, `WorkerLaw.refresh`, `WorkerLaw.shut`), and in each of them the pictures are
what they should be (`Standing.shows`).
-/
namespace Playhead

variable {K : Type}

/-- The worker is about a packet: it may come to hand a picture in before it takes the next item. -/
def DecodePoint.inPacket : DecodePoint → Bool
  | .send _ | .receive | .place _ | .convert _ | .commit _ => true
  | _ => false

section

variable [VideoCodec K]

def Decoder.line (w : Decoder K) : Line K := ⟨w.codec, w.clock, w.skipBefore⟩

def Shows (contract : CodecContract K) (stream : StreamInfo) (start : Line K) (ps : List Packet) (inside : Bool)
    (l : Line K) (pictures : List Picture) : Prop :=
  ∃ frames, Decoded contract stream start ps frames inside l ∧ pictures = frames.map Accepted.picture

def Received (contract : CodecContract K) (stream : StreamInfo) (start : Line K) (heard : List Packet) (w : Decoder K)
    (pictures : List Picture) (pts : Float) : Prop :=
  ∃ l f, Shows contract stream start heard true l pictures ∧ VideoCodec.receive l.codec = (.ok (some f), w.codec) ∧
    l.skips stream f = false ∧ pts = l.timeOf stream f ∧ w.clock = l.timeBehind stream f ∧ w.skipBefore = none

def Converted (contract : CodecContract K) (stream : StreamInfo) (start : Line K) (heard : List Packet) (w : Decoder K)
    (pictures : List Picture) (pts : Float) : Prop :=
  ∃ l f k buffer, Shows contract stream start heard true l pictures ∧ VideoCodec.receive l.codec = (.ok (some f), k) ∧
    l.skips stream f = false ∧ pts = l.timeOf stream f ∧ w.clock = l.timeBehind stream f ∧ w.skipBefore = none ∧
    Buffer K buffer ∧ VideoCodec.convert k buffer = (.ok (), w.spare, w.codec)

/-- How far the worker has come with the packets that it has heard. -/
def Progress (contract : CodecContract K) (stream : StreamInfo) (start : Line K) (heard : List Packet) (w : Decoder K)
    (ring : PictureRing) (pictures : List Picture) : Prop :=
  match w.point with
  | .take => Shows contract stream start heard false w.line pictures
  | .send p => ∃ before, heard = before ++ [p] ∧ Shows contract stream start before false w.line pictures
  | .receive => Shows contract stream start heard true w.line pictures
  | .place pts => Received contract stream start heard w pictures pts
  | .convert pts => Received contract stream start heard w pictures pts ∧ ring.isFull = false
  | .commit pts => Converted contract stream start heard w pictures pts ∧ ring.isFull = false
  | .leaving _ | .gone _ =>
    ∃ before rest inside l, heard = before ++ rest ∧ Shows contract stream start before inside l pictures
  | .flushCodec _ | .resetRing _ => False

/-- The worker is at a marker, or left its loop there. -/
def AtMarker (contract : CodecContract K) (ticks : Ticks) (w : Decoder K) : Prop :=
  match w.point with
  | .flushCodec start => start = ticks
  | .resetRing start => start = ticks ∧ contract.fresh w.codec
  | .leaving _ | .gone _ => True
  | _ => False

/-- **Where the worker stands in the epoch.** -/
inductive Standing (contract : CodecContract K) (stream : StreamInfo) (codec : K) (w : Decoder K) (ring : PictureRing)
    (e : Epoch) : Prop
  /-- It has not come to the marker of the epoch, and what it hands in until then does not come into the ring. -/
  | behind (hseek : e.seek.isSome = true) (htaken : e.taken = []) (hleft : e.left = []) (hring : ring.pictures = [])
      (hold : ring.holding = true ∨ w.point.inPacket = false)
  | atMarker {us : Ticks} (hseek : e.seek = some us) (htaken : e.taken = [SeekStage.marker stream us])
      (hleft : e.left = []) (hring : ring.pictures = [])
      (hp : AtMarker contract (stream.timeBase.rescale us .micros) w)
  | current {start : Line K} {heard : List Packet} (hopens : start.Opens contract stream codec e.seek)
      (htaken : e.taken = Timeline.items stream { seek := e.seek, packets := heard }) (hopen : ring.holding = false)
      (hp : Progress contract stream start heard w ring (e.left ++ ring.pictures))

structure WorkerLaw (contract : CodecContract K) (stream : StreamInfo) (codec : K) (w : Decoder K) (ring : PictureRing)
    (e : Epoch) : Prop where
  stream_eq : w.stream = stream
  laid : ring.Laid
  spare : Buffer K w.spare
  slots : ∀ i, Buffer K (ring.slot i).image
  standing : Standing contract stream codec w ring e

variable {contract : CodecContract K} {stream : StreamInfo} {codec : K} {w : Decoder K} {ring : PictureRing} {e : Epoch}
  {start : Line K} {heard : List Packet} {pictures : List Picture}

omit [VideoCodec K] in
theorem Decoder.timeOf_eq (w : Decoder K) (f : FrameInfo) : w.timeOf f = w.line.timeOf w.stream f := by
  unfold Decoder.timeOf Line.timeOf
  cases f.timestamp <;> rfl

omit [VideoCodec K] in
theorem Decoder.advance_eq (w : Decoder K) (f : FrameInfo) :
    w.advance f =
      if w.line.skips w.stream f then { w with clock := w.line.timeBehind w.stream f, point := .receive }
      else
        { w with
          clock := w.line.timeBehind w.stream f
          skipBefore := none
          point := .place (w.line.timeOf w.stream f) } := by
  have ht := w.timeOf_eq f
  unfold Decoder.advance
  simp only [ht]
  rfl

theorem Line.Opens.fresh {seek : Option Ticks} (h : start.Opens contract stream codec seek)
    (hfresh : contract.fresh codec) : contract.fresh start.codec := by
  cases seek with
  | none =>
    have h : start = { codec } := h
    rw [h]
    exact hfresh
  | some us => exact h.1

theorem Progress.step {d : Deck} {left : List Picture} (hstream : w.stream = stream) (hlaid : d.ring.Laid)
    (hspare : Buffer K w.spare) (hfresh : contract.fresh start.codec) (hopen : d.ring.holding = false)
    (ht : w.point ≠ .take) (hp : Progress contract stream start heard w d.ring (left ++ d.ring.pictures)) :
    (w.step d).1.ring.holding = false ∧
      Progress contract stream start heard (w.step d).2.1 (w.step d).1.ring (left ++ (w.step d).1.ring.pictures) := by
  subst hstream
  cases hpoint : w.point with
  | take => exact absurd hpoint ht
  | flushCodec m | resetRing m =>
    simp only [Progress, hpoint] at hp
  | send p =>
    simp only [Progress, hpoint] at hp
    obtain ⟨before, hheard, frames, hd, hpic⟩ := hp
    simp only [Decoder.step, hpoint]
    split
    · next k hs =>
      refine ⟨hopen, frames, ?_, hpic⟩
      rw [hheard]
      exact hd.send hs
    · exact ⟨hopen, before, [p], false, w.line, hheard, frames, hd, hpic⟩
    · exact ⟨hopen, before, [p], false, w.line, hheard, frames, hd, hpic⟩
  | receive =>
    simp only [Progress, hpoint] at hp
    obtain ⟨frames, hd, hpic⟩ := hp
    simp only [Decoder.step, hpoint]
    split
    · next f k hr =>
      refine ⟨hopen, ?_⟩
      rw [Decoder.advance_eq]
      split
      · next hf => exact ⟨frames, hd.skip hr hf, hpic⟩
      · next hf => exact ⟨w.line, f, ⟨frames, hd, hpic⟩, hr, Bool.eq_false_iff.2 hf, rfl, rfl, rfl⟩
    · next k hr => exact ⟨hopen, frames, hd.done hr, hpic⟩
    · exact ⟨hopen, heard, [], true, w.line, (List.append_nil heard).symm, frames, hd, hpic⟩
    · exact ⟨hopen, heard, [], true, w.line, (List.append_nil heard).symm, frames, hd, hpic⟩
  | place pts =>
    simp only [Progress, hpoint] at hp
    simp only [Decoder.step, hpoint]
    split
    · next hslot =>
      refine ⟨hopen, hp, Bool.eq_false_iff.2 (fun hfull => ?_)⟩
      cases hstop : d.stop <;> simp [PictureRing.slotFor, hstop, hfull, hopen] at hslot
    · refine ⟨hopen, ?_⟩
      simp only [Progress, hpoint]
      exact hp
    · obtain ⟨l, f, hd, -⟩ := hp
      exact ⟨hopen, heard, [], true, l, (List.append_nil heard).symm, hd⟩
  | convert pts =>
    simp only [Progress, hpoint] at hp
    obtain ⟨⟨l, f, hd, hr, hf, hpts, hclock, hskip⟩, hfull⟩ := hp
    simp only [Decoder.step, hpoint]
    split
    · next image k hc => exact ⟨hopen, ⟨l, f, w.codec, w.spare, hd, hr, hf, hpts, hclock, hskip, hspare, hc⟩, hfull⟩
    · exact ⟨hopen, heard, [], true, l, (List.append_nil heard).symm, hd⟩
    · exact ⟨hopen, heard, [], true, l, (List.append_nil heard).symm, hd⟩
  | commit pts =>
    simp only [Progress, hpoint] at hp
    obtain ⟨⟨l, f, k, buffer, ⟨frames, hd, hpic⟩, hr, hf, hpts, hclock, hskip, hb, hc⟩, hfull⟩ := hp
    -- whatever the buffer held before, it holds what the codec shows of the frame that it received last
    have hlook : w.spare = contract.look k := contract.converted hfresh hd.fed hr hb hc
    have hpics : (d.ring.commit pts w.spare).1.pictures = d.ring.pictures ++ [⟨pts, w.spare⟩] := by
      rw [PictureRing.pictures_commit hlaid, hopen, hfull]
      rfl
    have hold : (d.ring.commit pts w.spare).1.holding = false := by
      unfold PictureRing.commit
      split <;> exact hopen
    have hline : (⟨w.codec, l.timeBehind w.stream f, none⟩ : Line K) = w.line := by
      rw [← hclock, ← hskip]
      rfl
    have hd' := hd.accept hr hf hb hc
    rw [hline] at hd'
    simp only [Decoder.step, hpoint]
    refine ⟨hold, _, hd', ?_⟩
    rw [hpics, ← List.append_assoc, hpic, List.map_append, hpts, hlook]
    rfl
  | leaving how =>
    simp only [Progress, hpoint] at hp
    simp only [Decoder.step, hpoint]
    exact ⟨hopen, hp⟩
  | gone how =>
    simp only [Decoder.step, hpoint]
    refine ⟨hopen, ?_⟩
    simp only [Progress, hpoint] at hp ⊢
    exact hp

theorem Decoder.take_cases {w : Decoder K} (hp : w.point = .take) (d : Deck) :
    (∃ p, w.notes d = [.took .video (.packet p)] ∧ (w.step d).2.1 = { w with point := .send p }) ∨
      (∃ m, w.notes d = [.took .video (.marker m)] ∧ (w.step d).2.1 = { w with point := .flushCodec m }) ∨
      w.notes d = [] ∧ ((w.step d).2.1 = { w with point := .leaving .finished } ∨ (w.step d).2.1 = w) := by
  simp only [Decoder.step, Decoder.notes, hp]
  cases (d.videoQueue.take d.stop).1 with
  | item i =>
    cases i with
    | packet p => exact .inl ⟨p, rfl, rfl⟩
    | marker m => exact .inr (.inl ⟨m, rfl, rfl⟩)
  | flushed => exact .inr (.inr ⟨rfl, .inl rfl⟩)
  | stopped => exact .inr (.inr ⟨rfl, .inl rfl⟩)
  | nothing => exact .inr (.inr ⟨rfl, .inr rfl⟩)

theorem Decoder.notes_of_ne_take {w : Decoder K} (hp : w.point ≠ .take) (d : Deck) : w.notes d = [] := by
  unfold Decoder.notes
  split
  · next h => exact absurd h hp
  · rfl

omit [VideoCodec K] in
theorem marker_of_front {us : Ticks} {packets : List Packet} {i : QueueItem}
    (h : [i] <+: Timeline.items stream { seek := some us, packets }) : i = SeekStage.marker stream us :=
  (List.cons_prefix_cons.1 h).1

omit [VideoCodec K] in
theorem packet_of_front {seek : Option Ticks} {packets : List Packet} {i : QueueItem}
    (h : Timeline.items stream { seek, packets := heard } ++ [i] <+: Timeline.items stream { seek, packets }) :
    ∃ p, i = .packet p := by
  unfold Timeline.items at h
  rw [List.append_assoc, List.prefix_append_right_inj] at h
  have hm : i ∈ packets.map QueueItem.packet := h.subset (List.mem_append_right _ List.mem_cons_self)
  obtain ⟨p, -, hp⟩ := List.mem_map.1 hm
  exact ⟨p, hp.symm⟩

theorem Decoder.ring_step_holding {w : Decoder K} {d : Deck} (hold : d.ring.holding = true)
    (hp : w.point.inPacket = true) : (w.step d).1.ring = d.ring := by
  cases hpoint : w.point with
  | commit pts =>
    simp only [Decoder.step, hpoint]
    exact PictureRing.commit_holding hold pts w.spare
  | send p | receive | place pts | convert pts =>
    simp only [Decoder.step, hpoint]
    split <;> rfl
  | _ =>
    rw [hpoint] at hp
    cases hp

/-- A worker that is behind does not get anything into the ring, and comes to the marker next. -/
theorem Standing.behind_step {d : Deck} {dest : Packet → Option Lane} {us : Ticks} (hseek : e.seek = some us)
    (htaken : e.taken = []) (hleft : e.left = []) (hring : d.ring.pictures = [])
    (hold : d.ring.holding = true ∨ w.point.inPacket = false)
    (hfront : (e.after dest (w.notes d)).taken <+: (e.after dest (w.notes d)).toTimeline.items stream) :
    Standing contract stream codec (w.step d).2.1 (w.step d).1.ring (e.after dest (w.notes d)) := by
  have hsome : e.seek.isSome = true := by rw [hseek]; rfl
  by_cases ht : w.point = .take
  · -- nothing of the epoch was taken, so what is at the front of the queue is its marker
    have hr : (w.step d).1.ring = d.ring := Decoder.ring_step (by rw [ht]; rfl) d
    have took : ∀ i, w.notes d = [.took .video i] → i = SeekStage.marker stream us := by
      intro i hn
      rw [hn] at hfront
      change e.taken ++ [i] <+: e.toTimeline.items stream at hfront
      have hitems : e.toTimeline = { seek := some us, packets := e.packets } := by rw [← hseek]
      rw [htaken, hitems] at hfront
      exact marker_of_front hfront
    rcases w.take_cases ht d with ⟨p, hn, hw⟩ | ⟨m, hn, hw⟩ | ⟨hn, hw⟩
    · cases took _ hn
    · have hm := took _ hn
      rw [hn, hw, hr]
      refine .atMarker hseek ?_ hleft hring (QueueItem.marker.inj hm)
      change e.taken ++ [.marker m] = _
      rw [htaken, hm]
      rfl
    · rw [hn, hr]
      refine .behind hsome htaken hleft hring (.inr ?_)
      rcases hw with hw | hw
      · rw [hw]
        rfl
      · rw [hw, ht]
        rfl
  · rw [w.notes_of_ne_take ht]
    cases hp : w.point.inPacket with
    | true =>
      -- it may hand in a picture of the epoch before, but the ring is shut
      have hold : d.ring.holding = true := hold.resolve_right (by rw [hp]; exact fun h => by cases h)
      rw [Decoder.ring_step_holding hold hp]
      exact .behind hsome htaken hleft hring (.inl hold)
    | false =>
      have hnext : (w.step d).2.1.point.inPacket = false ∧ (w.step d).1.ring.pictures = [] := by
        cases hpoint : w.point with
        | take => exact absurd hpoint ht
        | flushCodec m =>
          simp only [Decoder.step, hpoint]
          split <;> exact ⟨rfl, hring⟩
        | resetRing m =>
          simp only [Decoder.step, hpoint]
          exact ⟨rfl, rfl⟩
        | leaving how =>
          simp only [Decoder.step, hpoint]
          exact ⟨rfl, hring⟩
        | gone how =>
          simp only [Decoder.step, hpoint]
          exact ⟨rfl, hring⟩
        | _ =>
          rw [hpoint] at hp
          cases hp
      exact .behind hsome htaken hleft hnext.2 (.inr hnext.1)

theorem Standing.atMarker_step {d : Deck} {us : Ticks} (hstream : w.stream = stream) (hseek : e.seek = some us)
    (htaken : e.taken = [SeekStage.marker stream us]) (hleft : e.left = []) (hring : d.ring.pictures = [])
    (hp : AtMarker contract (stream.timeBase.rescale us .micros) w) :
    Standing contract stream codec (w.step d).2.1 (w.step d).1.ring e := by
  subst hstream
  cases hpoint : w.point with
  | flushCodec m =>
    simp only [AtMarker, hpoint] at hp
    simp only [Decoder.step, hpoint]
    split
    · exact .atMarker hseek htaken hleft hring trivial
    · next k hk => exact .atMarker hseek htaken hleft hring ⟨hp, contract.fresh_flush hk⟩
  | resetRing m =>
    simp only [AtMarker, hpoint] at hp
    obtain ⟨rfl, hk⟩ := hp
    have hopens : (w.step d).2.1.line.Opens contract w.stream codec e.seek := by
      rw [hseek]
      simp only [Decoder.step, hpoint]
      exact ⟨hk, rfl, rfl⟩
    have hitems : e.taken = Timeline.items w.stream { seek := e.seek, packets := [] } := by
      rw [htaken, hseek]
      rfl
    refine .current hopens hitems ?_ ?_
    · simp only [Decoder.step, hpoint]
      rfl
    · have hpics : (w.step d).1.ring.pictures = [] := by
        simp only [Decoder.step, hpoint]
        rfl
      have hpoint' : (w.step d).2.1.point = .take := by simp only [Decoder.step, hpoint]
      rw [hleft, hpics]
      simp only [Progress, hpoint']
      exact ⟨[], .start, rfl⟩
  | leaving how =>
    simp only [Decoder.step, hpoint]
    exact .atMarker hseek htaken hleft hring trivial
  | gone how =>
    simp only [Decoder.step, hpoint]
    exact .atMarker hseek htaken hleft hring trivial
  | _ => simp only [AtMarker, hpoint] at hp

/-- A worker that has heard packets takes another one, for there is one marker in an epoch. -/
theorem Standing.current_take {d : Deck} {dest : Packet → Option Lane} (ht : w.point = .take)
    (hopens : start.Opens contract stream codec e.seek)
    (htaken : e.taken = Timeline.items stream { seek := e.seek, packets := heard }) (hopen : d.ring.holding = false)
    (hp : Progress contract stream start heard w d.ring (e.left ++ d.ring.pictures))
    (hfront : (e.after dest (w.notes d)).taken <+: (e.after dest (w.notes d)).toTimeline.items stream) :
    Standing contract stream codec (w.step d).2.1 (w.step d).1.ring (e.after dest (w.notes d)) := by
  have hr : (w.step d).1.ring = d.ring := Decoder.ring_step (by rw [ht]; rfl) d
  simp only [Progress, ht] at hp
  have took : ∀ i, w.notes d = [.took .video i] → ∃ p, i = .packet p := by
    intro i hn
    rw [hn] at hfront
    change e.taken ++ [i] <+: e.toTimeline.items stream at hfront
    rw [htaken] at hfront
    exact packet_of_front hfront
  rw [hr]
  rcases w.take_cases ht d with ⟨p, hn, hw⟩ | ⟨m, hn, -⟩ | ⟨hn, hw⟩
  · rw [hn, hw]
    have hitems : e.taken ++ [.packet p] = Timeline.items stream { seek := e.seek, packets := heard ++ [p] } := by
      rw [htaken]
      simp [Timeline.items]
    exact .current hopens hitems hopen ⟨heard, rfl, hp⟩
  · obtain ⟨p, hc⟩ := took _ hn
    cases hc
  · rw [hn]
    rcases hw with hw | hw
    · rw [hw]
      exact .current hopens htaken hopen ⟨heard, [], false, w.line, (List.append_nil heard).symm, hp⟩
    · rw [hw]
      refine .current hopens htaken hopen ?_
      simp only [Progress, ht]
      exact hp

/-- **The standing of the worker is kept by whatever it does.** -/
theorem Standing.decode {d : Deck} {dest : Packet → Option Lane} (h : Standing contract stream codec w d.ring e)
    (hfresh : contract.fresh codec) (hstream : w.stream = stream) (hlaid : d.ring.Laid) (hspare : Buffer K w.spare)
    (hfront : (e.after dest (w.notes d)).taken <+: (e.after dest (w.notes d)).toTimeline.items stream) :
    Standing contract stream codec (w.step d).2.1 (w.step d).1.ring (e.after dest (w.notes d)) := by
  cases h with
  | behind hseek htaken hleft hring hold =>
    obtain ⟨us, hseek⟩ := Option.isSome_iff_exists.1 hseek
    exact Standing.behind_step hseek htaken hleft hring hold hfront
  | atMarker hseek htaken hleft hring hp =>
    have ht : w.point ≠ .take := by
      intro ht
      simp only [AtMarker, ht] at hp
    rw [w.notes_of_ne_take ht]
    exact Standing.atMarker_step hstream hseek htaken hleft hring hp
  | current hopens htaken hopen hp =>
    by_cases ht : w.point = .take
    · exact Standing.current_take ht hopens htaken hopen hp hfront
    · obtain ⟨hopen', hp'⟩ := Progress.step hstream hlaid hspare (hopens.fresh hfresh) hopen ht hp
      rw [w.notes_of_ne_take ht]
      exact .current hopens htaken hopen' hp'

theorem Progress.mono {ring' : PictureRing} (h : Progress contract stream start heard w ring pictures)
    (hfull : ring.isFull = false → ring'.isFull = false) : Progress contract stream start heard w ring' pictures := by
  unfold Progress at h ⊢
  split at h
  all_goals first | exact h | exact ⟨h.1, hfull h.2⟩

theorem Standing.refresh (h : Standing contract stream codec w ring e) (master : Option Float) (threshold : Float) :
    Standing contract stream codec w (ring.refresh master threshold).2
      { e with left := e.left ++ ring.outgoing master threshold } := by
  have hout := ring.outgoing_append master threshold
  obtain ⟨-, hold, hfull, -⟩ := ring.refresh_keeps master threshold
  have empty (hleft : e.left = []) (hring : ring.pictures = []) : e.left ++ ring.outgoing master threshold = [] ∧
      (ring.refresh master threshold).2.pictures = [] := by
    rw [hring] at hout
    obtain ⟨ho, hp⟩ := List.append_eq_nil_iff.1 hout
    exact ⟨by rw [hleft, ho]; rfl, hp⟩
  cases h with
  | behind hseek htaken hleft hring hhold =>
    obtain ⟨hleft', hring'⟩ := empty hleft hring
    exact .behind hseek htaken hleft' hring' (by rwa [hold])
  | atMarker hseek htaken hleft hring hp =>
    obtain ⟨hleft', hring'⟩ := empty hleft hring
    exact .atMarker hseek htaken hleft' hring' hp
  | current hopens htaken hopen hp =>
    refine .current hopens htaken (hold.trans hopen) ?_
    rw [List.append_assoc, hout]
    exact hp.mono hfull

theorem Decoder.buffers_step {w : Decoder K} {d : Deck} (hlaid : d.ring.Laid) (hspare : Buffer K w.spare)
    (hslots : ∀ i, Buffer K (d.ring.slot i).image) :
    (w.step d).1.ring.Laid ∧ Buffer K (w.step d).2.1.spare ∧ ∀ i, Buffer K ((w.step d).1.ring.slot i).image := by
  cases hpoint : w.point with
  | resetRing m =>
    simp only [Decoder.step, hpoint]
    exact ⟨hlaid.reset _, hspare, hslots⟩
  | commit pts =>
    obtain ⟨hs, hi⟩ := PictureRing.buffers_commit hslots hspare pts
    simp only [Decoder.step, hpoint]
    exact ⟨hlaid.commit pts w.spare, hs, hi⟩
  | convert pts =>
    have hc := hspare.converted w.codec
    simp only [Decoder.step, hpoint]
    split
    all_goals
      next h =>
      rw [h] at hc
      exact ⟨hlaid, hc, hslots⟩
  | receive =>
    simp only [Decoder.step, hpoint]
    split
    · rw [Decoder.advance_eq]
      split <;> exact ⟨hlaid, hspare, hslots⟩
    · exact ⟨hlaid, hspare, hslots⟩
    · exact ⟨hlaid, hspare, hslots⟩
    · exact ⟨hlaid, hspare, hslots⟩
  | take | flushCodec m | send p | place pts =>
    simp only [Decoder.step, hpoint]
    split <;> exact ⟨hlaid, hspare, hslots⟩
  | leaving how =>
    simp only [Decoder.step, hpoint]
    exact ⟨hlaid, hspare, hslots⟩
  | gone how =>
    simp only [Decoder.step, hpoint]
    exact ⟨hlaid, hspare, hslots⟩

theorem Decoder.stream_step (d : Deck) (w : Decoder K) : (w.step d).2.1.stream = w.stream := by
  cases hpoint : w.point with
  | receive =>
    simp only [Decoder.step, hpoint]
    split
    · rw [Decoder.advance_eq]
      split <;> rfl
    · rfl
    · rfl
    · rfl
  | take | flushCodec m | send p | place pts | convert pts =>
    simp only [Decoder.step, hpoint]
    split <;> rfl
  | resetRing m | commit pts | leaving how | gone how => simp only [Decoder.step, hpoint]

theorem WorkerLaw.congr {e' : Epoch} (h : WorkerLaw contract stream codec w ring e) (hseek : e'.seek = e.seek)
    (htaken : e'.taken = e.taken) (hleft : e'.left = e.left) : WorkerLaw contract stream codec w ring e' := by
  refine ⟨h.stream_eq, h.laid, h.spare, h.slots, ?_⟩
  cases h.standing with
  | behind hs ht hl hring hold => exact .behind (by rwa [hseek]) (htaken.trans ht) (hleft.trans hl) hring hold
  | atMarker hs ht hl hring hp => exact .atMarker (hseek.trans hs) (htaken.trans ht) (hleft.trans hl) hring hp
  | current hopens ht hopen hp =>
    rw [← hseek] at hopens ht
    rw [← hleft] at hp
    exact .current hopens (htaken.trans ht) hopen hp

theorem WorkerLaw.decode {d : Deck} {dest : Packet → Option Lane} (h : WorkerLaw contract stream codec w d.ring e)
    (hfresh : contract.fresh codec)
    (hfront : (e.after dest (w.notes d)).taken <+: (e.after dest (w.notes d)).toTimeline.items stream) :
    WorkerLaw contract stream codec (w.step d).2.1 (w.step d).1.ring (e.after dest (w.notes d)) := by
  obtain ⟨hlaid, hspare, hslots⟩ := Decoder.buffers_step h.laid h.spare h.slots
  constructor
  case stream_eq => exact (w.stream_step d).trans h.stream_eq
  case laid => exact hlaid
  case spare => exact hspare
  case slots => exact hslots
  case standing => exact h.standing.decode hfresh h.stream_eq h.laid h.spare hfront

theorem WorkerLaw.refresh (h : WorkerLaw contract stream codec w ring e) (master : Option Float) (threshold : Float) :
    WorkerLaw contract stream codec w (ring.refresh master threshold).2
      { e with left := e.left ++ ring.outgoing master threshold } := by
  obtain ⟨hslots, -, -, hlaid⟩ := ring.refresh_keeps master threshold
  constructor
  case stream_eq => exact h.stream_eq
  case laid => exact hlaid h.laid
  case spare => exact h.spare
  case slots =>
    intro i
    rw [PictureRing.slot, hslots]
    exact h.slots i
  case standing => exact h.standing.refresh master threshold

/-- When the ring is shut the worker is behind, whatever it is about. -/
theorem WorkerLaw.shut (h : WorkerLaw contract stream codec w ring e) (us : Ticks) :
    WorkerLaw contract stream codec w (ring.clear true) { seek := some us } where
  stream_eq := h.stream_eq
  laid := h.laid.clear true
  spare := h.spare
  slots := h.slots
  standing := .behind rfl rfl rfl rfl (.inl rfl)

theorem workerLaw_start (contract : CodecContract K) (stream : StreamInfo) (codec : K) (capacity : Nat) :
    WorkerLaw contract stream codec { codec, stream } (.new capacity) {} := by
  constructor
  case stream_eq => rfl
  case laid => exact PictureRing.laid_new capacity
  case spare => exact .fresh
  case slots =>
    intro i
    have hslot : (PictureRing.new capacity).slot i = {} := by
      simp only [PictureRing.slot, PictureRing.new, Array.getD_eq_getD_getElem?, Array.getElem?_replicate]
      split <;> rfl
    rw [hslot]
    exact .fresh
  case standing => exact .current rfl rfl rfl ⟨[], .start, rfl⟩

/-! ## What has been shown -/

/-- What a worker has come to are the frames of the packets that it has heard, or of the first of them; of all of them,
if it has come for the next item. -/
theorem Progress.shows (h : Progress contract stream start heard w ring pictures) :
    ∃ before rest inside l, heard = before ++ rest ∧ Shows contract stream start before inside l pictures ∧
      (w.point = .take → rest = [] ∧ inside = false) := by
  have hall : heard = heard ++ [] := (List.append_nil heard).symm
  cases hp : w.point with
  | take =>
    simp only [Progress, hp] at h
    exact ⟨heard, [], false, w.line, hall, h, fun _ => ⟨rfl, rfl⟩⟩
  | send p =>
    simp only [Progress, hp] at h
    obtain ⟨before, hheard, h⟩ := h
    exact ⟨before, [p], false, w.line, hheard, h, nofun⟩
  | receive =>
    simp only [Progress, hp] at h
    exact ⟨heard, [], true, w.line, hall, h, nofun⟩
  | place pts =>
    simp only [Progress, hp] at h
    obtain ⟨l, f, h, -⟩ := h
    exact ⟨heard, [], true, l, hall, h, nofun⟩
  | convert pts =>
    simp only [Progress, hp] at h
    obtain ⟨⟨l, f, h, -⟩, -⟩ := h
    exact ⟨heard, [], true, l, hall, h, nofun⟩
  | commit pts =>
    simp only [Progress, hp] at h
    obtain ⟨⟨l, f, k, buffer, h, -⟩, -⟩ := h
    exact ⟨heard, [], true, l, hall, h, nofun⟩
  | leaving how | gone how =>
    simp only [Progress, hp] at h
    obtain ⟨before, rest, inside, l, hheard, h⟩ := h
    exact ⟨before, rest, inside, l, hheard, h, nofun⟩
  | flushCodec m | resetRing m => simp only [Progress, hp] at h

/-- **The pictures of an epoch are the frames of its packets**, in each standing of the worker; of all its packets, if
the worker has come for the next item and nothing is queued. -/
theorem Standing.shows (h : Standing contract stream codec w ring e) (hfresh : contract.fresh codec)
    (hfront : e.taken <+: e.toTimeline.items stream) :
    ∃ line heard rest inside l, line.Opens contract stream codec e.seek ∧ e.packets = heard ++ rest ∧
      Shows contract stream line heard inside l (e.left ++ ring.pictures) ∧
      (w.point = .take → e.taken = e.toTimeline.items stream → rest = [] ∧ inside = false) := by
  have opened (us : Ticks) : ∃ line : Line K, line.Opens contract stream codec (some us) :=
    ⟨⟨codec, _, some (stream.timeBase.seconds (stream.timeBase.rescale us .micros))⟩, hfresh, rfl, rfl⟩
  have empty (line : Line K) (hleft : e.left = []) (hring : ring.pictures = []) :
      Shows contract stream line [] false line (e.left ++ ring.pictures) := by
    rw [hleft, hring]
    exact ⟨[], .start, rfl⟩
  cases h with
  | behind hseek htaken hleft hring hold =>
    obtain ⟨us, hseek⟩ := Option.isSome_iff_exists.1 hseek
    obtain ⟨line, hline⟩ := opened us
    rw [← hseek] at hline
    refine ⟨line, [], e.packets, false, line, hline, rfl, empty line hleft hring, ?_⟩
    intro _ hitems
    rw [htaken] at hitems
    simp [Timeline.items, hseek] at hitems
  | atMarker hseek htaken hleft hring hp =>
    obtain ⟨line, hline⟩ := opened _
    rw [← hseek] at hline
    refine ⟨line, [], e.packets, false, line, hline, rfl, empty line hleft hring, ?_⟩
    intro ht _
    simp only [AtMarker, ht] at hp
  | @current line heard hopens htaken hopen hp =>
    obtain ⟨before, rest, inside, l, hheard, hshows, hall⟩ := hp.shows
    rw [htaken, Timeline.items, Timeline.items, List.prefix_append_right_inj,
      List.prefix_map_iff_of_injective (fun _ _ => QueueItem.packet.inj)] at hfront
    obtain ⟨behind, hbehind⟩ := hfront
    refine ⟨line, before, rest ++ behind, inside, l, hopens, ?_, hshows, ?_⟩
    · rw [← hbehind, hheard, List.append_assoc]
    · intro ht hitems
      obtain ⟨hrest, hinside⟩ := hall ht
      refine ⟨?_, hinside⟩
      rw [htaken, Timeline.items, Timeline.items, List.append_cancel_left_eq,
        List.map_inj_right (fun _ _ => QueueItem.packet.inj), ← hbehind] at hitems
      rw [hrest, List.append_right_eq_self.1 hitems.symm]
      rfl

end

end Playhead
