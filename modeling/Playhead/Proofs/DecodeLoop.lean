import Playhead.Proofs.OneProducer
/-!
# DecodeLoop — what the decode worker makes of packets

Between two markers the worker takes one packet after the other, sends it, and receives frames until there are no more.
Every frame moves the expected time on; those from the first on that is not too early are converted and handed in, each
before the next frame is received (`Line.packetJobs`).  What a worker has done is a front of that, and what is missing
is in its hands or was given up: because the session stops, or because the codec failed, and behind that it does nothing
(`Course`).  The codec may divide its frames among the packets as it likes.
-/
namespace Playhead

variable {K : Type}

/-! ## What should be done -/

/-- What a decode worker does. -/
inductive Job
  | take (i : QueueItem)
  | send (p : Packet)
  | receive (f : FrameInfo)
  /-- There is no frame to be received. -/
  | drained
  | convert (pts : Float)
  | handIn (pts : Float)
  /-- The codec failed, or killed the worker. -/
  | fail (how : Ending)

namespace Job

def isFail : Job → Bool
  | .fail _ => true
  | _ => false

def took? : Job → Option QueueItem
  | .take i => some i
  | _ => none

def received? : Job → Option FrameInfo
  | .receive f => some f
  | _ => none

def converted? : Job → Option Float
  | .convert pts => some pts
  | _ => none

def handedIn? : Job → Option Float
  | .handIn pts => some pts
  | _ => none

end Job

namespace Line

variable (stream : StreamInfo)

def pass (l : Line K) (f : FrameInfo) : Line K := { l with clock := l.timeBehind stream f }

def timed : Line K → List FrameInfo → List (FrameInfo × Float)
  | _, [] => []
  | l, f :: fs => (f, l.timeOf stream f) :: timed (l.pass stream f) fs

def isEarly (l : Line K) (pts : Float) : Bool := l.skipBefore.any (fun t => pts + Decoder.tolerance < t)

/-- The frames that are shown: those from the first on that is not too early. -/
def shown (l : Line K) (fs : List FrameInfo) : List (FrameInfo × Float) :=
  (l.timed stream fs).dropWhile (fun x => l.isEarly x.2)

/-- A frame is received, and with the first one that is not too early skipping is over. -/
def after (l : Line K) (f : FrameInfo) : Line K :=
  { l.pass stream f with skipBefore := if l.skips stream f then l.skipBefore else none }

def showJobs (l : Line K) (f : FrameInfo) : List Job :=
  if l.skips stream f then [] else [.convert (l.timeOf stream f), .handIn (l.timeOf stream f)]

def frameJobs : Line K → List FrameInfo → List Job
  | _, [] => []
  | l, f :: fs => .receive f :: (l.showJobs stream f ++ frameJobs (l.after stream f) fs)

/-- **What packets come to**, each with the frames that are received behind it. -/
def packetJobs : Line K → List (Packet × List FrameInfo) → List Job
  | _, [] => []
  | l, (p, fs) :: heard =>
    .take (.packet p) :: .send p :: (l.frameJobs stream fs ++ .drained :: packetJobs (fs.foldl (after stream) l) heard)

variable {stream}

theorem frameJobs_append (l : Line K) (fs gs : List FrameInfo) :
    l.frameJobs stream (fs ++ gs) = l.frameJobs stream fs ++ (fs.foldl (after stream) l).frameJobs stream gs := by
  induction fs generalizing l with
  | nil => rfl
  | cons f fs ih =>
    rw [List.cons_append, frameJobs, frameJobs, ih, List.cons_append, List.append_assoc]
    rfl

theorem packetJobs_concat (l : Line K) (heard : List (Packet × List FrameInfo)) (p : Packet) (fs : List FrameInfo) :
    l.packetJobs stream (heard ++ [(p, fs)]) = l.packetJobs stream heard ++ .take (.packet p) :: .send p ::
      (((heard.flatMap (·.2)).foldl (after stream) l).frameJobs stream fs ++ [.drained]) := by
  induction heard generalizing l with
  | nil => rfl
  | cons x heard ih =>
    rw [List.cons_append, packetJobs, ih, packetJobs, List.flatMap_cons, List.foldl_append]
    simp only [List.cons_append, List.append_assoc]

theorem packetJobs_receive {l : Line K} {before : List (Packet × List FrameInfo)} {p : Packet} {fs : List FrameInfo}
    {done : List Job} (h : done ++ [.drained] = l.packetJobs stream (before ++ [(p, fs)])) (f : FrameInfo) :
    l.packetJobs stream (before ++ [(p, fs ++ [f])]) =
      done ++ .receive f :: (((before ++ [(p, fs)]).flatMap (·.2)).foldl (after stream) l).showJobs stream f ++
        [.drained] := by
  rw [packetJobs_concat, ← List.cons_append, ← List.cons_append, ← List.append_assoc] at h
  rw [packetJobs_concat, frameJobs_append, List.append_cancel_right h, List.flatMap_append, List.flatMap_singleton,
    List.foldl_append]
  simp [frameJobs]

theorem timed_skip (l : Line K) (skip : Option Float) (fs : List FrameInfo) :
    ({ l with skipBefore := skip } : Line K).timed stream fs = l.timed stream fs := by
  induction fs generalizing l with
  | nil => rfl
  | cons f fs ih => exact congrArg (List.cons _) (ih (l.pass stream f))

/-- Skipping makes no difference to the expected time. -/
theorem clock_after (l : Line K) (fs : List FrameInfo) :
    (fs.foldl (after stream) l).clock = (fs.foldl (pass stream) l).clock := by
  suffices h : ∀ (l : Line K) (skip : Option Float),
      (fs.foldl (after stream) { l with skipBefore := skip }).clock = (fs.foldl (pass stream) l).clock from
    h l l.skipBefore
  induction fs with
  | nil => exact fun _ _ => rfl
  | cons f fs ih => exact fun l skip => ih (l.pass stream f) _

theorem shown_pass (l : Line K) (f : FrameInfo) (skip : Option Float) (fs : List FrameInfo) :
    ({ l.pass stream f with skipBefore := skip } : Line K).shown stream fs =
      ((l.pass stream f).timed stream fs).dropWhile (fun x => skip.any (fun t => x.2 + Decoder.tolerance < t)) := by
  rw [shown, timed_skip]
  rfl

theorem shown_cons (l : Line K) (f : FrameInfo) (fs : List FrameInfo) :
    l.shown stream (f :: fs) =
      if l.skips stream f then (l.after stream f).shown stream fs
      else (f, l.timeOf stream f) :: (l.after stream f).shown stream fs := by
  rw [shown, timed, List.dropWhile_cons]
  change (if l.skips stream f then _ else _) = _
  cases hf : l.skips stream f with
  | true =>
    rw [if_pos rfl, if_pos rfl, after, hf, if_pos rfl, shown_pass]
    rfl
  | false =>
    rw [if_neg Bool.false_ne_true, if_neg Bool.false_ne_true, after, hf, if_neg Bool.false_ne_true, shown_pass]
    cases (l.pass stream f).timed stream fs <;> rfl

/-- What concerns the frames of packets is done for them as if they came in one packet. -/
theorem filterMap_packetJobs {α : Type} (g : Job → Option α) (htake : ∀ i, g (.take i) = none)
    (hsend : ∀ p, g (.send p) = none) (hdrained : g .drained = none) (l : Line K)
    (heard : List (Packet × List FrameInfo)) :
    (l.packetJobs stream heard).filterMap g = (l.frameJobs stream (heard.flatMap (·.2))).filterMap g := by
  induction heard generalizing l with
  | nil => rfl
  | cons x heard ih =>
    rw [packetJobs, List.filterMap_cons_none (htake _), List.filterMap_cons_none (hsend _), List.filterMap_append,
      List.filterMap_cons_none hdrained, ih, List.flatMap_cons, frameJobs_append, List.filterMap_append]

theorem filterMap_frameJobs {α : Type} {g : Job → Option α} (hconvert : ∀ t, g (.convert t) = none)
    (hhandIn : ∀ t, g (.handIn t) = none) (l : Line K) (fs : List FrameInfo) :
    (l.frameJobs stream fs).filterMap g = fs.filterMap (fun f => g (.receive f)) := by
  induction fs generalizing l with
  | nil => rfl
  | cons f fs ih =>
    have unseen : (l.showJobs stream f).filterMap g = [] := by
      unfold showJobs
      split
      · rfl
      · rw [List.filterMap_cons_none (hconvert _), List.filterMap_cons_none (hhandIn _), List.filterMap_nil]
    rw [frameJobs, List.filterMap_cons, List.filterMap_append, unseen, ih, List.nil_append, List.filterMap_cons]

theorem received_packetJobs (l : Line K) (heard : List (Packet × List FrameInfo)) :
    (l.packetJobs stream heard).filterMap Job.received? = heard.flatMap (·.2) := by
  rw [filterMap_packetJobs _ (fun _ => rfl) (fun _ => rfl) rfl, filterMap_frameJobs (fun _ => rfl) (fun _ => rfl)]
  exact List.filterMap_some

theorem took_packetJobs (l : Line K) (heard : List (Packet × List FrameInfo)) :
    (l.packetJobs stream heard).filterMap Job.took? = heard.map (fun x => .packet x.1) := by
  induction heard generalizing l with
  | nil => rfl
  | cons x heard ih =>
    have none : (l.frameJobs stream x.2).filterMap Job.took? = [] := by
      rw [filterMap_frameJobs (fun _ => rfl) (fun _ => rfl)]
      exact List.filterMap_eq_nil_iff.2 (fun _ _ => rfl)
    simp only [packetJobs, List.filterMap_cons, Job.took?, List.filterMap_append, none, ih, List.nil_append,
      List.map_cons]

/-- **What is converted and what is handed in are the frames that are shown**, at their times. -/
theorem shown_packetJobs {g : Job → Option Float} (hg : g = Job.converted? ∨ g = Job.handedIn?) (l : Line K)
    (heard : List (Packet × List FrameInfo)) :
    (l.packetJobs stream heard).filterMap g = (l.shown stream (heard.flatMap (·.2))).map (·.2) := by
  have frames : ∀ (fs : List FrameInfo) (l : Line K),
      (l.frameJobs stream fs).filterMap g = (l.shown stream fs).map (·.2) := by
    intro fs
    induction fs with
    | nil => exact fun _ => rfl
    | cons f fs ih =>
      intro l
      have hreceive : g (.receive f) = none := by rcases hg with rfl | rfl <;> rfl
      rw [frameJobs, List.filterMap_cons_none hreceive, List.filterMap_append, ih, shown_cons, showJobs]
      split
      · rfl
      · rcases hg with rfl | rfl <;> rfl
  rw [filterMap_packetJobs g, frames] <;> rcases hg with rfl | rfl <;> intros <;> rfl

end Line

/-! ## What the worker does -/

def Outcome.job {α : Type} (r : Outcome α) (done : α → Job) : Job :=
  match r with
  | .ok a => done a
  | .error e => .fail (.failed e)
  | .died => .fail .died

/-- What a step of the worker does, if anything: it may have to wait, or to look whether to stop. -/
def Decoder.jobs [VideoCodec K] (d : Deck) (w : Decoder K) : List Job :=
  match w.point with
  | .take =>
    match (d.videoQueue.take d.stop).1 with
    | .item i => [.take i]
    | _ => []
  | .flushCodec _ => if (VideoCodec.flush w.codec).isSome then [] else [.fail .died]
  | .send p => [(VideoCodec.send w.codec p).1.job (fun _ => .send p)]
  | .receive => [(VideoCodec.receive w.codec).1.job (fun f => f.elim .drained .receive)]
  | .convert pts => [(VideoCodec.convert w.codec w.spare).1.job (fun _ => .convert pts)]
  | .commit pts => [.handIn pts]
  | _ => []

namespace DecodePoint

/-- What is in the hands of a worker: it is to be done before another frame is received. -/
def due : DecodePoint → List Job
  | .send p => [.send p]
  | .place pts | .convert pts => [.convert pts, .handIn pts]
  | .commit pts => [.handIn pts]
  | _ => []

def toEnd (p : DecodePoint) : List Job := if p.inPacket then [.drained] else []

def inLoop : DecodePoint → Bool
  | .take => true
  | p => p.inPacket

end DecodePoint

/-- **How far a worker has come with packets**: it stands somewhere in the loop, or stood there when it left, and has
done all that comes before.  If it gave up what it had in its hands, the session stops, or the codec failed. -/
structure Course (stream : StreamInfo) (start : Line K) (stop : Bool) (w : Decoder K) (jobs : List Job)
    (heard : List (Packet × List FrameInfo)) (stand : DecodePoint) : Prop where
  stream_eq : w.stream = stream
  line : w.line = { (heard.flatMap (·.2)).foldl (Line.after stream) start with codec := w.codec }
  loop : stand.inLoop = true
  done : jobs.filter (!·.isFail) ++ (stand.due ++ stand.toEnd) = start.packetJobs stream heard
  stands : w.ending? = none → w.point = stand
  gave : stop = false → (∀ j ∈ jobs, j.isFail = false) → w.point.due = stand.due
  last : ∀ before how behind, jobs = before ++ .fail how :: behind → behind = [] ∧ w.ending? = some how

/-- With a frame that it has received a worker goes on as its line does, and has the frame in its hands if it is to be
shown. -/
theorem Decoder.advance_goes (w : Decoder K) (f : FrameInfo) :
    (w.advance f).stream = w.stream ∧ (w.advance f).line = w.line.after w.stream f ∧
      (w.advance f).point.inPacket = true ∧ (w.advance f).point.due = w.line.showJobs w.stream f := by
  rw [Decoder.advance_eq, Line.after, Line.showJobs]
  cases w.line.skips w.stream f with
  | true => exact ⟨rfl, rfl, rfl, rfl⟩
  | false => exact ⟨rfl, rfl, rfl, rfl⟩

theorem DecodePoint.inLoop_of_inPacket {p : DecodePoint} (h : p.inPacket = true) : p.inLoop = true := by
  cases p with
  | take => rfl
  | _ => exact h

namespace Course

variable {stream : StreamInfo} {start : Line K} {stop stop' : Bool} {w w' : Decoder K} {jobs : List Job}
  {heard heard' : List (Packet × List FrameInfo)} {stand stand' : DecodePoint}

theorem stands_at (h : Course stream start stop w jobs heard stand) {p : DecodePoint} (hp : w.point = p)
    (hin : p.inLoop = true) : w.ending? = none ∧ stand = p := by
  have he : w.ending? = none := by
    unfold Decoder.ending?
    rw [hp]
    cases p with
    | leaving how => cases hin
    | gone how => cases hin
    | _ => rfl
  exact ⟨he, (h.stands he).symm.trans hp⟩

theorem not_fail (h : Course stream start stop w jobs heard stand) (he : w.ending? = none) (how : Ending) :
    .fail how ∉ jobs := by
  intro hmem
  obtain ⟨before, behind, hjobs⟩ := List.append_of_mem hmem
  have := (h.last before how behind hjobs).2
  rw [he] at this
  cases this

theorem of_stop (h : Course stream start stop w jobs heard stand) (hstop : stop = true → stop' = true) :
    Course stream start stop' w jobs heard stand := by
  refine { h with gave := fun hs => h.gave ?_ }
  cases stop with
  | true => rw [hstop rfl] at hs; cases hs
  | false => rfl

theorem goes (h : Course stream start stop w jobs heard stand) (he : w.ending? = none) {new : List Job}
    (hnew : ∀ j ∈ new, j.isFail = false) (hstream : w'.stream = w.stream)
    (hline : w'.line = { (heard'.flatMap (·.2)).foldl (Line.after stream) start with codec := w'.codec })
    (hpoint : w'.point = stand') (hloop : stand'.inLoop = true)
    (hjobs : jobs.filter (!·.isFail) ++ (new ++ (stand'.due ++ stand'.toEnd)) = start.packetJobs stream heard') :
    Course stream start stop w' (jobs ++ new) heard' stand' where
  stream_eq := hstream.trans h.stream_eq
  line := hline
  loop := hloop
  done := by
    have kept : new.filter (!·.isFail) = new := List.filter_eq_self.2 (fun j hj => by rw [hnew j hj]; rfl)
    rw [List.filter_append, kept, List.append_assoc, hjobs]
  stands _ := hpoint
  gave _ _ := by rw [hpoint]
  last before how behind hsplit := by
    have hmem : Job.fail how ∈ jobs ++ new := by rw [hsplit]; exact List.mem_append_right _ List.mem_cons_self
    rcases List.mem_append.1 hmem with hmem | hmem
    · exact absurd hmem (h.not_fail he how)
    · cases hnew _ hmem

theorem leaves (h : Course stream start stop w jobs heard stand) (he : w.ending? = none) {how : Ending}
    (hnone : stop = false → w.point.due = []) :
    Course stream start stop { w with point := .leaving how } jobs heard stand where
  stream_eq := h.stream_eq
  line := h.line
  loop := h.loop
  done := h.done
  stands := nofun
  gave hs _ := by rw [← h.stands he, hnone hs]; rfl
  last before how' behind hsplit := by
    refine absurd ?_ (h.not_fail he how')
    rw [hsplit]
    exact List.mem_append_right _ List.mem_cons_self

theorem fails (h : Course stream start stop w jobs heard stand) (he : w.ending? = none) (how : Ending)
    (hstream : w'.stream = w.stream) (hline : w'.line = { w.line with codec := w'.codec })
    (hpoint : w'.point = .leaving how) : Course stream start stop w' (jobs ++ [.fail how]) heard stand where
  stream_eq := hstream.trans h.stream_eq
  line := by rw [hline, h.line]
  loop := h.loop
  done := by
    rw [List.filter_append, ← h.done]
    exact congrArg (· ++ _) (List.append_nil _)
  stands hn := by
    rw [Decoder.ending?, hpoint] at hn
    cases hn
  gave _ hno := nomatch hno (.fail how) (List.mem_append_right _ List.mem_cons_self)
  last before how' behind hsplit := by
    rcases List.eq_nil_or_concat behind with rfl | ⟨front, j, rfl⟩
    · obtain ⟨-, hlast⟩ := List.append_inj' hsplit rfl
      cases hlast
      exact ⟨rfl, by rw [Decoder.ending?, hpoint]⟩
    · rw [List.concat_eq_append, ← List.cons_append, ← List.append_assoc] at hsplit
      refine absurd ?_ (h.not_fail he how')
      rw [(List.append_inj' hsplit rfl).1]
      exact List.mem_append_right _ List.mem_cons_self

/-- Whatever is done without receiving a frame, the times stay. -/
theorem line_of (h : Course stream start stop w jobs heard stand) (hline : w'.line = { w.line with codec := w'.codec })
    (hframes : heard'.flatMap (·.2) = heard.flatMap (·.2)) :
    w'.line = { (heard'.flatMap (·.2)).foldl (Line.after stream) start with codec := w'.codec } := by
  rw [hline, h.line, hframes]

theorem receives (h : Course stream start stop w jobs heard .receive) (hp : w.point = .receive) (f : FrameInfo)
    (k : K) :
    ∃ heard stand, Course stream start stop ({ w with codec := k }.advance f) (jobs ++ [.receive f]) heard stand := by
  have he : w.ending? = none := (h.stands_at hp rfl).1
  obtain rfl := h.stream_eq
  obtain rfl | ⟨before, ⟨p, fs⟩, rfl⟩ := heard.eq_nil_or_concat
  · have hdone := h.done
    simp [Line.packetJobs, DecodePoint.toEnd, DecodePoint.inPacket] at hdone
  rw [List.concat_eq_append] at h
  have hjobs := Line.packetJobs_receive h.done f
  have hframes : (before ++ [(p, fs ++ [f])]).flatMap (·.2) = (before ++ [(p, fs)]).flatMap (·.2) ++ [f] := by simp
  have hline := h.line
  obtain ⟨hstream, hline', hin, hdue⟩ := ({ w with codec := k } : Decoder K).advance_goes f
  have hcodec : ({ w with codec := k } : Decoder K).line = { w.line with codec := k } := rfl
  rw [hcodec, hline] at hline' hdue
  refine ⟨before ++ [(p, fs ++ [f])], _, h.goes he (by simp [Job.isFail]) hstream ?_ rfl
    (DecodePoint.inLoop_of_inPacket hin) ?_⟩
  · rw [hframes, List.foldl_append, hline', (Decoder.advance_cases _ f).1]
    rfl
  · rw [hjobs, hdue, DecodePoint.toEnd, if_pos hin, List.append_assoc]
    rfl

theorem takes [VideoCodec K] {d : Deck} (h : Course stream start d.stop w jobs heard .take) (hp : w.point = .take)
    (hm : ∀ i, .take i ∈ w.jobs d → i.isMarker = false) :
    ∃ heard stand, Course stream start (w.step d).1.stop (w.step d).2.1 (jobs ++ w.jobs d) heard stand := by
  have he : w.ending? = none := (h.stands_at hp rfl).1
  have nothing : d.stop = false → w.point.due = [] := fun _ => by rw [hp]; rfl
  simp only [Decoder.step, Decoder.jobs, hp] at hm ⊢
  split
  · next p ht =>
    rw [ht]
    refine ⟨heard ++ [(p, [])], .send p, h.goes he (by simp [Job.isFail]) rfl (h.line_of rfl (by simp)) rfl rfl ?_⟩
    rw [Line.packetJobs_concat, ← h.done]
    simp [DecodePoint.due, DecodePoint.toEnd, DecodePoint.inPacket, Line.frameJobs]
  · next m ht =>
    rw [ht] at hm
    cases hm (.marker m) List.mem_cons_self
  · next ht =>
    rw [ht, List.append_nil]
    exact ⟨heard, .take, h.leaves he nothing⟩
  · next ht =>
    rw [ht, List.append_nil]
    exact ⟨heard, .take, h.leaves he nothing⟩
  · next ht =>
    rw [ht, List.append_nil]
    exact ⟨heard, .take, h⟩

/-- **A step of the worker takes it further on its course**, if it does not take a marker. -/
theorem step [VideoCodec K] {d : Deck} (h : Course stream start d.stop w jobs heard stand)
    (hm : ∀ i, .take i ∈ w.jobs d → i.isMarker = false) :
    ∃ heard stand, Course stream start (w.step d).1.stop (w.step d).2.1 (jobs ++ w.jobs d) heard stand := by
  have hdone := h.done
  cases hp : w.point with
  | leaving how =>
    refine ⟨heard, stand, ?_⟩
    simp only [Decoder.step, Decoder.jobs, hp, List.append_nil]
    refine ⟨h.stream_eq, h.line, h.loop, h.done, fun hn => ?_, fun hs => ?_, fun before how' behind hs => ?_⟩
    · cases hn
    · cases hs
    · have := h.last before how' behind hs
      rwa [Decoder.ending?, hp] at this
  | gone how =>
    have still : { w with point := .gone how } = w := by rw [← hp]
    refine ⟨heard, stand, ?_⟩
    simp only [Decoder.step, Decoder.jobs, hp, List.append_nil, still]
    exact h
  | flushCodec m | resetRing m =>
    -- a worker at a marker is not in the loop, and no marker was taken
    have hloop := h.loop
    rw [← h.stands (by rw [Decoder.ending?, hp]), hp] at hloop
    cases hloop
  | take =>
    obtain ⟨-, rfl⟩ := h.stands_at hp rfl
    exact h.takes hp hm
  | send p =>
    obtain ⟨he, rfl⟩ := h.stands_at hp rfl
    simp only [Decoder.step, Decoder.jobs, hp]
    split
    · next k hs =>
      rw [hs]
      exact ⟨heard, .receive, h.goes he (by simp [Outcome.job, Job.isFail]) rfl (h.line_of rfl rfl) rfl rfl hdone⟩
    · next e k hs =>
      rw [hs]
      exact ⟨heard, .send p, h.fails he (.failed e) rfl rfl rfl⟩
    · next k hs =>
      rw [hs]
      exact ⟨heard, .send p, h.fails he .died rfl rfl rfl⟩
  | receive =>
    obtain ⟨he, rfl⟩ := h.stands_at hp rfl
    simp only [Decoder.step, Decoder.jobs, hp]
    split
    · next f k hr =>
      rw [hr]
      exact h.receives hp f k
    · next k hr =>
      rw [hr]
      refine ⟨heard, .take, h.goes he (by simp [Outcome.job, Job.isFail]) rfl (h.line_of rfl rfl) rfl rfl hdone⟩
    · next e k hr =>
      rw [hr]
      exact ⟨heard, .receive, h.fails he (.failed e) rfl rfl rfl⟩
    · next k hr =>
      rw [hr]
      exact ⟨heard, .receive, h.fails he .died rfl rfl rfl⟩
  | place pts =>
    obtain ⟨he, rfl⟩ := h.stands_at hp rfl
    simp only [Decoder.step, Decoder.jobs, hp]
    split
    · exact ⟨heard, .convert pts, h.goes he (by simp) rfl (h.line_of rfl rfl) rfl rfl hdone⟩
    · -- it waits for a slot
      rw [List.append_nil]
      exact ⟨heard, .place pts, h⟩
    · next hs =>
      rw [List.append_nil]
      refine ⟨heard, .place pts, h.leaves he (fun hstop => ?_)⟩
      rw [PictureRing.stop_of_stopped hs] at hstop
      cases hstop
  | convert pts =>
    obtain ⟨he, rfl⟩ := h.stands_at hp rfl
    simp only [Decoder.step, Decoder.jobs, hp]
    split
    · next image k hc =>
      rw [hc]
      exact ⟨heard, .commit pts, h.goes he (by simp [Outcome.job, Job.isFail]) rfl (h.line_of rfl rfl) rfl rfl hdone⟩
    · next e image k hc =>
      rw [hc]
      exact ⟨heard, .convert pts, h.fails he (.failed e) rfl rfl rfl⟩
    · next image k hc =>
      rw [hc]
      exact ⟨heard, .convert pts, h.fails he .died rfl rfl rfl⟩
  | commit pts =>
    obtain ⟨he, rfl⟩ := h.stands_at hp rfl
    simp only [Decoder.step, Decoder.jobs, hp]
    exact ⟨heard, .receive, h.goes he (by simp [Job.isFail]) rfl (h.line_of rfl rfl) rfl rfl hdone⟩

end Course

/-! ## Over a run -/

/-- A worker as it is at the start of a session, or behind a marker. -/
def Decoder.Begins [VideoCodec K] (w : Decoder K) : Option Ticks → Prop
  | none => ∃ d codec, Decoder.new d codec = .ok w
  | some m => ∃ (d : Deck) (w₀ : Decoder K), w₀.point = .resetRing m ∧ (w₀.step d).2.1 = w

/-- From the start on the expected time is zero and nothing is skipped; behind a marker both times are its time. -/
def StreamInfo.lineFrom (stream : StreamInfo) (codec : K) (mark : Option Ticks) : Line K where
  codec
  clock := mark.elim 0 stream.timeBase.seconds
  skipBefore := mark.map stream.timeBase.seconds

theorem Decoder.Begins.course [VideoCodec K] {w : Decoder K} {mark : Option Ticks} (h : w.Begins mark) (stop : Bool) :
    Course w.stream (w.stream.lineFrom w.codec mark) stop w [] [] .take := by
  have fresh : w.point = .take ∧ w.line = w.stream.lineFrom w.codec mark := by
    cases mark with
    | none =>
      obtain ⟨d, codec, hnew⟩ := h
      unfold Decoder.new at hnew
      split at hnew
      · cases hnew
      · cases hnew
        exact ⟨rfl, rfl⟩
    | some m =>
      obtain ⟨d, w₀, hp, hstep⟩ := h
      simp only [Decoder.step, hp] at hstep
      subst hstep
      exact ⟨rfl, rfl⟩
  exact ⟨rfl, fresh.2, rfl, rfl, fun _ => fresh.1, fun _ _ => by rw [fresh.1],
    fun before how behind hs => by simp at hs⟩

namespace Session

variable {C D : Type} [Container C K] [VideoCodec K] [AudioDecoder D]

def work (s : Session C K D) : Move → List Job
  | .decode => s.decoder.elim [] (·.jobs s.deck)
  | _ => []

def jobs (s : Session C K D) : List (Nat × Move) → List Job
  | [] => []
  | m :: moves => s.work m.2 ++ (s.move m.1 m.2).jobs moves

end Session

namespace Course

variable {C D : Type} [Container C K] [VideoCodec K] [AudioDecoder D] {s : Session C K D} {stream : StreamInfo}
  {start : Line K} {w : Decoder K} {jobs : List Job} {heard : List (Packet × List FrameInfo)} {stand : DecodePoint}

theorem move (h : Course stream start s.deck.stop w jobs heard stand) (hw : s.decoder = some w) (now : Nat) (m : Move)
    (hm : ∀ i ∈ (s.work m).filterMap Job.took?, i.isMarker = false) :
    ∃ w' heard stand, (s.move now m).decoder = some w' ∧
      Course stream start (s.move now m).deck.stop w' (jobs ++ s.work m) heard stand := by
  cases m with
  | decode =>
    simp only [Session.work, hw, Option.elim_some] at hm ⊢
    simp only [Session.move, Session.decode, hw]
    obtain ⟨heard, stand, next⟩ := h.step (fun i hi => hm i (List.mem_filterMap.2 ⟨_, hi, rfl⟩))
    exact ⟨_, heard, stand, rfl, next⟩
  | _ =>
    refine ⟨w, heard, stand, (s.decoder_move now (by simp)).trans hw, ?_⟩
    rw [show s.work _ = [] from rfl, List.append_nil]
    exact h.of_stop (fun hs => Session.stop_move hs now _)

theorem run (h : Course stream start s.deck.stop w jobs heard stand) (hw : s.decoder = some w)
    (moves : List (Nat × Move)) (hm : ∀ i ∈ (s.jobs moves).filterMap Job.took?, i.isMarker = false) :
    ∃ w' heard stand, (s.run moves).decoder = some w' ∧
      Course stream start (s.run moves).deck.stop w' (jobs ++ s.jobs moves) heard stand := by
  induction moves generalizing s w jobs heard stand with
  | nil =>
    rw [Session.jobs, List.append_nil]
    exact ⟨w, heard, stand, hw, h⟩
  | cons m moves ih =>
    rw [Session.jobs, List.filterMap_append] at hm
    obtain ⟨w', heard', stand', hw', next⟩ := h.move hw m.1 m.2 (fun i hi => hm i (List.mem_append_left _ hi))
    rw [Session.jobs, ← List.append_assoc]
    exact ih next hw' (fun i hi => hm i (List.mem_append_right _ hi))

end Course

theorem filterMap_done {α : Type} {g : Job → Option α} (hg : ∀ how, g (.fail how) = none) (jobs : List Job) :
    (jobs.filter (!·.isFail)).filterMap g = jobs.filterMap g := by
  rw [List.filterMap_filter]
  congr 1
  funext j
  cases j with
  | fail how => exact (hg how).symm
  | _ => rfl

/-- The packets that were taken, the frames that were received, and with what is in the worker's hands those that were
converted and handed in. -/
theorem Course.histories {stream : StreamInfo} {start : Line K} {stop : Bool} {w : Decoder K} {jobs : List Job}
    {heard : List (Packet × List FrameInfo)} {stand : DecodePoint}
    (h : Course stream start stop w jobs heard stand) :
    jobs.filterMap Job.took? = heard.map (fun x => .packet x.1) ∧
    jobs.filterMap Job.received? = heard.flatMap (·.2) ∧
    (jobs ++ stand.due).filterMap Job.converted? = (start.shown stream (heard.flatMap (·.2))).map (·.2) ∧
    (jobs ++ stand.due).filterMap Job.handedIn? = (start.shown stream (heard.flatMap (·.2))).map (·.2) := by
  have seen : ∀ {α : Type} {g : Job → Option α}, (∀ how, g (.fail how) = none) → g .drained = none →
      (jobs ++ stand.due).filterMap g = (start.packetJobs stream heard).filterMap g := by
    intro α g hfail hdrained
    have none : stand.toEnd.filterMap g = [] := by
      unfold DecodePoint.toEnd
      split
      · exact List.filterMap_cons_none hdrained
      · rfl
    rw [← h.done, List.filterMap_append, List.filterMap_append, List.filterMap_append, filterMap_done hfail, none,
      List.append_nil]
  have took := (seen (g := Job.took?) (fun _ => rfl) rfl).trans (start.took_packetJobs heard)
  have received := (seen (g := Job.received?) (fun _ => rfl) rfl).trans (start.received_packetJobs heard)
  rw [List.filterMap_append] at took received
  refine ⟨?_, ?_, ?_, ?_⟩
  · rw [← took]
    cases stand <;> exact (List.append_nil _).symm
  · rw [← received]
    cases stand <;> exact (List.append_nil _).symm
  · exact (seen (fun _ => rfl) rfl).trans (start.shown_packetJobs (.inl rfl) heard)
  · exact (seen (fun _ => rfl) rfl).trans (start.shown_packetJobs (.inr rfl) heard)

namespace Session

variable {C D : Type} [Container C K] [VideoCodec K] [AudioDecoder D]

/-- **What comes of packets between two markers.**  From the start of a session, or from a marker on, and as long as no
marker is taken: the frames that are received, in whatever packets, have the times of `Line.timed`, and the expected
time goes by them, shown or not.  All that is done is done in the order of `Line.packetJobs`.  As long as the session
does not stop and the codec does not fail, the frames that were converted and handed in, and the one that is in the
worker's hands, are those from the first on that is not too early.  Behind a failure of the codec nothing is done. -/
theorem decode_loop (s : Session C K D) {w : Decoder K} (hw : s.decoder = some w) {mark : Option Ticks}
    (hb : w.Begins mark) (moves : List (Nat × Move))
    (hm : ∀ i ∈ (s.jobs moves).filterMap Job.took?, i.isMarker = false) :
    let jobs := s.jobs moves
    let start := w.stream.lineFrom w.codec mark
    ∃ (w' : Decoder K) (heard : List (Packet × List FrameInfo)),
      let frames := heard.flatMap (·.2)
      let shown := start.shown w.stream frames
      (s.run moves).decoder = some w' ∧
      jobs.filterMap Job.took? = heard.map (fun x => .packet x.1) ∧
      jobs.filterMap Job.received? = frames ∧
      w'.clock = (frames.foldl (Line.pass w.stream) start).clock ∧
      jobs.filter (!·.isFail) <+: start.packetJobs w.stream heard ∧
      jobs.filterMap Job.converted? <+: shown.map (·.2) ∧
      jobs.filterMap Job.handedIn? <+: shown.map (·.2) ∧
      ((s.run moves).deck.stop = false → (∀ j ∈ jobs, j.isFail = false) →
        jobs ++ w'.point.due <+: start.packetJobs w.stream heard ∧
        (jobs ++ w'.point.due).filterMap Job.converted? = shown.map (·.2) ∧
        (jobs ++ w'.point.due).filterMap Job.handedIn? = shown.map (·.2)) ∧
      ∀ before how behind, jobs = before ++ .fail how :: behind → behind = [] ∧ w'.ending? = some how := by
  intro jobs start
  obtain ⟨w', heard, stand, hw', course⟩ := (hb.course s.deck.stop).run hw moves hm
  rw [List.nil_append] at course
  obtain ⟨took, received, converted, handedIn⟩ := course.histories
  refine ⟨w', heard, hw', took, received, ?_, ⟨_, course.done⟩, ?_, ?_, fun hstop hfail => ?_, course.last⟩
  · rw [← Line.clock_after]
    exact congrArg Line.clock course.line
  · rw [← converted, List.filterMap_append]
    exact List.prefix_append _ _
  · rw [← handedIn, List.filterMap_append]
    exact List.prefix_append _ _
  · have none : jobs.filter (!·.isFail) = jobs := List.filter_eq_self.2 (fun j hj => by rw [hfail j hj]; rfl)
    have done := course.done
    rw [none, ← List.append_assoc] at done
    rw [course.gave hstop hfail]
    exact ⟨⟨_, done⟩, converted, handedIn⟩

/-- Behind a marker at half a second come a packet with two early frames, the second of them without a time stamp and
half a frame longer than usual, a packet without frames, and one with a frame that has no time stamp either and one that
has, which is still in the hands of the worker. -/
theorem decode_loop_untimed_frames :
    let yields : List (List Script.Yield) :=
      [[.frame { timestamp := some 3 }, .frame { repeats := 1 }], [], [.frame {}, .frame { timestamp := some 9 }]]
    let samples := yields.map (fun ys => ({ size := 4, yields := ys } : Script.Sample))
    let packets := samples.zipIdx.map (fun x => QueueItem.packet (Script.Source.packetOf x.2 x.1))
    let stream : StreamInfo := { kind := .video, timeBase := ⟨1, 10⟩, frameRate := ⟨10, 1⟩ }
    let deck := Deck.new {} (some stream) none 1 0
    let deck := { deck with videoQueue := packets.foldl PacketQueue.put deck.videoQueue }
    let codec : Script.Codec := { items := (samples.map .sample).toArray }
    let w := (({ codec, stream, point := .resetRing 5 } : Decoder Script.Codec).step deck).2.1
    let s : Session Script.Source Script.Codec Empty :=
      { deck, master := .external, info := {}, audio := none, demuxer := { container := {} }, decoder := some w }
    let moves := List.replicate 17 (0, Move.decode)
    w.Begins (some 5) ∧ (∀ i ∈ (s.jobs moves).filterMap Job.took?, i.isMarker = false) ∧
      (s.jobs moves).filterMap Job.handedIn? = [0.3 + 0.1 + (0.1 + 1 * (0.1 * 0.5))] ∧
      ∃ w', (s.run moves).decoder = some w' ∧ w'.clock = 1 ∧
        (s.jobs moves ++ w'.point.due).filterMap Job.handedIn? = [0.3 + 0.1 + (0.1 + 1 * (0.1 * 0.5)), 0.9] := by
  intro yields samples packets stream deck₀ deck codec w s moves
  have begins : w.Begins (some 5) := ⟨deck, _, rfl, rfl⟩
  have noMarker : ∀ i ∈ (s.jobs moves).filterMap Job.took?, i.isMarker = false := by decide +kernel
  have goesOn : (s.run moves).deck.stop = false := by decide +kernel
  have noFault : ∀ j ∈ s.jobs moves, j.isFail = false := by decide +kernel
  have frames : (s.jobs moves).filterMap Job.received? =
      [{ timestamp := some 3 }, { repeats := 1 }, {}, { timestamp := some 9 }] := by decide +kernel
  obtain ⟨w', heard, hw', -, received, clock, -, -, -, done, -⟩ := decode_loop s rfl begins moves noMarker
  obtain ⟨-, -, handedIn⟩ := done goesOn noFault
  rw [← received, frames] at clock handedIn
  refine ⟨begins, noMarker, by decide +kernel, w', hw', clock.trans ?_, handedIn.trans ?_⟩
  · decide +kernel
  · decide +kernel

end Session
end Playhead
