import Playhead.Proofs.SeekProgress
/-!
# SeekAccuracy — where a seek lands

The target of a seek is cut to microseconds; the container goes to the frame before that time, the marker to the frame
nearest to it, and the pictures before the marker are skipped.  So the first picture behind a seek is that of the
nearest frame, which may be up to half a frame before the target (`TestPattern.first_picture_of_seek`).
-/
namespace Playhead

open Double Float.Model

/-! ## Targets in microseconds -/

theorem seekMicros_zero {target : Float} {σ : UnpackedFloat.Sign} (h : target.toModel.unpack = .zero σ) :
    seekMicros target = 0 := by
  have hmul : target * 1000000 = .ofModel (Float.Model.pack
    (UnpackedFloat.mul Format.binary64 target.toModel.unpack (1000000 : Float).toModel.unpack)) := rfl
  rw [seekMicros, hmul, h]
  cases σ <;> decide +kernel

theorem seekMicros_congr {target target' : Float} (h : (target == target') = true) :
    seekMicros target = seekMicros target' := by
  rcases eq_of_beq h with rfl | ⟨σ, τ, hz, hz'⟩
  · rfl
  · rw [seekMicros_zero hz, seekMicros_zero hz']

/-- **The microsecond of a target**, in the first thirty years: the product was rounded before it is cut. -/
theorem seekMicros_near {target : Float} {t : ℚ} (ht : Denotes target t) (hmax : t ≤ 10 ^ 9) :
    0 ≤ (seekMicros target).toInt ∧ (seekMicros target).toInt ≤ 10 ^ 15 ∧
      t * 10 ^ 6 - 5 / 4 < (seekMicros target).toInt ∧ ((seekMicros target).toInt : ℚ) ≤ t * 10 ^ 6 + 1 / 4 := by
  have million : Denotes (1000000 : Float) ((1000000 : Nat) : ℚ) := denotes_ofNat (by decide)
  have hmax' : t * ((1000000 : Nat) : ℚ) ≤ 10 ^ 15 := by
    push_cast
    linarith
  obtain ⟨v, hv, herr⟩ := ht.mul million (N := 50) (by decide) (by decide) (hmax'.trans (by norm_num))
  norm_num at herr
  obtain ⟨hlow, hhigh⟩ := abs_le.1 herr
  have hcut : (seekMicros target).toInt = ⌊v⌋₊ := hv.toInt64 (by linarith)
  have hfloor := Nat.floor_le hv.nonneg
  have hnext := Nat.lt_floor_add_one v
  have htop : ⌊v⌋₊ < 10 ^ 15 + 1 := by
    have : ((⌊v⌋₊ : Nat) : ℚ) < 10 ^ 15 + 1 := by linarith
    exact_mod_cast this
  rw [hcut, Int.cast_natCast]
  exact ⟨Int.natCast_nonneg _, by omega, by linarith, by linarith⟩

namespace TestPattern

namespace Source

variable {s : Source} {us : Ticks}

/-- The frame nearest to a time is no more than half a frame away, and before it if the rest is less than half. -/
theorem nearestFrame_near (hus : 0 ≤ us.toInt) :
    us.toInt * s.fps - 500000 < s.nearestFrame us * 10 ^ 6 ∧ s.nearestFrame us * 10 ^ 6 ≤ us.toInt * s.fps + 500000 ∧
      ((s.nearestFrame us : Int) * 10 ^ 6 < us.toInt * s.fps ↔
        0 < us.toInt * s.fps % 10 ^ 6 ∧ us.toInt * s.fps % 10 ^ 6 < 500000) := by
  obtain ⟨k, hk⟩ := Int.eq_ofNat_of_zero_le hus
  have hcast : us.toInt * s.fps = (k * s.fps : Nat) := by
    rw [hk]
    push_cast
    rfl
  rw [hcast, nearestFrame, hk, Int.toNat_natCast]
  generalize k * s.fps = m
  omega

/-- Where a seek to `t` seconds, cut to `us`, lands: at the first frame that is not too early, which is not more than
half a frame before the target, and not behind the first frame that is not before the target. -/
structure Lands (s : Source) (us : Ticks) (t : ℚ) (n : Nat) : Prop where
  first : s.FirstAt us n
  low : t - 1 / (2 * s.fps) - 5 / (4 * 10 ^ 6) < n / s.fps
  high : (n : ℚ) / s.fps < t + 1 / s.fps
  next : ∀ i : Nat, t ≤ i / s.fps → n ≤ i
  /-- It is before the target when the target is less than half a frame behind a frame. -/
  early : (n : Int) * 10 ^ 6 < us.toInt * s.fps ↔ 0 < us.toInt * s.fps % 10 ^ 6 ∧ us.toInt * s.fps % 10 ^ 6 < 500000
  due : us.toInt * s.fps ≤ n * 10 ^ 6 → t - 5 / (4 * 10 ^ 6) < n / s.fps

theorem Regular.lands (h : s.Regular) {target : Float} {t : ℚ} (ht : Denotes target t) (hmax : t ≤ 10 ^ 9) :
    s.Lands (seekMicros target) t (s.nearestFrame (seekMicros target)) := by
  obtain ⟨hus, htop, hlow, hhigh⟩ := seekMicros_near ht hmax
  obtain ⟨hdown, hup, hearly⟩ := nearestFrame_near (s := s) hus
  have first := h.firstAt_nearest hus htop
  generalize s.nearestFrame (seekMicros target) = n at *
  have hfps : (0 : ℚ) < s.fps := by exact_mod_cast h.slow
  have hfast : (s.fps : ℚ) ≤ 100000 := by exact_mod_cast h.fast
  have hlow' : (t * 10 ^ 6 - 5 / 4) * s.fps < (seekMicros target).toInt * s.fps := mul_lt_mul_of_pos_right hlow hfps
  have high : (n : ℚ) / s.fps < t + 1 / s.fps := by
    have hup' : (n : ℚ) * 10 ^ 6 ≤ (seekMicros target).toInt * s.fps + 500000 := by exact_mod_cast hup
    have hhigh' : ((seekMicros target).toInt : ℚ) * s.fps ≤ (t * 10 ^ 6 + 1 / 4) * s.fps :=
      mul_le_mul_of_nonneg_right hhigh hfps.le
    have hone : 1 / (s.fps : ℚ) * s.fps = 1 := one_div_mul_cancel hfps.ne'
    rw [div_lt_iff₀ hfps]
    linarith
  refine ⟨first, ?_, high, fun i hi => ?_, hearly, fun hdue => ?_⟩
  · have hdown' : ((seekMicros target).toInt : ℚ) * s.fps - 500000 < n * 10 ^ 6 := by exact_mod_cast hdown
    have hhalf : 1 / (2 * (s.fps : ℚ)) * s.fps = 1 / 2 := by field_simp
    rw [lt_div_iff₀ hfps]
    linarith
  · have hlt : (n : ℚ) / s.fps < (i + 1 : Nat) / s.fps := by
      push_cast
      rw [add_div]
      linarith
    have hlt' : (n : ℚ) < (i + 1 : Nat) := (div_lt_div_iff_of_pos_right hfps).1 hlt
    exact Nat.le_of_lt_succ (by exact_mod_cast hlt')
  · have hdue' : ((seekMicros target).toInt : ℚ) * s.fps ≤ n * 10 ^ 6 := by exact_mod_cast hdue
    rw [lt_div_iff₀ hfps]
    linarith

end Source

/-! ## The first picture -/

open Source

variable [AudioDecoder D]

def sought? (start : Session Source Codec D) (moves : List (Nat × Move)) : Option Ticks :=
  (Epoch.after start.deck.laneOf {} (start.chronicle moves)).seek

def first? (start : Session Source Codec D) (moves : List (Nat × Move)) : Option Picture :=
  (shown start (start.run moves) (start.chronicle moves)).head?

section

variable {s : Source} {codec : Codec} {σ : Schedule}

theorem bound_of_request (hs : s.Regular) (now : Nat) (config : Config) (audio : Option (StreamInfo × D))
    (fair : σ.Fair audio.isSome) {request : Float} (hrequest : (request == request) = true) {x : Session Source Codec D}
    {notes : List Note} (along : (s.session now config audio codec).Along x notes) (hstop : x.deck.stop = false)
    (hpending : x.deck.pendingSeek = some request) :
    ∃ k target, seekMicros target = seekMicros request ∧
      Bound (s.session now config audio codec) target (x.run (σ.first k)) (notes ++ x.chronicle (σ.first k)) := by
  obtain ⟨k, along', hstop', hnone, hnewest⟩ :=
    done_of_request hs now config audio codec fair hrequest x notes along hstop hpending
  have law : SeekLaw (x.run (σ.first k)).demuxer.point (x.run (σ.first k)).deck.pendingSeek
      (notes ++ x.chronicle (σ.first k)) := by
    obtain ⟨moves, hx, hnotes⟩ := along'
    rw [hx, hnotes]
    exact Session.seekLawful_run now config s audio _ moves
  obtain ⟨hno, -⟩ | ⟨r, target, hr, htarget, heq⟩ := law.done hnone
  · rw [hnewest] at hno
    cases hno
  · obtain rfl : request = r := Option.some.inj (hnewest.symm.trans hr)
    exact ⟨k, target, (seekMicros_congr heq).symm, along', hstop', hnone, htarget⟩

/-- **A request comes to its seek**, and to the first picture of it, if there is a frame for it. -/
theorem seek_comes (hs : s.Regular) (hfresh : codec.pending.toList = []) (now : Nat) (config : Config)
    (audio : Option (StreamInfo × D)) (moves : List (Nat × Move)) :
    let start : Session Source Codec D := s.session now config audio codec
    (start.run moves).deck.stop = false → ∀ request : Float, (request == request) = true → ∀ instant (σ : Schedule),
      σ.Fair audio.isSome → ∃ k,
        let asked := moves ++ (instant, .requestSeek request) :: σ.first k
        sought? start asked = some (seekMicros request) ∧
          ∀ n, s.FirstAt (seekMicros request) n → n < s.frameCount → (first? start asked).isSome = true := by
  intro start hstop request hrequest instant σ fair
  let x := (start.run moves).move instant (.requestSeek request)
  let notes := start.chronicle moves ++ (start.run moves).notes (.requestSeek request)
  have along : start.Along x notes := Session.Along.move ⟨moves, rfl, rfl⟩ instant (.requestSeek request)
  obtain ⟨k, target, hmicros, bound⟩ := bound_of_request hs now config audio fair hrequest along hstop rfl
  have run_asked (k : Nat) : start.run (moves ++ (instant, .requestSeek request) :: σ.first k) = x.run (σ.first k) :=
    start.run_append moves _
  have chronicle_asked (k : Nat) : start.chronicle (moves ++ (instant, .requestSeek request) :: σ.first k) =
      notes ++ x.chronicle (σ.first k) := by
    rw [start.chronicle_append, Session.chronicle, List.append_assoc]
  have sought {k : Nat} (h : Bound start target (x.run (σ.first k)) (notes ++ x.chronicle (σ.first k))) :
      sought? start (moves ++ (instant, .requestSeek request) :: σ.first k) = some (seekMicros request) := by
    rw [sought?, chronicle_asked, ← hmicros]
    exact h.seek hs
  by_cases hn : ∃ n, s.FirstAt (seekMicros request) n ∧ n < s.frameCount
  · obtain ⟨n, hn, hcount⟩ := hn
    obtain ⟨k', bound', hshown⟩ := picture_of_seek hs hfresh (fair.drop k) bound (hmicros ▸ hn) hcount
    rw [List.append_assoc, ← Session.run_append, ← Session.chronicle_append, ← Schedule.first_add] at bound' hshown
    refine ⟨k + k', sought bound', fun _ _ _ => ?_⟩
    rw [first?, run_asked, chronicle_asked, List.isSome_head?]
    exact hshown
  · exact ⟨k, sought bound, fun n hfirst hcount => absurd ⟨n, hfirst, hcount⟩ hn⟩

/-- **The first picture behind a seek is that of the nearest frame.**  In every state of playback, the first picture of
the epoch of a seek is that of the first frame, from the position of the container on, that is not too early against the
marker.  Whenever the session has not been stopped, a request is done under every fair schedule, and its first picture
comes if the medium has that frame.  For a target in the first thirty years it is the nearest frame: not more than half
a frame before the target, which it is before when the target is less than half a frame behind a frame, and never later
than the first frame from the target on. -/
theorem first_picture_of_seek (hs : s.Regular) (hfresh : codec.pending.toList = []) (now : Nat) (config : Config)
    (audio : Option (StreamInfo × D)) (moves : List (Nat × Move)) :
    let start : Session Source Codec D := Player.sessionOf now config s audio (some (s.videoStream, codec))
    (∀ us, sought? start moves = some us → ∀ p ∈ first? start moves,
      ∃ n, s.FirstAt us n ∧ n < s.frameCount ∧ p.pts = s.frameTime n) ∧
    ((start.run moves).deck.stop = false → ∀ request : Float, (request == request) = true → ∀ instant (σ : Schedule),
      σ.Fair audio.isSome → ∃ k,
        let asked := moves ++ (instant, .requestSeek request) :: σ.first k
        sought? start asked = some (seekMicros request) ∧ ∀ n, s.FirstAt (seekMicros request) n → n < s.frameCount →
          (first? start asked).map Picture.pts = some (s.frameTime n)) ∧
    ∀ target t, Denotes target t → t ≤ 10 ^ 9 →
      ∃ n, s.Lands (seekMicros target) t n ∧ ∀ i, s.FirstAt (seekMicros target) i → i = n := by
  intro start
  have first (moves : List (Nat × Move)) : ∀ us, sought? start moves = some us → ∀ p ∈ first? start moves,
      ∃ n, s.FirstAt us n ∧ n < s.frameCount ∧ p.pts = s.frameTime n :=
    fun us hus => (hs.first_run now config audio hfresh moves us hus).1
  refine ⟨first moves, fun hstop request hrequest instant σ fair => ?_, fun target t ht hmax => ?_⟩
  · obtain ⟨k, hsought, hcomes⟩ := seek_comes hs hfresh now config audio moves hstop request hrequest instant σ fair
    refine ⟨k, hsought, fun n hn hcount => ?_⟩
    obtain ⟨p, hp⟩ := Option.isSome_iff_exists.1 (hcomes n hn hcount)
    obtain ⟨i, hi, -, hpts⟩ := first _ _ hsought p hp
    rw [hp, Option.map_some, hpts, hi.unique hn]
  · have lands := hs.lands ht hmax
    exact ⟨_, lands, fun i hi => hi.unique lands.first⟩

end

/-! ## Twenty frames -/

/-- Everybody moves in turn. -/
def turns : Schedule := fun n => (n, if n % 3 = 0 then .decode else if n % 3 = 1 then .demux else .takeAudio)

theorem fair_turns (audio : Bool) : turns.Fair audio where
  goesOn n := by
    unfold turns
    dsimp only
    split
    · rfl
    · split <;> rfl
  demux n := ⟨2 * n + 1, by simp only [turns]; rw [if_neg (by omega), if_pos (by omega)]⟩
  decode n := ⟨2 * n, by simp only [turns]; rw [if_pos (by omega)]⟩
  takeAudio _ n := ⟨2 * n + 2, by simp only [turns]; rw [if_neg (by omega), if_neg (by omega)]⟩

/-- Two seconds at ten frames in a second, and the target 1.04. -/
theorem first_picture_of_seek_between_frames :
    let s := Source.new 2 10
    let codec : Codec := { width := 16, height := 8 }
    let start : Session Source Codec Empty := Player.sessionOf 0 {} s none (some (s.videoStream, codec))
    let t : ℚ := (4683743612465316 : Nat) * 2 ^ (-52 : Int)
    s.Regular ∧ codec.pending.toList = [] ∧ start.deck.stop = false ∧ ((1.04 : Float) == 1.04) = true ∧
      turns.Fair false ∧ Denotes 1.04 t ∧ t ≤ 10 ^ 9 ∧ s.Lands (seekMicros 1.04) t 10 ∧
      ∃ k, let asked := (7, .requestSeek 1.04) :: turns.first k
        sought? start asked = some (seekMicros 1.04) ∧
          (first? start asked).map Picture.pts = some (s.frameTime 10) := by
  intro s codec start t
  have regular : s.Regular := ⟨rfl, by decide, by decide, rfl, rfl, rfl, by decide⟩
  have fresh : codec.pending.toList = [] := rfl
  have nan : ((1.04 : Float) == 1.04) = true := by decide +kernel
  have count : 10 < s.frameCount := by decide +kernel
  have denotes : Denotes 1.04 t := .finite (by decide) ⟨by decide, by decide, by decide, .inl (by decide)⟩ rfl
  have most : t ≤ 10 ^ 9 := by norm_num [t]
  have firstAt : s.FirstAt (seekMicros 1.04) 10 := by
    have micros : seekMicros 1.04 = 1040000 := by decide +kernel
    have nearest : s.nearestFrame 1040000 = 10 := by decide +kernel
    rw [micros, ← nearest]
    exact regular.firstAt_nearest (by decide) (by decide)
  obtain ⟨-, comes, near⟩ := first_picture_of_seek (D := Empty) regular fresh 0 {} none []
  obtain ⟨n, lands, unique⟩ := near 1.04 t denotes most
  obtain ⟨k, hsought, hfirst⟩ := comes rfl 1.04 nan 7 turns (fair_turns false)
  obtain rfl : 10 = n := unique 10 firstAt
  exact ⟨regular, fresh, rfl, nan, fair_turns false, denotes, most, lands, k, hsought, hfirst 10 firstAt count⟩

/-- The first picture behind a seek to 1.04 seconds is that of the frame before, and more than the tolerance too
early. -/
theorem first_picture_before_target :
    let s := Source.new 2 10
    let start : Session Source Codec Empty :=
      Player.sessionOf 0 {} s none (some (s.videoStream, { width := 16, height := 8 }))
    let asked := (7, .requestSeek 1.04) :: turns.first 80
    s.Regular ∧ sought? start asked = some (seekMicros 1.04) ∧ (start.run asked).deck.stop = false ∧
      (1.04 : Float) < s.duration ∧ ∃ p ∈ first? start asked, p.pts + Decoder.tolerance < 1.04 := by
  intro s start asked
  have early : (first? start asked).any (fun p => decide (p.pts + Decoder.tolerance < 1.04)) = true := by decide +kernel
  obtain ⟨p, hp, hlt⟩ := Option.any_eq_true _ _ |>.1 early
  exact ⟨⟨rfl, by decide, by decide, rfl, rfl, rfl, by decide⟩, by decide +kernel, by decide +kernel, by decide +kernel,
    p, hp, of_decide_eq_true hlt⟩

end TestPattern
end Playhead
