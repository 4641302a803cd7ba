import Mathlib.Data.List.TakeWhile
import Playhead.Proofs.BoundedLine
/-!
# EarlyPictures — how a picture comes to be shown before its time

A refresh that follows a clock waits while the oldest picture lies ahead of it.  It looks at that picture only: behind
late pictures, which it drops, it shows the next one whatever its time (`BoundedLine.refresh_eq_some_iff`).  So a
picture that is shown with nothing dropped is never early, and a picture is shown early exactly if it stands behind late
ones with a gap in between (`PictureRing.early_behind_late`).
-/
namespace Playhead

/-- The time of the picture lies further ahead of the clock than the threshold allows. -/
def Picture.isEarly (clock threshold : Float) (p : Picture) : Bool := decide (clock + threshold < p.pts)

def Picture.isLate (clock threshold : Float) (p : Picture) : Bool := decide (p.pts + threshold ≤ clock)

namespace BoundedLine

variable {l : BoundedLine} {clock threshold : Float} {late rest : List Picture} {p : Picture}

/-- A line falls into late pictures, one that is not late or is the last of all, and the rest. -/
structure SplitsAt (l : BoundedLine) (clock threshold : Float) (late : List Picture) (p : Picture)
    (rest : List Picture) : Prop where
  pictures : l.pictures = late ++ p :: rest
  late : ∀ q ∈ late, q.isLate clock threshold = true
  stops : rest ≠ [] → p.isLate clock threshold = false

theorem SplitsAt.late_eq (h : l.SplitsAt clock threshold late p rest) : l.late clock threshold = late := by
  change l.pictures.dropLast.takeWhile (Picture.isLate clock threshold) = late
  rw [h.pictures]
  cases rest with
  | nil => rw [List.dropLast_concat, List.takeWhile_eq_self_iff.2 h.late]
  | cons x rest =>
    have stop : p.isLate clock threshold = false := h.stops (List.cons_ne_nil _ _)
    rw [List.dropLast_append_cons, List.dropLast_cons_of_ne_nil (List.cons_ne_nil _ _),
      List.takeWhile_append_of_pos h.late, List.takeWhile_cons, if_neg (by simp [stop]), List.append_nil]

theorem SplitsAt.takeAt_late (h : l.SplitsAt clock threshold late p rest) :
    (l.takeAt (l.late clock threshold).length).1 = some p := by
  simp [takeAt, h.late_eq, h.pictures]

theorem exists_splitsAt (h : l.pictures ≠ []) (clock threshold : Float) :
    ∃ late p rest, l.SplitsAt clock threshold late p rest := by
  obtain ⟨front, last, hl⟩ : ∃ front last, l.pictures = front ++ [last] :=
    ⟨_, _, (List.dropLast_concat_getLast h).symm⟩
  have parts : front.takeWhile (Picture.isLate clock threshold) ++ front.dropWhile (Picture.isLate clock threshold) =
      front := List.takeWhile_append_dropWhile
  have late : ∀ q ∈ front.takeWhile (Picture.isLate clock threshold), q.isLate clock threshold = true :=
    fun q hq => List.mem_takeWhile_imp hq
  cases hd : front.dropWhile (Picture.isLate clock threshold) with
  | nil =>
    rw [hd, List.append_nil] at parts
    exact ⟨_, last, [], ⟨by rw [parts, hl], late, fun hn => absurd rfl hn⟩⟩
  | cons p rest =>
    refine ⟨_, p, rest ++ [last], ⟨?_, late, fun _ => ?_⟩⟩
    · rw [hl, ← List.cons_append, ← List.append_assoc, ← hd, parts]
    · have stop := List.head_dropWhile_not (Picture.isLate clock threshold) (l := front)
        (by rw [hd]; exact List.cons_ne_nil _ _)
      simpa only [hd, List.head_cons] using stop

/-- **What a refresh shows**: the picture behind the late ones, if the oldest of all is not early. -/
theorem refresh_eq_some_iff (l : BoundedLine) (clock threshold : Float) (p : Picture) :
    (l.refresh (some clock) threshold).1 = some p ↔
      (∀ head ∈ l.pictures.head?, head.isEarly clock threshold = false) ∧
        ∃ late rest, l.SplitsAt clock threshold late p rest := by
  cases hl : l.pictures with
  | nil =>
    refine iff_of_false (by simp [refresh, hl]) ?_
    rintro ⟨-, late, rest, split⟩
    rw [split.pictures] at hl
    simp at hl
  | cons head tail =>
    obtain ⟨late, q, rest, split⟩ := exists_splitsAt (l := l) (by rw [hl]; simp) clock threshold
    have taken := split.takeAt_late
    simp only [refresh, hl, List.head?_cons, Option.mem_some_iff, forall_eq', Picture.isEarly, decide_eq_false_iff_not]
    by_cases early : clock + threshold < head.pts
    · rw [if_pos early]
      exact iff_of_false (fun h => by cases h) (fun h => h.1 early)
    · rw [if_neg early, taken]
      constructor
      · intro h
        cases h
        exact ⟨early, late, rest, split⟩
      · rintro ⟨-, late', rest', split'⟩
        exact taken.symm.trans split'.takeAt_late

end BoundedLine

namespace PictureRing

/-- **A picture is shown early only behind late ones.**  Whatever was done to a ring: a picture that is shown with none
dropped before it is not early; and a refresh shows an early picture exactly if the oldest picture is not early, it and
those behind it up to some place are late, and the next one, the first that is not late or the last of all, lies ahead
of the clock by more than the threshold. -/
theorem early_behind_late (capacity : Nat) (acts : List RingAct) (clock threshold : Float) :
    let r := (new capacity).run acts
    let shown := (r.refresh (some clock) threshold).1
    (∀ p, shown = some p → r.outgoing (some clock) threshold = [p] → p.isEarly clock threshold = false) ∧
    ((∃ p, shown = some p ∧ p.isEarly clock threshold = true) ↔
      ∃ head late p rest, r.pictures = head :: late ++ p :: rest ∧ head.isEarly clock threshold = false ∧
        (∀ q ∈ head :: late, q.isLate clock threshold = true) ∧ (rest ≠ [] → p.isLate clock threshold = false) ∧
        p.isEarly clock threshold = true) := by
  intro r shown
  have laid : r.Laid := (run_line (laid_new capacity) acts).1
  have onLine : (r.line.refresh (some clock) threshold).1 = shown := (refresh_line laid (some clock) threshold).1
  have shows : ∀ p, shown = some p ↔ (∀ head ∈ r.pictures.head?, head.isEarly clock threshold = false) ∧
      ∃ late rest, r.line.SplitsAt clock threshold late p rest := by
    intro p
    rw [← onLine]
    exact r.line.refresh_eq_some_iff clock threshold p
  refine ⟨?_, ?_, ?_⟩
  · intro p hp alone
    have front := r.outgoing_append (some clock) threshold
    rw [alone] at front
    apply ((shows p).1 hp).1
    rw [← front]
    rfl
  · rintro ⟨p, hp, early⟩
    obtain ⟨onTime, late, rest, split⟩ := (shows p).1 hp
    have hl : r.pictures = late ++ p :: rest := split.pictures
    cases late with
    | nil =>
      -- with nothing dropped the picture is the oldest, which is not early
      have := onTime p (by rw [hl]; rfl)
      rw [early] at this
      cases this
    | cons head late =>
      exact ⟨head, late, p, rest, hl, onTime head (by rw [hl]; rfl), split.late, split.stops, early⟩
  · rintro ⟨head, late, p, rest, hl, onTime, hlate, stops, early⟩
    refine ⟨p, (shows p).2 ⟨?_, head :: late, rest, ⟨hl, hlate, stops⟩⟩, early⟩
    intro head' hmem
    rw [hl] at hmem
    cases hmem
    exact onTime

/-- At five seconds a refresh drops the picture of time zero, and shows the one of ten seconds. -/
theorem shown_five_seconds_early :
    let image := Image.paint {} 1 1 {}
    let r := (new 4).run [.commit 0 image, .commit 10 image]
    (0 : Float) ≤ 0.03 ∧ (r.refresh (some 5) 0.03).1.map (fun p => (p.pts, p.image)) = some (10, image) ∧
      image.isAllocated = true ∧ (5 : Float) + 0.03 < 10 := by
  decide +kernel

end PictureRing

end Playhead
