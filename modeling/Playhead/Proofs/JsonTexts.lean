import Mathlib
import Playhead.Json.Reader
/-!
# JsonTexts — the grammar of JSON, and that the reader reads exactly that

`Writes` says which characters write which value: the signs and words of JSON, blanks wherever there may be some, a
string by its pieces and a number by its digits.  What the reader finds is written in front of what it leaves
(`reader_sound`); what is written is found, whatever follows, if only a number can not go on there
(`Writes.readBack`).  So `read` knows the texts of the grammar, and no others (`read_eq_some_iff`).
-/
namespace Playhead
namespace Json

/-! ## Blanks and digits -/

def Blanks (cs : List Char) : Prop := ∀ c ∈ cs, isBlank c = true

def Stops (p : Char → Bool) (cs : List Char) : Prop := ∀ c ∈ cs.head?, p c = false

theorem blanks_nil : Blanks [] := nofun

theorem Blanks.append {bs bs' : List Char} (h : Blanks bs) (h' : Blanks bs') : Blanks (bs ++ bs') := fun c hc =>
  (List.mem_append.1 hc).elim (h c) (h' c)

theorem stops_append {p : Char → Bool} {cs rest : List Char} (h : ∀ c ∈ cs, p c = false) (hr : Stops p rest) :
    Stops p (cs ++ rest) := by
  cases cs with
  | nil => exact hr
  | cons c cs =>
    intro d hd
    obtain rfl := Option.some.inj hd
    exact h c List.mem_cons_self

theorem skipBlanks_append {bs : List Char} (h : Blanks bs) (s : List Char) : skipBlanks (bs ++ s) = skipBlanks s := by
  rw [skipBlanks, List.dropWhile_append, List.dropWhile_eq_nil_iff.2 h]
  rfl

theorem skipBlanks_of_stops {s : List Char} (h : Stops isBlank s) : skipBlanks s = s := by
  cases s with
  | nil => rfl
  | cons c s => exact List.dropWhile_cons_of_neg (Bool.eq_false_iff.1 (h c rfl))

theorem blanks_before (s : List Char) : ∃ bs, Blanks bs ∧ s = bs ++ skipBlanks s :=
  ⟨s.takeWhile isBlank, fun _ hc => List.mem_takeWhile_imp hc, List.takeWhile_append_dropWhile.symm⟩

@[simp] theorem skipBlanks_skipBlanks (s : List Char) : skipBlanks (skipBlanks s) = skipBlanks s := by
  obtain ⟨bs, hb, hs⟩ := blanks_before s
  conv_rhs => rw [hs, skipBlanks_append hb]

structure Digits (cs : List Char) (ds : List Nat) : Prop where
  nonempty : cs ≠ []
  digit : ∀ c ∈ cs, isDigit c = true
  value : ds = cs.map digitValue

theorem readDigits_sound {s rest : List Char} {ds : List Nat} (h : readDigits s = some (ds, rest)) :
    ∃ cs, Digits cs ds ∧ s = cs ++ rest := by
  unfold readDigits takeDigits at h
  split at h
  · cases h
  · next ds' rest' hne heq =>
    cases h
    obtain ⟨hds, hrest⟩ := Prod.mk.inj heq
    refine ⟨s.takeWhile isDigit, ⟨fun hnil => hne ?_, fun _ hc => List.mem_takeWhile_imp hc, hds.symm⟩, ?_⟩
    · rw [← hds, hnil]
      rfl
    · rw [← hrest, List.takeWhile_append_dropWhile]

theorem Digits.read {cs : List Char} {ds : List Nat} (h : Digits cs ds) {rest : List Char} (hr : Stops isDigit rest) :
    readDigits (cs ++ rest) = some (ds, rest) := by
  have hdrop : rest.dropWhile isDigit = rest ∧ rest.takeWhile isDigit = [] := by
    cases rest with
    | nil => exact ⟨rfl, rfl⟩
    | cons c rest =>
      have hc := Bool.eq_false_iff.1 (hr c rfl)
      exact ⟨List.dropWhile_cons_of_neg hc, List.takeWhile_cons_of_neg hc⟩
  have htake : takeDigits (cs ++ rest) = (ds, rest) := by
    rw [takeDigits, List.takeWhile_append_of_pos h.digit, List.dropWhile_append_of_pos h.digit, hdrop.1, hdrop.2,
      List.append_nil, h.value]
  have hne : ds ≠ [] := by
    rw [h.value]
    exact fun hnil => h.nonempty (List.map_eq_nil_iff.1 hnil)
  unfold readDigits
  rw [htake]
  cases ds with
  | nil => exact absurd rfl hne
  | cons d ds => rfl

/-! ## Numbers -/

def goesOn (c : Char) : Bool := isDigit c || c == '.' || c == 'e' || c == 'E'

inductive Sign : List Char → Bool → Prop
  | none : Sign [] false
  | minus : Sign ['-'] true

inductive Fraction : List Char → Option (List Nat) → Prop
  | none : Fraction [] none
  | digits {cs : List Char} {ds : List Nat} (h : Digits cs ds) : Fraction ('.' :: cs) (some ds)

inductive Exponent : List Char → Option (Bool × List Nat) → Prop
  | none : Exponent [] none
  | plain {e : Char} {cs : List Char} {ds : List Nat} (he : e = 'e' ∨ e = 'E') (h : Digits cs ds) :
    Exponent (e :: cs) (some (false, ds))
  | plus {e : Char} {cs : List Char} {ds : List Nat} (he : e = 'e' ∨ e = 'E') (h : Digits cs ds) :
    Exponent (e :: '+' :: cs) (some (false, ds))
  | minus {e : Char} {cs : List Char} {ds : List Nat} (he : e = 'e' ∨ e = 'E') (h : Digits cs ds) :
    Exponent (e :: '-' :: cs) (some (true, ds))

/-- A number; a zero in front of another digit is none. -/
inductive WritesNumeral : List Char → Numeral → Prop
  | mk {sign whole fraction exponent : List Char} {n : Numeral} (hs : Sign sign n.negative) (hw : Digits whole n.whole)
    (hz : ¬ (n.whole.length ≠ 1 ∧ n.whole.head? = some 0)) (hf : Fraction fraction n.fraction)
    (he : Exponent exponent n.exponent) : WritesNumeral (sign ++ whole ++ fraction ++ exponent) n

theorem readFraction_sound {s rest : List Char} {f : Option (List Nat)} (h : readFraction s = some (f, rest)) :
    ∃ cs, Fraction cs f ∧ s = cs ++ rest := by
  unfold readFraction at h
  split at h
  · obtain ⟨⟨ds, rest'⟩, hd, he⟩ := Option.map_eq_some_iff.1 h
    cases he
    obtain ⟨cs, hcs, rfl⟩ := readDigits_sound hd
    exact ⟨_, .digits hcs, rfl⟩
  · cases h
    exact ⟨[], .none, rfl⟩

theorem readExponent_signed {e : Char} (he : e = 'e' ∨ e = 'E') (s : List Char) :
    readExponent (e :: '+' :: s) = (readDigits s).map (fun r => (some (false, r.1), r.2)) ∧
      readExponent (e :: '-' :: s) = (readDigits s).map (fun r => (some (true, r.1), r.2)) := by
  rcases he with rfl | rfl <;> exact ⟨rfl, rfl⟩

theorem readExponent_plain {e : Char} (he : e = 'e' ∨ e = 'E') {s : List Char}
    (hs : Stops (fun c => c == '+' || c == '-') s) :
    readExponent (e :: s) = (readDigits s).map (fun r => (some (false, r.1), r.2)) := by
  rcases he with rfl | rfl <;> simp only [readExponent] <;> split
  · exact absurd (hs '+' rfl) (by decide)
  · exact absurd (hs '-' rfl) (by decide)
  · rfl
  · exact absurd (hs '+' rfl) (by decide)
  · exact absurd (hs '-' rfl) (by decide)
  · rfl

theorem readExponent_none {s : List Char} (h : Stops (fun c => c == 'e' || c == 'E') s) :
    readExponent s = some (none, s) := by
  unfold readExponent
  dsimp only
  split
  · exact absurd (h 'e' rfl) (by decide)
  · exact absurd (h 'E' rfl) (by decide)
  · rfl

theorem begins_of_not_stops {a b : Char} {s : List Char} (h : ¬ Stops (fun c => c == a || c == b) s) :
    ∃ c s', s = c :: s' ∧ (c = a ∨ c = b) := by
  cases s with
  | nil => exact absurd nofun h
  | cons c s =>
    refine ⟨c, s, rfl, ?_⟩
    by_contra hc
    refine h (fun d hd => ?_)
    obtain rfl := Option.some.inj hd
    simpa using hc

theorem readExponent_sound {s rest : List Char} {e : Option (Bool × List Nat)} (h : readExponent s = some (e, rest)) :
    ∃ cs, Exponent cs e ∧ s = cs ++ rest := by
  by_cases hs : Stops (fun c => c == 'e' || c == 'E') s
  · rw [readExponent_none hs] at h
    cases h
    exact ⟨[], .none, rfl⟩
  · obtain ⟨c, s, rfl, hc⟩ := begins_of_not_stops hs
    have found {s : List Char} {negative : Bool}
        (h : (readDigits s).map (fun r => (some (negative, r.1), r.2)) = some (e, rest)) :
        ∃ cs ds, Digits cs ds ∧ s = cs ++ rest ∧ e = some (negative, ds) := by
      obtain ⟨⟨ds, rest'⟩, hd, he⟩ := Option.map_eq_some_iff.1 h
      cases he
      obtain ⟨cs, hcs, rfl⟩ := readDigits_sound hd
      exact ⟨cs, ds, hcs, rfl, rfl⟩
    by_cases hsign : Stops (fun c => c == '+' || c == '-') s
    · rw [readExponent_plain hc hsign] at h
      obtain ⟨cs, ds, hcs, rfl, rfl⟩ := found h
      exact ⟨_, .plain hc hcs, rfl⟩
    · obtain ⟨sign, s, rfl, rfl | rfl⟩ := begins_of_not_stops hsign
      · rw [(readExponent_signed hc s).1] at h
        obtain ⟨cs, ds, hcs, rfl, rfl⟩ := found h
        exact ⟨_, .plus hc hcs, rfl⟩
      · rw [(readExponent_signed hc s).2] at h
        obtain ⟨cs, ds, hcs, rfl, rfl⟩ := found h
        exact ⟨_, .minus hc hcs, rfl⟩

def readUnsigned (negative : Bool) (s : List Char) : Option (Numeral × List Char) :=
  (readDigits s).bind fun w =>
    if w.1.length ≠ 1 ∧ w.1.head? = some 0 then none
    else (readFraction w.2).bind fun f => (readExponent f.2).bind fun e =>
      some ({ negative, whole := w.1, fraction := f.1, exponent := e.1 }, e.2)

theorem readNumeral_minus (s : List Char) : readNumeral ('-' :: s) = readUnsigned true s := rfl

theorem readNumeral_plain {s : List Char} (h : Stops (· == '-') s) : readNumeral s = readUnsigned false s := by
  unfold readNumeral
  split
  next negative s' hsign =>
    split at hsign
    · exact absurd (h '-' rfl) (by decide)
    · cases hsign
      rfl

theorem readUnsigned_sound {negative : Bool} {s rest : List Char} {n : Numeral}
    (h : readUnsigned negative s = some (n, rest)) {sign : List Char} (hs : Sign sign negative) :
    ∃ cs, WritesNumeral cs n ∧ sign ++ s = cs ++ rest := by
  obtain ⟨⟨whole, s₁⟩, hw, h⟩ := Option.bind_eq_some_iff.1 h
  split at h
  · cases h
  · next hz =>
    obtain ⟨⟨fraction, s₂⟩, hf, h⟩ := Option.bind_eq_some_iff.1 h
    obtain ⟨⟨exponent, s₃⟩, he, h⟩ := Option.bind_eq_some_iff.1 h
    cases h
    obtain ⟨w, hwhole, rfl⟩ := readDigits_sound hw
    obtain ⟨f, hfraction, rfl⟩ := readFraction_sound hf
    obtain ⟨e, hexponent, rfl⟩ := readExponent_sound he
    exact ⟨_, .mk hs hwhole hz hfraction hexponent, by simp only [List.append_assoc]⟩

theorem readNumeral_sound {s rest : List Char} {n : Numeral} (h : readNumeral s = some (n, rest)) :
    ∃ cs, WritesNumeral cs n ∧ s = cs ++ rest := by
  by_cases hs : Stops (· == '-') s
  · rw [readNumeral_plain hs] at h
    exact readUnsigned_sound h .none
  · cases s with
    | nil => exact absurd nofun hs
    | cons c s =>
      obtain rfl : c = '-' := by
        by_contra hc
        refine hs (fun d hd => ?_)
        obtain rfl := Option.some.inj hd
        simpa using hc
      rw [readNumeral_minus] at h
      exact readUnsigned_sound h .minus

theorem Digits.head {cs : List Char} {ds : List Nat} (h : Digits cs ds) :
    ∃ c cs', cs = c :: cs' ∧ isDigit c = true := by
  cases cs with
  | nil => exact absurd rfl h.nonempty
  | cons c cs => exact ⟨c, cs, rfl, h.digit c List.mem_cons_self⟩

theorem ne_of_isDigit {c d : Char} (hc : isDigit c = true) (hd : isDigit d = false) : c ≠ d := by
  rintro rfl
  exact Bool.false_ne_true (hd.symm.trans hc)

theorem Fraction.stops {cs : List Char} {f : Option (List Nat)} (h : Fraction cs f) {p : Char → Bool}
    (hp : p '.' = false) {rest : List Char} (hr : Stops p rest) : Stops p (cs ++ rest) := by
  cases h with
  | none => exact hr
  | digits h =>
    intro c hc
    obtain rfl := Option.some.inj hc
    exact hp

theorem Exponent.stops {cs : List Char} {e : Option (Bool × List Nat)} (h : Exponent cs e) {p : Char → Bool}
    (hp : p 'e' = false ∧ p 'E' = false) {rest : List Char} (hr : Stops p rest) : Stops p (cs ++ rest) := by
  cases h with
  | none => exact hr
  | plain he _ | plus he _ | minus he _ =>
    intro c hc
    obtain rfl := Option.some.inj hc
    rcases he with rfl | rfl
    · exact hp.1
    · exact hp.2

theorem Fraction.read {cs : List Char} {f : Option (List Nat)} (h : Fraction cs f) {rest : List Char}
    (hd : Stops isDigit rest) (hp : Stops (· == '.') rest) : readFraction (cs ++ rest) = some (f, rest) := by
  cases h with
  | none =>
    rw [List.nil_append]
    unfold readFraction
    split
    · exact absurd (hp '.' rfl) (by decide)
    · rfl
  | digits h =>
    rw [List.cons_append]
    simp only [readFraction, h.read hd, Option.map_some]

theorem Exponent.read {cs : List Char} {e : Option (Bool × List Nat)} (h : Exponent cs e) {rest : List Char}
    (hd : Stops isDigit rest) (he : Stops (fun c => c == 'e' || c == 'E') rest) :
    readExponent (cs ++ rest) = some (e, rest) := by
  cases h with
  | none => exact readExponent_none he
  | plus he h => rw [List.cons_append, List.cons_append, (readExponent_signed he _).1, h.read hd]; rfl
  | minus he h => rw [List.cons_append, List.cons_append, (readExponent_signed he _).2, h.read hd]; rfl
  | plain he h =>
    obtain ⟨c, cs, rfl, hc⟩ := h.head
    have hsign : Stops (fun c => c == '+' || c == '-') (c :: cs ++ rest) := by
      intro d hd
      obtain rfl := Option.some.inj hd
      simp [ne_of_isDigit hc (d := '+') (by decide), ne_of_isDigit hc (d := '-') (by decide)]
    rw [List.cons_append, readExponent_plain he hsign, h.read hd]
    rfl

/-- **A number is read as it is written**, if it can not go on. -/
theorem WritesNumeral.read {cs : List Char} {n : Numeral} (h : WritesNumeral cs n) {rest : List Char}
    (hr : Stops goesOn rest) : readNumeral (cs ++ rest) = some (n, rest) := by
  have stops {p : Char → Bool} (hp : ∀ c, goesOn c = false → p c = false) : Stops p rest := fun c hc => hp c (hr c hc)
  have hdigit : Stops isDigit rest := stops (by simp +contextual [goesOn])
  have hpoint : Stops (· == '.') rest := stops (by simp +contextual [goesOn])
  have hexp : Stops (fun c => c == 'e' || c == 'E') rest := stops (by simp +contextual [goesOn])
  obtain @⟨sign, whole, fraction, exponent, n, hs, hw, hz, hf, he⟩ := h
  have unsigned (negative : Bool) : readUnsigned negative (whole ++ fraction ++ exponent ++ rest) =
      some ({ n with negative }, rest) := by
    have hbehind : Stops isDigit (fraction ++ (exponent ++ rest)) := hf.stops (by decide) (he.stops (by decide) hdigit)
    have hbehind' : Stops isDigit (exponent ++ rest) := he.stops (by decide) hdigit
    have hpoint' : Stops (· == '.') (exponent ++ rest) := he.stops (by decide) hpoint
    simp only [readUnsigned, List.append_assoc, hw.read hbehind, Option.bind_some, if_neg hz, hf.read hbehind' hpoint',
      he.read hdigit hexp]
  cases hn : n.negative with
  | true =>
    rw [hn] at hs
    cases hs
    have hread := unsigned true
    rw [show { n with negative := true } = n by rw [← hn]] at hread
    exact hread
  | false =>
    rw [hn] at hs
    cases hs
    have hread := unsigned false
    rw [show { n with negative := false } = n by rw [← hn]] at hread
    obtain ⟨c, cs, rfl, hc⟩ := hw.head
    have hsign : Stops (· == '-') (c :: cs ++ fraction ++ exponent ++ rest) := by
      intro d hd
      obtain rfl := Option.some.inj hd
      simp [ne_of_isDigit hc (d := '-') (by decide)]
    rw [List.nil_append, readNumeral_plain hsign]
    exact hread

theorem WritesNumeral.head {cs : List Char} {n : Numeral} (h : WritesNumeral cs n) :
    ∃ c cs', cs = c :: cs' ∧ (c = '-' ∨ isDigit c = true) := by
  obtain ⟨hs, hw, -, -, -⟩ := h
  generalize n.negative = negative at hs
  cases hs with
  | none =>
    obtain ⟨c, cs', rfl, hc⟩ := hw.head
    exact ⟨c, _, rfl, .inr hc⟩
  | minus => exact ⟨'-', _, rfl, .inl rfl⟩

/-! ## Strings -/

inductive WritesPieces : List Char → List Piece → Prop
  | done : WritesPieces [] []
  | unit {a b c d : Char} {k l m n : Nat} {cs : List Char} {ps : List Piece} (ha : hexValue a = some k)
    (hb : hexValue b = some l) (hc : hexValue c = some m) (hd : hexValue d = some n) (h : WritesPieces cs ps) :
    WritesPieces ('\\' :: 'u' :: a :: b :: c :: d :: cs) (.unit (((k * 16 + l) * 16 + m) * 16 + n) :: ps)
  | escape {c e : Char} {cs : List Char} {ps : List Piece} (he : escaped c = some e) (h : WritesPieces cs ps) :
    WritesPieces ('\\' :: c :: cs) (.char e :: ps)
  | char {c : Char} {cs : List Char} {ps : List Piece} (hc : 32 ≤ c.toNat) (hquote : c ≠ '"') (hslash : c ≠ '\\')
    (h : WritesPieces cs ps) : WritesPieces (c :: cs) (.char c :: ps)

inductive WritesText : List Char → Text → Prop
  | mk {cs : List Char} {ps : List Piece} (h : WritesPieces cs ps) :
    WritesText ('"' :: cs ++ ['"']) ((spell ps).map String.ofList)

theorem readPieces_sound {s rest : List Char} {ps : List Piece} (h : readPieces s = some (ps, rest)) :
    ∃ cs, WritesPieces cs ps ∧ s = cs ++ '"' :: rest := by
  fun_induction readPieces s generalizing ps rest with
  | case1 => cases h
  | case2 rest' =>
    cases h
    exact ⟨[], .done, rfl⟩
  | case3 a b c d s ih =>
    obtain ⟨k, ha, h⟩ := Option.bind_eq_some_iff.1 h
    obtain ⟨l, hb, h⟩ := Option.bind_eq_some_iff.1 h
    obtain ⟨m, hc, h⟩ := Option.bind_eq_some_iff.1 h
    obtain ⟨n, hd, h⟩ := Option.bind_eq_some_iff.1 h
    obtain ⟨⟨ps', rest'⟩, hp, h⟩ := Option.bind_eq_some_iff.1 h
    cases h
    obtain ⟨cs, hcs, rfl⟩ := ih hp
    exact ⟨_, .unit ha hb hc hd hcs, rfl⟩
  | case4 c s _ ih =>
    obtain ⟨e, he, h⟩ := Option.bind_eq_some_iff.1 h
    obtain ⟨⟨ps', rest'⟩, hp, h⟩ := Option.bind_eq_some_iff.1 h
    cases h
    obtain ⟨cs, hcs, rfl⟩ := ih hp
    exact ⟨_, .escape he hcs, rfl⟩
  | case5 => cases h
  | case6 c s hquote _ hslash hc ih =>
    obtain ⟨⟨ps', rest'⟩, hp, h⟩ := Option.bind_eq_some_iff.1 h
    cases h
    have hne : c ≠ '\\' := by
      intro hc
      cases s with
      | nil => cases hp
      | cons d s => exact hslash d s hc rfl
    obtain ⟨cs, hcs, rfl⟩ := ih hp
    exact ⟨_, .char (Nat.le_of_not_lt hc) hquote hne hcs, rfl⟩

theorem WritesPieces.read {cs : List Char} {ps : List Piece} (h : WritesPieces cs ps) (rest : List Char) :
    readPieces (cs ++ '"' :: rest) = some (ps, rest) := by
  induction h with
  | done => rfl
  | unit ha hb hc hd _ ih =>
    simp only [List.cons_append, readPieces, ha, hb, hc, hd, ih]
    rfl
  | @escape c e cs ps he _ ih =>
    have hu : c ≠ 'u' := by
      rintro rfl
      exact Option.some_ne_none e he.symm
    rw [List.cons_append, List.cons_append, readPieces, he, ih]
    · rfl
    · intro a b c d rest hc
      exact absurd hc hu
  | @char c cs ps hc hquote hslash _ ih =>
    rw [List.cons_append, readPieces, if_neg (Nat.not_lt.2 hc), ih]
    · rfl
    · exact hquote
    · exact fun a b c d rest hc => absurd hc hslash
    · exact fun c rest hc => absurd hc hslash

theorem readText_sound {s rest : List Char} {t : Text} (h : readText s = some (t, rest)) :
    ∃ cs, WritesText cs t ∧ s = cs ++ rest := by
  unfold readText at h
  split at h
  · obtain ⟨⟨ps, rest'⟩, hp, he⟩ := Option.map_eq_some_iff.1 h
    cases he
    obtain ⟨cs, hcs, rfl⟩ := readPieces_sound hp
    exact ⟨_, .mk hcs, by simp⟩
  · cases h

theorem WritesText.head {cs : List Char} {t : Text} (h : WritesText cs t) : ∃ cs', cs = '"' :: cs' := by
  obtain ⟨h⟩ := h
  exact ⟨_, rfl⟩

theorem WritesText.read {cs : List Char} {t : Text} (h : WritesText cs t) (rest : List Char) :
    readText (cs ++ rest) = some (t, rest) := by
  obtain ⟨h⟩ := h
  have hread := h.read rest
  simp only [List.cons_append, List.append_assoc, List.nil_append, readText, hread, Option.map_some]

theorem writesText_plain {k : String} (h : ∀ c ∈ k.toList, 32 ≤ c.toNat ∧ c ≠ '"' ∧ c ≠ '\\') :
    WritesText ('"' :: k.toList ++ ['"']) (some k) := by
  have pieces (cs : List Char) (h : ∀ c ∈ cs, 32 ≤ c.toNat ∧ c ≠ '"' ∧ c ≠ '\\') :
      WritesPieces cs (cs.map .char) ∧ spell (cs.map .char) = some cs := by
    induction cs with
    | nil => exact ⟨.done, rfl⟩
    | cons c cs ih =>
      obtain ⟨hcs, hspell⟩ := ih (fun d hd => h d (List.mem_cons_of_mem _ hd))
      obtain ⟨hc, hquote, hslash⟩ := h c List.mem_cons_self
      refine ⟨.char hc hquote hslash hcs, ?_⟩
      rw [List.map_cons, spell, hspell]
      rfl
  obtain ⟨hcs, hspell⟩ := pieces k.toList h
  have htext := WritesText.mk hcs
  rwa [hspell, Option.map_some, String.ofList_toList] at htext

/-! ## Values -/

/-- What a piece of JSON text may be: a value, a member of an object, or what stands between the brackets of an array or
of an object that is not empty. -/
inductive Part
  | value (v : Value)
  | items (vs : List Value)
  | member (m : Text × Value)
  | members (ms : List (Text × Value))

/-- **The grammar**: the characters write the part. -/
inductive Writes : List Char → Part → Prop
  | null : Writes ['n', 'u', 'l', 'l'] (.value .null)
  | yes : Writes ['t', 'r', 'u', 'e'] (.value (.bool true))
  | no : Writes ['f', 'a', 'l', 's', 'e'] (.value (.bool false))
  | number {cs : List Char} {n : Numeral} (h : WritesNumeral cs n) : Writes cs (.value (.number n))
  | string {cs : List Char} {t : Text} (h : WritesText cs t) : Writes cs (.value (.string t))
  | noItems {bs : List Char} (hb : Blanks bs) : Writes ('[' :: bs ++ [']']) (.value (.array []))
  | array {cs : List Char} {vs : List Value} (h : Writes cs (.items vs)) :
    Writes ('[' :: cs ++ [']']) (.value (.array vs))
  | noMembers {bs : List Char} (hb : Blanks bs) : Writes ('{' :: bs ++ ['}']) (.value (.object []))
  | object {cs : List Char} {ms : List (Text × Value)} (h : Writes cs (.members ms)) :
    Writes ('{' :: cs ++ ['}']) (.value (.object ms))
  | item {b₁ cs b₂ : List Char} {v : Value} (h₁ : Blanks b₁) (h : Writes cs (.value v)) (h₂ : Blanks b₂) :
    Writes (b₁ ++ cs ++ b₂) (.items [v])
  | moreItems {b₁ cs b₂ more : List Char} {v : Value} {vs : List Value} (h₁ : Blanks b₁) (h : Writes cs (.value v))
    (h₂ : Blanks b₂) (hm : Writes more (.items vs)) : Writes (b₁ ++ cs ++ b₂ ++ ',' :: more) (.items (v :: vs))
  | member {b₁ key b₂ b₃ cs b₄ : List Char} {t : Text} {v : Value} (h₁ : Blanks b₁) (ht : WritesText key t)
    (h₂ : Blanks b₂) (h₃ : Blanks b₃) (h : Writes cs (.value v)) (h₄ : Blanks b₄) :
    Writes (b₁ ++ key ++ b₂ ++ ':' :: (b₃ ++ cs ++ b₄)) (.member (t, v))
  | members {cs : List Char} {m : Text × Value} (h : Writes cs (.member m)) : Writes cs (.members [m])
  | moreMembers {cs more : List Char} {m : Text × Value} {ms : List (Text × Value)} (h : Writes cs (.member m))
    (hm : Writes more (.members ms)) : Writes (cs ++ ',' :: more) (.members (m :: ms))

theorem Writes.blanks_items {bs cs : List Char} {vs : List Value} (hb : Blanks bs) (h : Writes cs (.items vs)) :
    Writes (bs ++ cs) (.items vs) := by
  cases h with
  | item h₁ h h₂ =>
    rw [← List.append_assoc, ← List.append_assoc]
    exact .item (hb.append h₁) h h₂
  | moreItems h₁ h h₂ hm =>
    rw [← List.append_assoc, ← List.append_assoc, ← List.append_assoc]
    exact .moreItems (hb.append h₁) h h₂ hm

theorem Writes.blanks_member {bs cs : List Char} {m : Text × Value} (hb : Blanks bs) (h : Writes cs (.member m)) :
    Writes (bs ++ cs) (.member m) := by
  cases h with
  | member h₁ ht h₂ h₃ h h₄ =>
    rw [← List.append_assoc, ← List.append_assoc, ← List.append_assoc]
    exact .member (hb.append h₁) ht h₂ h₃ h h₄

theorem Writes.blanks_members {bs cs : List Char} {ms : List (Text × Value)} (hb : Blanks bs)
    (h : Writes cs (.members ms)) : Writes (bs ++ cs) (.members ms) := by
  cases h with
  | members h => exact .members (h.blanks_member hb)
  | moreMembers h hm =>
    rw [← List.append_assoc]
    exact .moreMembers (h.blanks_member hb) hm

/-! ## The reader keeps to the grammar -/

/-- What a reader finds with so much fuel is written in front of what it leaves. -/
structure Sound (fuel : Nat) : Prop where
  value : ∀ {s v rest}, readValue fuel s = some (v, rest) →
    ∃ bs cs, Blanks bs ∧ Writes cs (.value v) ∧ s = bs ++ cs ++ rest
  items : ∀ {s vs rest}, readItems fuel s = some (vs, rest) → ∃ cs, Writes cs (.items vs) ∧ s = cs ++ ']' :: rest
  members : ∀ {s ms rest}, readMembers fuel s = some (ms, rest) → ∃ cs, Writes cs (.members ms) ∧ s = cs ++ '}' :: rest

theorem Sound.readValue {fuel : Nat} (hf : Sound fuel) {s rest : List Char} {v : Value}
    (h : readValue (fuel + 1) s = some (v, rest)) :
    ∃ bs cs, Blanks bs ∧ Writes cs (.value v) ∧ s = bs ++ cs ++ rest := by
  obtain ⟨bs, hb, hs⟩ := blanks_before s
  suffices ∃ cs, Writes cs (.value v) ∧ skipBlanks s = cs ++ rest by
    obtain ⟨cs, hcs, he⟩ := this
    exact ⟨bs, cs, hb, hcs, by rw [List.append_assoc, ← he, ← hs]⟩
  clear hs
  unfold Json.readValue at h
  split at h
  · next heq => cases h; exact ⟨_, .null, heq⟩
  · next heq => cases h; exact ⟨_, .yes, heq⟩
  · next heq => cases h; exact ⟨_, .no, heq⟩
  · next s' heq =>
    obtain ⟨⟨t, rest'⟩, ht, he⟩ := Option.map_eq_some_iff.1 h
    cases he
    obtain ⟨cs, hcs, he⟩ := readText_sound ht
    exact ⟨cs, .string hcs, heq.trans he⟩
  · next s' heq =>
    obtain ⟨bs', hb', hs'⟩ := blanks_before s'
    rw [heq, hs']
    split at h
    · next rest' hend =>
      cases h
      exact ⟨_, .noItems hb', by rw [hend]; simp⟩
    · obtain ⟨⟨vs, rest'⟩, hi, he⟩ := Option.map_eq_some_iff.1 h
      cases he
      obtain ⟨cs, hcs, he⟩ := hf.items hi
      exact ⟨_, .array (hcs.blanks_items hb'), by rw [he]; simp⟩
  · next s' heq =>
    obtain ⟨bs', hb', hs'⟩ := blanks_before s'
    rw [heq, hs']
    split at h
    · next rest' hend =>
      cases h
      exact ⟨_, .noMembers hb', by rw [hend]; simp⟩
    · obtain ⟨⟨ms, rest'⟩, hi, he⟩ := Option.map_eq_some_iff.1 h
      cases he
      obtain ⟨cs, hcs, he⟩ := hf.members hi
      exact ⟨_, .object (hcs.blanks_members hb'), by rw [he]; simp⟩
  · obtain ⟨⟨n, rest'⟩, hn, he⟩ := Option.map_eq_some_iff.1 h
    cases he
    obtain ⟨cs, hcs, he⟩ := readNumeral_sound hn
    exact ⟨cs, .number hcs, he⟩

theorem Sound.readItems {fuel : Nat} (hf : Sound fuel) {s rest : List Char} {vs : List Value}
    (h : readItems (fuel + 1) s = some (vs, rest)) : ∃ cs, Writes cs (.items vs) ∧ s = cs ++ ']' :: rest := by
  unfold Json.readItems at h
  obtain ⟨⟨v, s'⟩, hv, hbehind⟩ := Option.bind_eq_some_iff.1 h
  obtain ⟨b₁, cs, h₁, hcs, rfl⟩ := hf.value hv
  obtain ⟨b₂, h₂, hs'⟩ := blanks_before s'
  dsimp only at hbehind
  split at hbehind
  · next heq =>
    cases hbehind
    exact ⟨_, .item h₁ hcs h₂, by rw [hs', heq]; simp⟩
  · next rest' heq =>
    obtain ⟨⟨vs', rest''⟩, hi, he⟩ := Option.bind_eq_some_iff.1 hbehind
    cases he
    obtain ⟨more, hmore, rfl⟩ := hf.items hi
    exact ⟨_, .moreItems h₁ hcs h₂ hmore, by rw [hs', heq]; simp⟩
  · cases hbehind

theorem expect_sound {c : Char} {s rest : List Char} (h : expect c s = some rest) :
    ∃ bs, Blanks bs ∧ s = bs ++ c :: rest := by
  obtain ⟨bs, hb, hs⟩ := blanks_before s
  unfold expect at h
  split at h
  · next d rest' heq =>
    split at h
    · next hc =>
      cases h
      exact ⟨bs, hb, by rw [← hc, ← heq]; exact hs⟩
    · cases h
  · cases h

theorem Sound.readMembers {fuel : Nat} (hf : Sound fuel) {s rest : List Char} {ms : List (Text × Value)}
    (h : readMembers (fuel + 1) s = some (ms, rest)) : ∃ cs, Writes cs (.members ms) ∧ s = cs ++ '}' :: rest := by
  unfold Json.readMembers at h
  obtain ⟨⟨t, s₁⟩, ht, h⟩ := Option.bind_eq_some_iff.1 h
  obtain ⟨s₂, hcolon, h⟩ := Option.bind_eq_some_iff.1 h
  obtain ⟨⟨v, s₃⟩, hv, hbehind⟩ := Option.bind_eq_some_iff.1 h
  obtain ⟨b₁, h₁, hs⟩ := blanks_before s
  obtain ⟨key, hkey, he⟩ := readText_sound ht
  obtain ⟨b₂, h₂, rfl⟩ := expect_sound hcolon
  obtain ⟨b₃, cs, h₃, hcs, rfl⟩ := hf.value hv
  obtain ⟨b₄, h₄, hs₃⟩ := blanks_before s₃
  have hm : Writes _ (.member (t, v)) := .member h₁ hkey h₂ h₃ hcs h₄
  dsimp only at hbehind
  split at hbehind
  · next heq =>
    cases hbehind
    exact ⟨_, .members hm, by rw [hs, he, hs₃, heq]; simp⟩
  · next rest' heq =>
    obtain ⟨⟨ms', rest''⟩, hi, hms⟩ := Option.bind_eq_some_iff.1 hbehind
    cases hms
    obtain ⟨more, hmore, rfl⟩ := hf.members hi
    exact ⟨_, .moreMembers hm hmore, by rw [hs, he, hs₃, heq]; simp⟩
  · cases hbehind

theorem reader_sound (fuel : Nat) : Sound fuel := by
  induction fuel with
  | zero => exact ⟨nofun, nofun, nofun⟩
  | succ fuel ih => exact ⟨ih.readValue, ih.readItems, ih.readMembers⟩

/-! ## What is written is read -/

theorem Writes.head {cs : List Char} {v : Value} (h : Writes cs (.value v)) :
    ∃ c cs', cs = c :: cs' ∧ isBlank c = false ∧ c ≠ ']' ∧ c ≠ '}' := by
  have first {c : Char} (cs' : List Char) (hc : isBlank c = false ∧ c ≠ ']' ∧ c ≠ '}') :
      ∃ d ds, c :: cs' = d :: ds ∧ isBlank d = false ∧ d ≠ ']' ∧ d ≠ '}' := ⟨c, cs', rfl, hc⟩
  cases h with
  | null | yes | no | noItems | array | noMembers | object => exact first _ (by decide)
  | string h =>
    obtain ⟨h⟩ := h
    exact first _ (by decide)
  | number h =>
    obtain ⟨c, cs', rfl, rfl | hc⟩ := h.head
    · exact first _ (by decide)
    · have hne {d : Char} (hd : isDigit d = false) : c ≠ d := ne_of_isDigit hc hd
      refine first _ ⟨?_, hne (by decide), hne (by decide)⟩
      simp [isBlank, hne (d := ' ') (by decide), hne (d := '\n') (by decide), hne (d := '\t') (by decide),
        hne (d := '\r') (by decide)]

theorem readValue_skipBlanks (fuel : Nat) (s : List Char) : readValue fuel (skipBlanks s) = readValue fuel s := by
  cases fuel with
  | zero => rfl
  | succ fuel =>
    unfold readValue
    rw [skipBlanks_skipBlanks]

theorem readItems_skipBlanks (fuel : Nat) (s : List Char) : readItems fuel (skipBlanks s) = readItems fuel s := by
  cases fuel with
  | zero => rfl
  | succ fuel =>
    unfold readItems
    rw [readValue_skipBlanks]

theorem readMembers_skipBlanks (fuel : Nat) (s : List Char) : readMembers fuel (skipBlanks s) = readMembers fuel s := by
  cases fuel with
  | zero => rfl
  | succ fuel =>
    unfold readMembers
    rw [skipBlanks_skipBlanks]

def readMember (fuel : Nat) (s : List Char) : Option ((Text × Value) × List Char) :=
  (readText (skipBlanks s)).bind fun k => (expect ':' k.2).bind fun s =>
    (readValue fuel s).map fun r => ((k.1, r.1), r.2)

theorem readMembers_eq {fuel : Nat} {s s' : List Char} {m : Text × Value} (h : readMember fuel s = some (m, s')) :
    (∀ rest, skipBlanks s' = '}' :: rest → readMembers (fuel + 1) s = some ([m], rest)) ∧
      ∀ rest, skipBlanks s' = ',' :: rest →
        readMembers (fuel + 1) s = (readMembers fuel rest).map fun r => (m :: r.1, r.2) := by
  obtain ⟨⟨t, s₁⟩, ht, h⟩ := Option.bind_eq_some_iff.1 h
  obtain ⟨s₂, hcolon, h⟩ := Option.bind_eq_some_iff.1 h
  obtain ⟨⟨v, s₃⟩, hv, h⟩ := Option.map_eq_some_iff.1 h
  cases h
  constructor <;> intro rest hrest <;> rw [readMembers] <;>
    simp only [ht, hcolon, hv, hrest, Option.bind_eq_bind, Option.bind_some]
  cases readMembers fuel rest <;> rfl

theorem readItems_eq {fuel : Nat} {s s' : List Char} {v : Value} (h : readValue fuel s = some (v, s')) :
    (∀ rest, skipBlanks s' = ']' :: rest → readItems (fuel + 1) s = some ([v], rest)) ∧
      ∀ rest, skipBlanks s' = ',' :: rest →
        readItems (fuel + 1) s = (readItems fuel rest).map fun r => (v :: r.1, r.2) := by
  constructor <;> intro rest hrest <;> rw [readItems] <;>
    simp only [h, hrest, Option.bind_eq_bind, Option.bind_some]
  cases readItems fuel rest <;> rfl

/-- The reader finds the part again, whatever stands behind it, if only a number stops there; and twice the length of
the part is fuel enough. -/
def Part.ReadBack (cs : List Char) : Part → Prop
  | .value v => ∀ bs rest fuel, Blanks bs → Stops goesOn rest → 2 * cs.length ≤ fuel →
      readValue fuel (bs ++ cs ++ rest) = some (v, rest)
  | .items vs => ∀ rest fuel, 2 * cs.length + 1 ≤ fuel → readItems fuel (cs ++ ']' :: rest) = some (vs, rest)
  | .member m => ∀ rest fuel, Stops goesOn rest → 2 * cs.length ≤ fuel →
      ∃ bs, Blanks bs ∧ readMember fuel (cs ++ rest) = some (m, bs ++ rest)
  | .members ms => ∀ rest fuel, 2 * cs.length + 1 ≤ fuel → readMembers fuel (cs ++ '}' :: rest) = some (ms, rest)

theorem stops_blanks {bs rest : List Char} (hb : Blanks bs) (hr : Stops goesOn rest) : Stops goesOn (bs ++ rest) := by
  refine stops_append (fun c hc => ?_) hr
  have hblank := hb c hc
  simp only [isBlank, Bool.or_eq_true, beq_iff_eq] at hblank
  rcases hblank with ((rfl | rfl) | rfl) | rfl <;> decide

theorem stops_cons {p : Char → Bool} {c : Char} (hc : p c = false) (rest : List Char) : Stops p (c :: rest) := by
  intro d hd
  obtain rfl := Option.some.inj hd
  exact hc

theorem skipBlanks_value {bs cs : List Char} (hb : Blanks bs) {v : Value} (h : Writes cs (.value v))
    (rest : List Char) : skipBlanks (bs ++ cs ++ rest) = cs ++ rest := by
  obtain ⟨c, cs', rfl, hc, -, -⟩ := h.head
  rw [List.append_assoc, skipBlanks_append hb]
  exact skipBlanks_of_stops (stops_cons hc _)

theorem readBack_value {cs : List Char} {v : Value} (h : Writes cs (.value v))
    (hread : ∀ fuel rest, Stops goesOn rest → 2 * cs.length ≤ fuel + 1 →
      readValue (fuel + 1) (cs ++ rest) = some (v, rest)) : Part.ReadBack cs (.value v) := by
  intro bs rest fuel hb hr hf
  have hpos : 0 < cs.length := by
    obtain ⟨c, cs', rfl, -⟩ := h.head
    exact Nat.succ_pos _
  obtain ⟨fuel, rfl⟩ : ∃ k, fuel = k + 1 := ⟨fuel - 1, by omega⟩
  rw [← readValue_skipBlanks, skipBlanks_value hb h]
  exact hread fuel rest hr hf

theorem readValue_number {c : Char} (hc : c = '-' ∨ isDigit c = true) (fuel : Nat) (s : List Char) :
    readValue (fuel + 1) (c :: s) = (readNumeral (c :: s)).map fun r => (.number r.1, r.2) := by
  have hne {d : Char} (hd : d ≠ '-' ∧ isDigit d = false) : c ≠ d := by
    rintro rfl
    rcases hc with hc | hc
    · exact hd.1 hc
    · exact Bool.false_ne_true (hd.2.symm.trans hc)
  have hblank : isBlank c = false := by
    simp [isBlank, hne (d := ' ') (by decide), hne (d := '\n') (by decide), hne (d := '\t') (by decide),
      hne (d := '\r') (by decide)]
  rw [readValue, skipBlanks_of_stops (stops_cons hblank s)]
  split
  · next heq => exact absurd (List.cons.inj heq).1 (hne (by decide))
  · next heq => exact absurd (List.cons.inj heq).1 (hne (by decide))
  · next heq => exact absurd (List.cons.inj heq).1 (hne (by decide))
  · next heq => exact absurd (List.cons.inj heq).1 (hne (by decide))
  · next heq => exact absurd (List.cons.inj heq).1 (hne (by decide))
  · next heq => exact absurd (List.cons.inj heq).1 (hne (by decide))
  · rfl

theorem readValue_array {s : List Char} (fuel : Nat) :
    (∀ rest, skipBlanks s = ']' :: rest → readValue (fuel + 1) ('[' :: s) = some (.array [], rest)) ∧
      (Stops (· == ']') (skipBlanks s) →
        readValue (fuel + 1) ('[' :: s) = (readItems fuel s).map fun r => (.array r.1, r.2)) := by
  rw [readValue, skipBlanks_of_stops (stops_cons (by decide) s)]
  constructor
  · intro rest hs
    simp only [hs]
  · intro hs
    rw [← readItems_skipBlanks fuel s]
    simp only
    split
    · next rest heq =>
      rw [heq] at hs
      exact absurd (hs ']' rfl) (by decide)
    · rfl

theorem readValue_object {s : List Char} (fuel : Nat) :
    (∀ rest, skipBlanks s = '}' :: rest → readValue (fuel + 1) ('{' :: s) = some (.object [], rest)) ∧
      (Stops (· == '}') (skipBlanks s) →
        readValue (fuel + 1) ('{' :: s) = (readMembers fuel s).map fun r => (.object r.1, r.2)) := by
  rw [readValue, skipBlanks_of_stops (stops_cons (by decide) s)]
  constructor
  · intro rest hs
    simp only [hs]
  · intro hs
    rw [← readMembers_skipBlanks fuel s]
    simp only
    split
    · next rest heq =>
      rw [heq] at hs
      exact absurd (hs '}' rfl) (by decide)
    · rfl

theorem Writes.items_open {cs : List Char} {vs : List Value} (h : Writes cs (.items vs)) (rest : List Char) :
    Stops (· == ']') (skipBlanks (cs ++ rest)) := by
  have first {bs cs : List Char} {v : Value} (hb : Blanks bs) (h : Writes cs (.value v)) (rest : List Char) :
      Stops (· == ']') (skipBlanks (bs ++ cs ++ rest)) := by
    rw [skipBlanks_value hb h]
    obtain ⟨c, cs', rfl, -, hc, -⟩ := h.head
    exact stops_cons (by simpa using hc) _
  cases h with
  | item h₁ h h₂ =>
    rw [List.append_assoc]
    exact first h₁ h _
  | moreItems h₁ h h₂ hm =>
    rw [List.append_assoc, List.append_assoc]
    exact first h₁ h _

theorem Writes.members_open {cs : List Char} {ms : List (Text × Value)} (h : Writes cs (.members ms))
    (rest : List Char) : Stops (· == '}') (skipBlanks (cs ++ rest)) := by
  have first {cs : List Char} {m : Text × Value} (h : Writes cs (.member m)) (rest : List Char) :
      Stops (· == '}') (skipBlanks (cs ++ rest)) := by
    cases h with
    | member h₁ ht h₂ h₃ h h₄ =>
      obtain ⟨ht⟩ := ht
      simp only [List.append_assoc, List.cons_append, skipBlanks_append h₁]
      rw [skipBlanks_of_stops (stops_cons (by decide) _)]
      exact stops_cons (by decide) _
  cases h with
  | members h => exact first h rest
  | moreMembers h hm =>
    rw [List.append_assoc]
    exact first h _

theorem skipBlanks_sign {bs : List Char} (hb : Blanks bs) {c : Char} (hc : isBlank c = false) (rest : List Char) :
    skipBlanks (bs ++ c :: rest) = c :: rest := by
  rw [skipBlanks_append hb]
  exact skipBlanks_of_stops (stops_cons hc rest)

/-- **What is written is read.** -/
theorem Writes.readBack {cs : List Char} {part : Part} (h : Writes cs part) : part.ReadBack cs := by
  -- on how it is written; every bracket and every comma is fuel for two more calls of the readers
  induction h with
  | null => exact readBack_value .null (fun _ _ _ _ => rfl)
  | yes => exact readBack_value .yes (fun _ _ _ _ => rfl)
  | no => exact readBack_value .no (fun _ _ _ _ => rfl)
  | number h =>
    refine readBack_value (.number h) (fun fuel rest hr _ => ?_)
    have hread := h.read hr
    obtain ⟨c, cs', rfl, hc⟩ := h.head
    rw [List.cons_append] at hread ⊢
    rw [readValue_number hc, hread]
    rfl
  | string h =>
    refine readBack_value (.string h) (fun fuel rest _ _ => ?_)
    have hread := h.read rest
    obtain ⟨h⟩ := h
    rw [List.cons_append, List.cons_append] at hread ⊢
    rw [readValue, skipBlanks_of_stops (stops_cons (by decide) _)]
    simp only [hread, Option.map_some]
  | noItems hb =>
    refine readBack_value (.noItems hb) (fun fuel rest _ _ => ?_)
    rw [List.cons_append, List.cons_append, List.append_assoc]
    exact (readValue_array fuel).1 rest (skipBlanks_sign hb (by decide) rest)
  | array h ih =>
    refine readBack_value (.array h) (fun fuel rest _ hf => ?_)
    rw [List.length_append, List.length_cons, List.length_singleton] at hf
    rw [List.cons_append, List.cons_append, List.append_assoc, (readValue_array fuel).2 (h.items_open _)]
    simp only [List.singleton_append, ih rest fuel (by omega), Option.map_some]
  | noMembers hb =>
    refine readBack_value (.noMembers hb) (fun fuel rest _ _ => ?_)
    rw [List.cons_append, List.cons_append, List.append_assoc]
    exact (readValue_object fuel).1 rest (skipBlanks_sign hb (by decide) rest)
  | object h ih =>
    refine readBack_value (.object h) (fun fuel rest _ hf => ?_)
    rw [List.length_append, List.length_cons, List.length_singleton] at hf
    rw [List.cons_append, List.cons_append, List.append_assoc, (readValue_object fuel).2 (h.members_open _)]
    simp only [List.singleton_append, ih rest fuel (by omega), Option.map_some]
  | @item b₁ cs b₂ v h₁ h h₂ ih =>
    intro rest fuel hf
    simp only [List.length_append] at hf
    obtain ⟨fuel, rfl⟩ : ∃ k, fuel = k + 1 := ⟨fuel - 1, by omega⟩
    have hread := ih b₁ (b₂ ++ ']' :: rest) fuel h₁ (stops_blanks h₂ (stops_cons (by decide) rest)) (by omega)
    rw [List.append_assoc (b₁ ++ cs)]
    exact (readItems_eq hread).1 rest (skipBlanks_sign h₂ (by decide) rest)
  | @moreItems b₁ cs b₂ more v vs h₁ h h₂ hm ih ihm =>
    intro rest fuel hf
    simp only [List.length_append, List.length_cons] at hf
    obtain ⟨fuel, rfl⟩ : ∃ k, fuel = k + 1 := ⟨fuel - 1, by omega⟩
    have hread := ih b₁ (b₂ ++ ',' :: (more ++ ']' :: rest)) fuel h₁ (stops_blanks h₂ (stops_cons (by decide) _))
      (by omega)
    rw [List.append_assoc, List.append_assoc (b₁ ++ cs), List.cons_append,
      (readItems_eq hread).2 _ (skipBlanks_sign h₂ (by decide) _), ihm rest fuel (by omega)]
    rfl
  | @member b₁ key b₂ b₃ cs b₄ t v h₁ ht h₂ h₃ h h₄ ih =>
    intro rest fuel hr hf
    simp only [List.length_append, List.length_cons] at hf
    obtain ⟨key', rfl⟩ := ht.head
    have hkey : skipBlanks (b₁ ++ '"' :: key' ++ b₂ ++ ':' :: (b₃ ++ cs ++ b₄) ++ rest) =
        '"' :: key' ++ (b₂ ++ ':' :: (b₃ ++ cs ++ (b₄ ++ rest))) := by
      simp only [List.append_assoc, List.cons_append]
      exact skipBlanks_sign h₁ (by decide) _
    have hcolon : expect ':' (b₂ ++ ':' :: (b₃ ++ cs ++ (b₄ ++ rest))) = some (b₃ ++ cs ++ (b₄ ++ rest)) := by
      rw [expect, skipBlanks_sign h₂ (by decide)]
      rfl
    have hvalue := ih b₃ (b₄ ++ rest) fuel h₃ (stops_blanks h₄ hr) (by omega)
    refine ⟨b₄, h₄, ?_⟩
    rw [readMember, hkey, ht.read, Option.bind_some, hcolon, Option.bind_some, hvalue]
    rfl
  | @members cs m h ih =>
    intro rest fuel hf
    obtain ⟨fuel, rfl⟩ : ∃ k, fuel = k + 1 := ⟨fuel - 1, by omega⟩
    obtain ⟨bs, hb, hread⟩ := ih ('}' :: rest) fuel (stops_cons (by decide) rest) (by omega)
    exact (readMembers_eq hread).1 rest (skipBlanks_sign hb (by decide) rest)
  | @moreMembers cs more m ms h hm ih ihm =>
    intro rest fuel hf
    rw [List.length_append, List.length_cons] at hf
    obtain ⟨fuel, rfl⟩ : ∃ k, fuel = k + 1 := ⟨fuel - 1, by omega⟩
    obtain ⟨bs, hb, hread⟩ := ih (',' :: (more ++ '}' :: rest)) fuel (stops_cons (by decide) _) (by omega)
    rw [List.append_assoc, List.cons_append, (readMembers_eq hread).2 _ (skipBlanks_sign hb (by decide) _),
      ihm rest fuel (by omega)]
    rfl

/-! ## Texts -/

/-- The text spells the value: the value is written, with blanks before it and behind it. -/
def Spells (text : String) (v : Value) : Prop :=
  ∃ b₁ cs b₂, Blanks b₁ ∧ Writes cs (.value v) ∧ Blanks b₂ ∧ text.toList = b₁ ++ cs ++ b₂

theorem blanks_of_skipBlanks {s : List Char} (h : (skipBlanks s).isEmpty = true) : Blanks s := by
  obtain ⟨bs, hb, hs⟩ := blanks_before s
  rw [List.isEmpty_iff.1 h, List.append_nil] at hs
  rw [hs]
  exact hb

/-- **The reader knows the texts of the grammar**, the value that each of them spells, and no other text. -/
theorem read_eq_some_iff (text : String) (v : Value) : read text = some v ↔ Spells text v := by
  constructor
  · intro h
    obtain ⟨⟨v', rest⟩, hread, h⟩ := Option.bind_eq_some_iff.1 h
    obtain ⟨b₁, cs, h₁, hcs, he⟩ := (reader_sound _).value hread
    dsimp only at h
    split at h
    · next hrest =>
      cases h
      exact ⟨b₁, cs, rest, h₁, hcs, blanks_of_skipBlanks hrest, he⟩
    · cases h
  · rintro ⟨b₁, cs, b₂, h₁, hcs, h₂, he⟩
    have hfuel : 2 * cs.length ≤ 2 * (b₁ ++ cs ++ b₂).length + 1 := by
      simp only [List.length_append]
      omega
    have hstop : Stops goesOn b₂ := by
      rw [← List.append_nil b₂]
      exact stops_blanks h₂ nofun
    have hread := hcs.readBack b₁ b₂ _ h₁ hstop hfuel
    have hend : skipBlanks b₂ = [] := by
      rw [← List.append_nil b₂, skipBlanks_append h₂]
      rfl
    unfold read
    simp only [he, hread, hend, Option.bind_eq_bind, Option.bind_some]
    rfl

/-! ## Texts of objects -/

/-- What stands between the braces of an object whose members are written so. -/
inductive Inside : List (List Char) → List Char → Prop
  | none {bs : List Char} (hb : Blanks bs) : Inside [] bs
  | some {raws : List (List Char)} (hne : raws ≠ []) : Inside raws ([','].intercalate raws)

/-- The text of an object, put together from the texts of its members. -/
def IsObject (text : String) (raws : List (List Char)) : Prop :=
  ∃ b₁ cs b₂, Blanks b₁ ∧ Inside raws cs ∧ Blanks b₂ ∧ text.toList = b₁ ++ ('{' :: cs ++ ['}']) ++ b₂

abbrev WritesEach (raws : List (List Char)) (ms : List (Text × Value)) : Prop :=
  List.Forall₂ (fun raw m => Writes raw (.member m)) raws ms

theorem writes_members_iff {cs : List Char} {ms : List (Text × Value)} :
    Writes cs (.members ms) ↔ ∃ raws, raws ≠ [] ∧ WritesEach raws ms ∧ cs = [','].intercalate raws := by
  constructor
  · intro h
    induction ms generalizing cs with
    | nil => cases h
    | cons m ms ih =>
      cases h with
      | members h => exact ⟨[cs], List.cons_ne_nil _ _, .cons h .nil, by simp⟩
      | @moreMembers cs more _ _ h hm =>
        obtain ⟨raws, hne, heach, rfl⟩ := ih hm
        refine ⟨cs :: raws, List.cons_ne_nil _ _, .cons h heach, ?_⟩
        rw [List.intercalate_cons_of_ne_nil hne]
        simp
  · rintro ⟨raws, hne, heach, rfl⟩
    induction heach with
    | nil => exact absurd rfl hne
    | @cons raw m raws ms h heach ih =>
      cases raws with
      | nil =>
        cases heach
        simpa using Writes.members h
      | cons raw' raws =>
        rw [List.intercalate_cons_of_ne_nil (List.cons_ne_nil _ _)]
        simpa using Writes.moreMembers h (ih (List.cons_ne_nil _ _))

/-- **The texts of objects are put together from the texts of their members.** -/
theorem spells_object_iff {text : String} {ms : List (Text × Value)} :
    Spells text (.object ms) ↔ ∃ raws, IsObject text raws ∧ WritesEach raws ms := by
  constructor
  · rintro ⟨b₁, cs, b₂, h₁, hcs, h₂, he⟩
    cases hcs with
    | noMembers hb => exact ⟨[], ⟨b₁, _, b₂, h₁, .none hb, h₂, he⟩, .nil⟩
    | object h =>
      obtain ⟨raws, hne, heach, rfl⟩ := writes_members_iff.1 h
      exact ⟨raws, ⟨b₁, _, b₂, h₁, .some hne, h₂, he⟩, heach⟩
  · rintro ⟨raws, ⟨b₁, cs, b₂, h₁, hin, h₂, he⟩, heach⟩
    cases hin with
    | none hb =>
      cases heach
      exact ⟨b₁, _, b₂, h₁, .noMembers hb, h₂, he⟩
    | some hne => exact ⟨b₁, _, b₂, h₁, .object (writes_members_iff.2 ⟨raws, hne, heach, rfl⟩), h₂, he⟩

end Json
end Playhead
