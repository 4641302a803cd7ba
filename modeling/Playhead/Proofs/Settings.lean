import Playhead.Config.Reading
import Playhead.Proofs.JsonTexts
/-!
# Settings — what a text of settings comes to

A field of the settings is read by itself: from the member with its key, or from its place in an array, or it keeps its
default (`Config.ofValue?_eq_some_iff`).  So neither the order of the members nor members that are no settings matter,
and a fault in one field is a fault of the text, whatever the others hold.  Only what was read is checked
(`Config.settings_read`).
-/
namespace Playhead

open Json (Text Value Fields)

theorem Json.Fields.read_map {α β : Type} (f : Fields) (i : Nat) (key : String) (reader : Value → Option α) (g : α → β)
    (absent : α) : f.read i key (fun v => (reader v).map g) (some (g absent)) =
      (f.read i key reader (some absent)).map g := by
  unfold Fields.read
  split <;> rfl

namespace Config

/-! ## The fields -/

/-- What a field of the settings holds. -/
inductive Content
  | word (n : Nat)
  | real (x : Float)
  | mode (m : SyncMode)

/-- A field of the settings: its key, what it holds, and how its value is read. -/
structure Setting where
  key : String
  content : Config → Content
  read : Value → Option Content

/-- What a value says that a field is to hold.  A number of 64 bits is written in plain digits, with no sign, point or
exponent; a mode is written by its name, as a string or as the key of a null. -/
inductive Says : Value → Content → Prop
  | word {ds : List Nat} (h : Json.ofDigits ds < 2 ^ 64) : Says (.number { whole := ds }) (.word (Json.ofDigits ds))
  | real {d : Json.Numeral} {x : Float} (h : d.toFloat? = some x) : Says (.number d) (.real x)
  | mode (m : SyncMode) : Says (.string (some m.name)) (.mode m)
  | modeKey (m : SyncMode) : Says (.object [(some m.name, .null)]) (.mode m)

theorem toNat?_eq_some_iff {d : Json.Numeral} {n : Nat} :
    d.toNat? = some n ↔ d = { whole := d.whole } ∧ Json.ofDigits d.whole = n := by
  obtain ⟨negative, whole, fraction, exponent⟩ := d
  unfold Json.Numeral.toNat?
  cases negative <;> cases fraction <;> cases exponent <;> simp

theorem says_word_iff {v : Value} {n : Nat} : v.word? = some n ↔ Says v (.word n) := by
  have bound (n : Nat) : n ≤ Json.maxWord ↔ n < 2 ^ 64 := Nat.lt_succ_iff.symm
  constructor
  · intro h
    cases v with
    | number d =>
      rw [Value.word?, Value.natural?, Option.filter_eq_some_iff, toNat?_eq_some_iff, decide_eq_true_eq, bound] at h
      obtain ⟨⟨hplain, rfl⟩, hn⟩ := h
      rw [hplain]
      exact .word hn
    | null | bool | string | array | object => cases h
  · rintro ⟨hn⟩
    rw [Value.word?, Value.natural?, Option.filter_eq_some_iff, toNat?_eq_some_iff, decide_eq_true_eq, bound]
    exact ⟨⟨rfl, rfl⟩, hn⟩

theorem says_real_iff {v : Value} {x : Float} : v.real? = some x ↔ Says v (.real x) := by
  constructor
  · intro h
    cases v with
    | number d => exact .real h
    | null | bool | string | array | object => cases h
  · rintro ⟨⟩
    assumption

theorem lookup_mode {s : String} {m : SyncMode} : SyncMode.table.lookup s = some m ↔ s = m.name := by
  constructor
  · intro h
    obtain ⟨front, back, he, -⟩ := List.lookup_eq_some_iff.1 h
    have hmem : (s, m) ∈ SyncMode.table := by simp [he]
    obtain ⟨m', -, hm⟩ := List.mem_map.1 hmem
    cases hm
    rfl
  · rintro rfl
    cases m <;> rfl

theorem says_mode_iff {v : Value} {m : SyncMode} : v.choice? SyncMode.table = some m ↔ Says v (.mode m) := by
  constructor
  · unfold Value.choice?
    split <;> intro h
    · rw [lookup_mode.1 h]
      exact .mode m
    · rw [lookup_mode.1 h]
      exact .modeKey m
    · cases h
  · rintro (_ | _) <;> exact lookup_mode.2 rfl

namespace Setting

def word (key : String) (get : Config → Nat) : Setting where
  key := key
  content c := .word (get c)
  read v := v.word?.map .word

def threshold : Setting where
  key := "display_threshold"
  content c := .real c.threshold
  read v := v.real?.map .real

def sync : Setting where
  key := "sync_mode"
  content c := .mode c.sync
  read v := (v.choice? SyncMode.table).map .mode

/-- What a field comes to: what its value is read as, or its default if it has none. -/
def slot (s : Setting) (f : Fields) (i : Nat) : Option Content := f.read i s.key s.read (some (s.content {}))

end Setting

/-- The fields in the order in which an array gives them. -/
def settings : List Setting := [
  .word "audio_queue_limit" audioQueueLimit,
  .word "video_queue_limit" videoQueueLimit,
  .word "picture_queue_size" pictureCapacity,
  .threshold,
  .sync,
  .word "backpressure_wait_ms" backpressureMs,
  .word "queue_poll_ms" queuePollMs,
  .word "picture_poll_ms" picturePollMs,
  .word "eof_poll_ms" endPollMs]

theorem Setting.read_eq_some_iff {s : Setting} (hs : s ∈ settings) {v : Value} {c : Config} :
    s.read v = some (s.content c) ↔ Says v (s.content c) := by
  have word (n : Nat) : v.word?.map Content.word = some (.word n) ↔ Says v (.word n) := by simp [says_word_iff]
  have real (x : Float) : v.real?.map Content.real = some (.real x) ↔ Says v (.real x) := by simp [says_real_iff]
  have mode (m : SyncMode) : (v.choice? SyncMode.table).map Content.mode = some (.mode m) ↔ Says v (.mode m) := by
    simp [says_mode_iff]
  simp only [settings, List.mem_cons, List.not_mem_nil, or_false] at hs
  rcases hs with rfl | rfl | rfl | rfl | rfl | rfl | rfl | rfl | rfl
  · exact word _
  · exact word _
  · exact word _
  · exact real _
  · exact mode _
  · exact word _
  · exact word _
  · exact word _
  · exact word _

theorem Setting.exists_content {s : Setting} (hs : s ∈ settings) {v : Value} {x : Content} (h : s.read v = some x) :
    ∃ c, s.content c = x := by
  simp only [settings, List.mem_cons, List.not_mem_nil, or_false] at hs
  rcases hs with rfl | rfl | rfl | rfl | rfl | rfl | rfl | rfl | rfl <;>
    obtain ⟨y, -, rfl⟩ := Option.map_eq_some_iff.1 h
  · exact ⟨{ audioQueueLimit := y }, rfl⟩
  · exact ⟨{ videoQueueLimit := y }, rfl⟩
  · exact ⟨{ pictureCapacity := y }, rfl⟩
  · exact ⟨{ threshold := y }, rfl⟩
  · exact ⟨{ sync := y }, rfl⟩
  · exact ⟨{ backpressureMs := y }, rfl⟩
  · exact ⟨{ queuePollMs := y }, rfl⟩
  · exact ⟨{ picturePollMs := y }, rfl⟩
  · exact ⟨{ endPollMs := y }, rfl⟩

theorem Setting.read_eq_none_iff {s : Setting} (hs : s ∈ settings) {v : Value} :
    s.read v = none ↔ ∀ c, ¬ Says v (s.content c) := by
  rw [Option.eq_none_iff_forall_ne_some]
  constructor
  · exact fun h c hsays => h _ ((read_eq_some_iff hs).2 hsays)
  · rintro h x hx
    obtain ⟨c, rfl⟩ := exists_content hs hx
    exact h c ((read_eq_some_iff hs).1 hx)

def keys : List String := settings.map Setting.key

theorem nodup_keys : keys.Nodup := by decide

namespace Setting

variable (f : Fields) (i : Nat) (c : Config) (key : String) (get : Config → Nat)

theorem slot_word : (word key get).slot f i = (f.read i key Value.word? (some (get {}))).map .word := f.read_map ..

theorem slot_threshold : threshold.slot f i =
    (f.read i "display_threshold" Value.real? (some ({} : Config).threshold)).map .real := f.read_map ..

theorem slot_sync : sync.slot f i =
    (f.read i "sync_mode" (Value.choice? SyncMode.table) (some ({} : Config).sync)).map .mode := f.read_map ..

theorem slot_word_iff : (word key get).slot f i = some ((word key get).content c) ↔
    f.read i key Value.word? (some (get {})) = some (get c) := by
  rw [slot_word, show (word key get).content c = .word (get c) from rfl]
  simp

theorem slot_threshold_iff : threshold.slot f i = some (threshold.content c) ↔
    f.read i "display_threshold" Value.real? (some ({} : Config).threshold) = some c.threshold := by
  rw [slot_threshold, show threshold.content c = .real c.threshold from rfl]
  simp

theorem slot_sync_iff : sync.slot f i = some (sync.content c) ↔
    f.read i "sync_mode" (Value.choice? SyncMode.table) (some ({} : Config).sync) = some c.sync := by
  rw [slot_sync, show sync.content c = .mode c.sync from rfl]
  simp

end Setting

/-- Settings hold what the fields come to. -/
def Holds (c : Config) (f : Fields) : Prop := ∀ p ∈ settings.zipIdx, p.1.slot f p.2 = some (p.1.content c)

theorem holds_iff {c : Config} {f : Fields} : c.Holds f ↔
    f.read 0 "audio_queue_limit" Value.word? (some ({} : Config).audioQueueLimit) = some c.audioQueueLimit ∧
    f.read 1 "video_queue_limit" Value.word? (some ({} : Config).videoQueueLimit) = some c.videoQueueLimit ∧
    f.read 2 "picture_queue_size" Value.word? (some ({} : Config).pictureCapacity) = some c.pictureCapacity ∧
    f.read 3 "display_threshold" Value.real? (some ({} : Config).threshold) = some c.threshold ∧
    f.read 4 "sync_mode" (Value.choice? SyncMode.table) (some ({} : Config).sync) = some c.sync ∧
    f.read 5 "backpressure_wait_ms" Value.word? (some ({} : Config).backpressureMs) = some c.backpressureMs ∧
    f.read 6 "queue_poll_ms" Value.word? (some ({} : Config).queuePollMs) = some c.queuePollMs ∧
    f.read 7 "picture_poll_ms" Value.word? (some ({} : Config).picturePollMs) = some c.picturePollMs ∧
    f.read 8 "eof_poll_ms" Value.word? (some ({} : Config).endPollMs) = some c.endPollMs := by
  simp only [Holds, settings, List.zipIdx_cons, List.zipIdx_nil, List.forall_mem_cons, List.not_mem_nil, false_imp_iff,
    implies_true, and_true, Setting.slot_word_iff, Setting.slot_threshold_iff, Setting.slot_sync_iff, Nat.zero_add,
    Nat.reduceAdd]

/-- **Every field is read by itself.** -/
theorem ofValue?_eq_some_iff {v : Value} {c : Config} :
    ofValue? v = some c ↔ ∃ f, Fields.ofValue? 9 v = some f ∧ c.Holds f := by
  unfold ofValue?
  rw [Option.bind_eq_bind, Option.bind_eq_some_iff]
  refine exists_congr fun f => and_congr_right fun _ => ?_
  rw [holds_iff]
  constructor
  · intro h
    simp only [Option.bind_eq_bind, Option.bind_eq_some_iff] at h
    obtain ⟨_, h₀, _, h₁, _, h₂, _, h₃, _, h₄, _, h₅, _, h₆, _, h₇, _, h₈, he⟩ := h
    cases he
    exact ⟨h₀, h₁, h₂, h₃, h₄, h₅, h₆, h₇, h₈⟩
  · rintro ⟨h₀, h₁, h₂, h₃, h₄, h₅, h₆, h₇, h₈⟩
    simp only [h₀, h₁, h₂, h₃, h₄, h₅, h₆, h₇, h₈, Option.bind_eq_bind, Option.bind_some]
    rfl

theorem exists_holds {f : Fields} (h : ∀ p ∈ settings.zipIdx, (p.1.slot f p.2).isSome = true) :
    ∃ c : Config, c.Holds f := by
  simp only [settings, List.zipIdx_cons, List.zipIdx_nil, List.forall_mem_cons, List.not_mem_nil, false_imp_iff,
    implies_true, and_true, Setting.slot_word, Setting.slot_threshold, Setting.slot_sync, Option.isSome_map,
    Nat.zero_add, Nat.reduceAdd] at h
  simp only [Option.isSome_iff_exists] at h
  obtain ⟨⟨a₀, h₀⟩, ⟨a₁, h₁⟩, ⟨a₂, h₂⟩, ⟨a₃, h₃⟩, ⟨a₄, h₄⟩, ⟨a₅, h₅⟩, ⟨a₆, h₆⟩, ⟨a₇, h₇⟩, ⟨a₈, h₈⟩⟩ := h
  exact ⟨⟨a₀, a₁, a₂, a₃, a₄, a₅, a₆, a₇, a₈⟩, holds_iff.2 ⟨h₀, h₁, h₂, h₃, h₄, h₅, h₆, h₇, h₈⟩⟩

/-! ## Members of an object -/

def having (key : String) (ms : List (Text × Value)) : List (Text × Value) := ms.filter (fun m => m.1 == some key)

theorem mem_having {key : String} {ms : List (Text × Value)} {m : Text × Value} :
    m ∈ having key ms ↔ m ∈ ms ∧ m.1 = some key := by
  rw [having, List.mem_filter, beq_iff_eq]

/-- A key that can not be read, a setting that is given twice, or one whose value says nothing that it could hold. -/
def Faulty (ms : List (Text × Value)) : Prop :=
  (∃ m ∈ ms, m.1 = none) ∨
    ∃ s ∈ settings, 2 ≤ (having s.key ms).length ∨ ∃ m ∈ ms, m.1 = some s.key ∧ ∀ c, ¬ Says m.2 (s.content c)

/-- What members set is set, and everything else is as it is by default. -/
structure SetBy (c : Config) (ms : List (Text × Value)) : Prop where
  absent : ∀ s ∈ settings, (∀ m ∈ ms, m.1 ≠ some s.key) → s.content c = s.content {}
  present : ∀ s ∈ settings, ∀ m ∈ ms, m.1 = some s.key → Says m.2 (s.content c)

namespace Setting

variable {s : Setting} {ms : List (Text × Value)} {i : Nat}

theorem slot_of_none (h : having s.key ms = []) : s.slot (Fields.ofMembers ms) i = some (s.content {}) := by
  unfold having at h
  simp only [slot, Fields.read, Fields.ofMembers, Fields.member?, h]

theorem slot_of_one {m : Text × Value} (h : having s.key ms = [m]) :
    s.slot (Fields.ofMembers ms) i = s.read m.2 := by
  unfold having at h
  simp only [slot, Fields.read, Fields.ofMembers, Fields.member?, h]

theorem slot_of_more (h : 2 ≤ (having s.key ms).length) : s.slot (Fields.ofMembers ms) i = none := by
  rcases hl : having s.key ms with _ | ⟨m, _ | ⟨m', rest⟩⟩ <;> rw [hl] at h
  · exact absurd h (by decide)
  · exact absurd h (Nat.not_succ_le_self 1)
  · unfold having at hl
    simp only [slot, Fields.read, Fields.ofMembers, Fields.member?, hl]

theorem slot_cases (s : Setting) (ms : List (Text × Value)) (i : Nat) :
    having s.key ms = [] ∧ s.slot (Fields.ofMembers ms) i = some (s.content {}) ∨
      (∃ m, having s.key ms = [m] ∧ s.slot (Fields.ofMembers ms) i = s.read m.2) ∨
      2 ≤ (having s.key ms).length ∧ s.slot (Fields.ofMembers ms) i = none := by
  rcases h : having s.key ms with _ | ⟨m, _ | ⟨m', rest⟩⟩
  · exact .inl ⟨rfl, slot_of_none h⟩
  · exact .inr (.inl ⟨m, rfl, slot_of_one h⟩)
  · exact .inr (.inr ⟨Nat.le_add_left 2 _, slot_of_more (by rw [h]; exact Nat.le_add_left 2 _)⟩)

theorem slot_eq_some_iff (hs : s ∈ settings) {c : Config} : s.slot (Fields.ofMembers ms) i = some (s.content c) ↔
    (having s.key ms).length ≤ 1 ∧ ((∀ m ∈ ms, m.1 ≠ some s.key) → s.content c = s.content {}) ∧
      ∀ m ∈ ms, m.1 = some s.key → Says m.2 (s.content c) := by
  simp only [← read_eq_some_iff hs]
  rcases s.slot_cases ms i with ⟨hnone, hslot⟩ | ⟨m, hone, hslot⟩ | ⟨htwo, hslot⟩ <;> rw [hslot]
  · have habsent : ∀ m ∈ ms, m.1 ≠ some s.key := fun m hm hkey => by
      have := mem_having.2 ⟨hm, hkey⟩
      rw [hnone] at this
      cases this
    rw [hnone]
    exact ⟨fun h => ⟨by decide, fun _ => (Option.some.inj h).symm, fun m hm hkey => absurd hkey (habsent m hm)⟩,
      fun h => by rw [h.2.1 habsent]⟩
  · have hm : m ∈ ms ∧ m.1 = some s.key := mem_having.1 (by rw [hone]; exact List.mem_cons_self)
    have honly : ∀ m' ∈ ms, m'.1 = some s.key → m' = m := fun m' hm' hkey => by
      have := mem_having.2 ⟨hm', hkey⟩
      rw [hone] at this
      exact List.mem_singleton.1 this
    rw [hone]
    exact ⟨fun h => ⟨Nat.le_refl 1, fun habsent => absurd hm.2 (habsent m hm.1),
      fun m' hm' hkey => by rw [honly m' hm' hkey, h]⟩, fun h => h.2.2 m hm.1 hm.2⟩
  · exact iff_of_false nofun (fun h => by omega)

theorem slot_eq_none_iff (hs : s ∈ settings) : s.slot (Fields.ofMembers ms) i = none ↔
    2 ≤ (having s.key ms).length ∨ ∃ m ∈ ms, m.1 = some s.key ∧ ∀ c, ¬ Says m.2 (s.content c) := by
  simp only [← read_eq_none_iff hs]
  rcases s.slot_cases ms i with ⟨hnone, hslot⟩ | ⟨m, hone, hslot⟩ | ⟨htwo, hslot⟩ <;> rw [hslot]
  · refine iff_of_false nofun ?_
    rintro (htwo | ⟨m, hm, hkey, -⟩)
    · rw [hnone] at htwo
      exact absurd htwo (by decide)
    · have := mem_having.2 ⟨hm, hkey⟩
      rw [hnone] at this
      cases this
  · have hm : m ∈ ms ∧ m.1 = some s.key := mem_having.1 (by rw [hone]; exact List.mem_cons_self)
    constructor
    · exact fun h => .inr ⟨m, hm.1, hm.2, h⟩
    · rintro (htwo | ⟨m', hm', hkey, hread⟩)
      · rw [hone] at htwo
        exact absurd htwo (Nat.not_succ_le_self 1)
      · have := mem_having.2 ⟨hm', hkey⟩
        rw [hone] at this
        rwa [← List.mem_singleton.1 this]
  · exact iff_of_true rfl (.inl htwo)

end Setting

theorem fields_object (ms : List (Text × Value)) : Fields.ofValue? 9 (.object ms) =
    if ∀ m ∈ ms, m.1.isSome = true then some (Fields.ofMembers ms) else none := by
  simp only [Fields.ofValue?, List.all_eq_true]

theorem exists_place {s : Setting} (hs : s ∈ settings) : ∃ i, (s, i) ∈ settings.zipIdx :=
  (List.mem_iff_getElem?.1 hs).imp fun _ hi => List.mem_zipIdx_iff_getElem?.2 hi

theorem faulty_of_unreadable {ms : List (Text × Value)} (h : ¬ ∀ m ∈ ms, m.1.isSome = true) : Faulty ms := by
  push Not at h
  obtain ⟨m, hm, hkey⟩ := h
  exact .inl ⟨m, hm, by simpa using hkey⟩

theorem slot_isSome {ms : List (Text × Value)} (h : ¬ Faulty ms) {s : Setting} (hs : s ∈ settings) (i : Nat) :
    (s.slot (Fields.ofMembers ms) i).isSome = true := by
  rw [Option.isSome_iff_ne_none]
  exact fun hnone => h (.inr ⟨s, hs, (Setting.slot_eq_none_iff hs).1 hnone⟩)

/-- **What members name is set to what they say, or the text is no text of settings.** -/
theorem ofValue?_object_eq_some_iff {ms : List (Text × Value)} {c : Config} :
    ofValue? (.object ms) = some c ↔ ¬ Faulty ms ∧ c.SetBy ms := by
  rw [ofValue?_eq_some_iff, fields_object]
  by_cases hreadable : ∀ m ∈ ms, m.1.isSome = true
  · rw [if_pos hreadable]
    constructor
    · rintro ⟨f, hf, hholds⟩
      cases hf
      have hslots (s : Setting) (hs : s ∈ settings) :=
        (Setting.slot_eq_some_iff hs).1 (hholds _ (exists_place hs).choose_spec)
      refine ⟨?_, fun s hs habsent => (hslots s hs).2.1 habsent, fun s hs => (hslots s hs).2.2⟩
      rintro (⟨m, hm, hkey⟩ | ⟨s, hs, htwice | ⟨m, hm, hkey, hsays⟩⟩)
      · exact Option.isSome_iff_ne_none.1 (hreadable m hm) hkey
      · exact absurd (hslots s hs).1 (Nat.not_le.2 htwice)
      · exact hsays c ((hslots s hs).2.2 m hm hkey)
    · rintro ⟨hfault, hset⟩
      refine ⟨_, rfl, fun p hp => ?_⟩
      have hs := List.fst_mem_of_mem_zipIdx hp
      rw [Setting.slot_eq_some_iff hs]
      refine ⟨Nat.le_of_not_lt fun htwice => hfault (.inr ⟨p.1, hs, .inl htwice⟩), ?_, hset.present p.1 hs⟩
      exact fun habsent => hset.absent p.1 hs habsent
  · rw [if_neg hreadable]
    exact iff_of_false (fun ⟨f, hf, _⟩ => nomatch hf) (fun h => h.1 (faulty_of_unreadable hreadable))

theorem ofValue?_object_eq_none_iff {ms : List (Text × Value)} : ofValue? (.object ms) = none ↔ Faulty ms := by
  constructor
  · intro hnone
    by_contra hfault
    have hreadable : ∀ m ∈ ms, m.1.isSome = true := by
      by_contra hunreadable
      exact hfault (faulty_of_unreadable hunreadable)
    obtain ⟨c, hc⟩ := exists_holds (f := Fields.ofMembers ms)
      (fun p hp => slot_isSome hfault (List.fst_mem_of_mem_zipIdx hp) p.2)
    have hsome : ofValue? (.object ms) = some c :=
      ofValue?_eq_some_iff.2 ⟨_, by rw [fields_object, if_pos hreadable], hc⟩
    rw [hnone] at hsome
    cases hsome
  · intro hfault
    rw [Option.eq_none_iff_forall_ne_some]
    exact fun c hc => (ofValue?_object_eq_some_iff.1 hc).1 hfault

/-! ## What does not matter -/

theorem Setting.slot_congr {s : Setting} {ms ms' : List (Text × Value)}
    (h : (having s.key ms).Perm (having s.key ms')) (i : Nat) :
    s.slot (Fields.ofMembers ms) i = s.slot (Fields.ofMembers ms') i := by
  rcases s.slot_cases ms i with ⟨hl, hs⟩ | ⟨m, hl, hs⟩ | ⟨hl, hs⟩ <;> rw [hs]
  · rw [hl] at h
    exact (slot_of_none h.nil_eq.symm).symm
  · rw [hl] at h
    exact (slot_of_one (List.singleton_perm.1 h).symm).symm
  · rw [h.length_eq] at hl
    exact (slot_of_more hl).symm

theorem ofValue?_object_congr {ms ms' : List (Text × Value)}
    (hread : (∀ m ∈ ms, m.1.isSome = true) ↔ ∀ m ∈ ms', m.1.isSome = true)
    (h : ∀ s ∈ settings, (having s.key ms).Perm (having s.key ms')) :
    ofValue? (.object ms) = ofValue? (.object ms') := by
  refine Option.ext fun c => ?_
  rw [ofValue?_eq_some_iff, ofValue?_eq_some_iff, fields_object, fields_object]
  by_cases hr : ∀ m ∈ ms, m.1.isSome = true
  · have hholds : c.Holds (Fields.ofMembers ms) ↔ c.Holds (Fields.ofMembers ms') :=
      forall₂_congr fun p hp => by rw [Setting.slot_congr (h p.1 (List.fst_mem_of_mem_zipIdx hp))]
    rw [if_pos hr, if_pos (hread.1 hr)]
    simp only [Option.some.injEq, exists_eq_left', hholds]
  · rw [if_neg hr, if_neg (fun hr' => hr (hread.2 hr'))]

theorem ofValue?_object_perm {ms ms' : List (Text × Value)} (h : ms.Perm ms') :
    ofValue? (.object ms) = ofValue? (.object ms') :=
  ofValue?_object_congr ⟨fun hr m hm => hr m (h.mem_iff.2 hm), fun hr m hm => hr m (h.mem_iff.1 hm)⟩
    (fun _ _ => h.filter _)

/-- A member that is no setting is passed over. -/
theorem ofValue?_object_unknown {key : String} (hkey : key ∉ keys) (v : Value) (ms : List (Text × Value)) :
    ofValue? (.object ((some key, v) :: ms)) = ofValue? (.object ms) := by
  refine ofValue?_object_congr ?_ (fun s hs => ?_)
  · simp
  · have hne : key ≠ s.key := fun he => hkey (he ▸ List.mem_map_of_mem hs)
    have hskip : having s.key ((some key, v) :: ms) = having s.key ms :=
      List.filter_cons_of_neg (by simpa using hne)
    rw [hskip]

/-! ## Arrays -/

theorem having_of_not_mem {k : String} {ks : List String} (h : k ∉ ks) (vs : List Value) :
    having k ((ks.map some).zip vs) = [] := by
  refine List.filter_eq_nil_iff.2 fun m hm hk => h ?_
  have hkey := (List.of_mem_zip (a := m.1) (b := m.2) hm).1
  rw [eq_of_beq hk] at hkey
  simpa using hkey

theorem having_zip {ks : List String} (hks : ks.Nodup) {i : Nat} {k : String} (hk : ks[i]? = some k) (vs : List Value) :
    having k ((ks.map some).zip vs) = vs[i]?.toList.map (some k, ·) := by
  induction ks generalizing i vs with
  | nil => cases hk
  | cons k' ks ih =>
    rw [List.nodup_cons] at hks
    cases vs with
    | nil => rfl
    | cons v vs =>
      cases i with
      | zero =>
        obtain rfl := Option.some.inj hk
        rw [List.map_cons, List.zip_cons_cons, having, List.filter_cons_of_pos (by simp), ← having,
          having_of_not_mem hks.1]
        rfl
      | succ i =>
        have hne : k' ≠ k := by
          rintro rfl
          exact hks.1 (List.mem_of_getElem? hk)
        rw [List.map_cons, List.zip_cons_cons, having, List.filter_cons_of_neg (by simpa using hne), ← having]
        exact ih hks.2 hk vs

/-- **An array of values is the object that gives them to the settings in order.** -/
theorem ofValue?_array {vs : List Value} (h : vs.length ≤ 9) :
    ofValue? (.array vs) = ofValue? (.object ((keys.map some).zip vs)) := by
  have hfields : Fields.ofValue? 9 (.array vs) = some (Fields.ofItems vs) := if_pos h
  have hreadable : ∀ m ∈ (keys.map some).zip vs, m.1.isSome = true := fun m hm => by
    obtain ⟨k, -, hk⟩ := List.mem_map.1 (List.of_mem_zip (a := m.1) (b := m.2) hm).1
    rw [← hk]
    rfl
  have hslot (p : Setting × Nat) (hp : p ∈ settings.zipIdx) : p.1.slot (Fields.ofItems vs) p.2 =
      p.1.slot (Fields.ofMembers ((keys.map some).zip vs)) p.2 := by
    have hkey : keys[p.2]? = some p.1.key := by
      rw [keys, List.getElem?_map, List.mem_zipIdx_iff_getElem?.1 hp]
      rfl
    have hitem : p.1.slot (Fields.ofItems vs) p.2 = (vs[p.2]?).elim (some (p.1.content {})) p.1.read := by
      simp only [Setting.slot, Fields.read, Fields.ofItems]
      cases vs[p.2]? <;> rfl
    have hhaving := having_zip nodup_keys hkey vs
    rw [hitem]
    cases hv : vs[p.2]? with
    | none =>
      rw [hv] at hhaving
      exact (Setting.slot_of_none hhaving).symm
    | some v =>
      rw [hv] at hhaving
      exact (Setting.slot_of_one hhaving).symm
  refine Option.ext fun c => ?_
  rw [ofValue?_eq_some_iff, ofValue?_eq_some_iff, fields_object, if_pos hreadable, hfields]
  have hholds : c.Holds (Fields.ofItems vs) ↔ c.Holds (Fields.ofMembers ((keys.map some).zip vs)) :=
    forall₂_congr fun p hp => by rw [hslot p hp]
  simp only [Option.some.injEq, exists_eq_left', hholds]

/-! ## Texts -/

theorem ofText_congr {text text' : String} {v v' : Value} (h : Json.Spells text v) (h' : Json.Spells text' v')
    (hv : ofValue? v = ofValue? v') : ofText text = ofText text' := by
  rw [ofText, ofText, (Json.read_eq_some_iff text v).2 h, (Json.read_eq_some_iff text' v').2 h', Option.bind_some,
    Option.bind_some, hv]

theorem ofText_of_some {text : String} {v : Value} (h : Json.Spells text v) {c : Config} (hc : ofValue? v = some c) :
    c.Usable ∧ ofText text = .ok c ∨
      ¬ c.Usable ∧ ∃ fault, c.fault? = some fault ∧ ofText text = .error (.badConfig fault.text) := by
  rw [ofText, (Json.read_eq_some_iff text v).2 h, Option.bind_some, hc, ← fault?_eq_none_iff]
  dsimp only
  unfold validate
  cases c.fault? with
  | none => exact .inl ⟨rfl, rfl⟩
  | some fault => exact .inr ⟨Option.some_ne_none fault, fault, rfl, rfl⟩

theorem ofText_of_none {text : String} {v : Value} (h : Json.Spells text v) (hv : ofValue? v = none) :
    ofText text = .error .unreadableConfig := by
  rw [ofText, (Json.read_eq_some_iff text v).2 h, Option.bind_some, hv]

/-- **What the text of an object comes to.** -/
theorem ofText_object {text : String} {ms : List (Text × Value)} (h : Json.Spells text (.object ms)) :
    Faulty ms ∧ ofText text = .error .unreadableConfig ∨
      ¬ Faulty ms ∧ ∃ c : Config, c.SetBy ms ∧ (∀ c' : Config, c'.SetBy ms → c' = c) ∧
        (c.Usable ∧ ofText text = .ok c ∨
          ¬ c.Usable ∧ ∃ fault, c.fault? = some fault ∧ ofText text = .error (.badConfig fault.text)) := by
  cases hv : ofValue? (.object ms) with
  | none => exact .inl ⟨ofValue?_object_eq_none_iff.1 hv, ofText_of_none h hv⟩
  | some c =>
    obtain ⟨hfault, hset⟩ := ofValue?_object_eq_some_iff.1 hv
    refine .inr ⟨hfault, c, hset, fun c' hset' => ?_, ofText_of_some h hv⟩
    exact Option.some.inj ((ofValue?_object_eq_some_iff.2 ⟨hfault, hset'⟩).symm.trans hv)

/-- **The law of reading settings**, for every text of an object.

Neither the order of its members matters nor a member that is no setting.  A key that can not be read, a setting that is
given twice or whose value is none of its values makes the text unreadable, whatever else it says.  Otherwise it gives
settings that are determined: what its members name is what they say, and everything else is as it is by default; and
they are refused exactly if no player can work with them.  And values in an array come to what the object comes to that
gives them to the settings in order. -/
theorem settings_read {text : String} {raws : List (List Char)} {ms : List (Text × Value)}
    (ht : Json.IsObject text raws) (hm : Json.WritesEach raws ms) :
    (∀ text' raws', Json.IsObject text' raws' → raws'.Perm raws → ofText text' = ofText text) ∧
    (∀ text' front raw back key v, raws = front ++ back → Json.Writes raw (.member (some key, v)) → key ∉ keys →
      Json.IsObject text' (front ++ raw :: back) → ofText text' = ofText text) ∧
    (Faulty ms ∧ ofText text = .error .unreadableConfig ∨
      ¬ Faulty ms ∧ ∃ c : Config, c.SetBy ms ∧ (∀ c' : Config, c'.SetBy ms → c' = c) ∧
        (c.Usable ∧ ofText text = .ok c ∨
          ¬ c.Usable ∧ ∃ fault, c.fault? = some fault ∧ ofText text = .error (.badConfig fault.text))) ∧
    (∀ text' vs, Json.Spells text' (.array vs) → vs.length ≤ 9 → ms = (keys.map some).zip vs →
      ofText text' = ofText text) := by
  have hspells : Json.Spells text (.object ms) := Json.spells_object_iff.2 ⟨raws, ht, hm⟩
  have permuted {text' : String} {raws' more : List (List Char)} {ms' : List (Text × Value)}
      (ht' : Json.IsObject text' raws') (hp : raws'.Perm more) (hmore : Json.WritesEach more ms') :
      ∃ ms'', Json.Spells text' (.object ms'') ∧ ofValue? (.object ms'') = ofValue? (.object ms') := by
    obtain ⟨ms'', heach, hperm⟩ := List.perm_comp_forall₂ hp hmore
    exact ⟨ms'', Json.spells_object_iff.2 ⟨raws', ht', heach⟩, ofValue?_object_perm hperm⟩
  refine ⟨fun text' raws' ht' hp => ?_, fun text' front raw back key v hraws hraw hkey ht' => ?_, ofText_object hspells,
    fun text' vs hvs hlength hms => ?_⟩
  · obtain ⟨ms'', hs, hv⟩ := permuted ht' hp hm
    exact ofText_congr hs hspells hv
  · obtain ⟨ms'', hs, hv⟩ := permuted ht' List.perm_middle (.cons hraw (hraws ▸ hm))
    exact ofText_congr hs hspells (hv.trans (ofValue?_object_unknown hkey v ms))
  · rw [hms] at hspells
    exact ofText_congr hvs hspells (ofValue?_array hlength)

/-- An interval of zero would be refused, but the mode is no mode; so it is in the other order. -/
theorem reading_fault_before_refusal :
    let raws : List (List Char) :=
      ['"' :: "eof_poll_ms".toList ++ ['"', ':', '0'], '"' :: "sync_mode".toList ++ ['"', ':', '7']]
    let ms : List (Text × Value) :=
      [(some "eof_poll_ms", .number { whole := [0] }), (some "sync_mode", .number { whole := [7] })]
    let text := "\x7b\"eof_poll_ms\":0,\"sync_mode\":7\x7d"
    let text' := "\x7b\"sync_mode\":7,\"eof_poll_ms\":0\x7d"
    Json.IsObject text raws ∧ Json.WritesEach raws ms ∧ Json.IsObject text' raws.reverse ∧ Faulty ms ∧
      ofText text = .error .unreadableConfig ∧ ofText text' = ofText text := by
  intro raws ms text text'
  have member (k : String) (hk : ∀ c ∈ k.toList, 32 ≤ c.toNat ∧ c ≠ '"' ∧ c ≠ '\\') (c : Char)
      (hc : Json.isDigit c = true) : Json.Writes ('"' :: k.toList ++ ['"', ':', c])
        (.member (some k, .number { whole := [Json.digitValue c] })) := by
    have digits : Json.Digits [c] [Json.digitValue c] := ⟨nofun, by simpa using hc, rfl⟩
    have number : Json.WritesNumeral ([] ++ [c] ++ [] ++ []) { whole := [Json.digitValue c] } :=
      .mk .none digits (fun h => h.1 rfl) .none .none
    simpa using Json.Writes.member Json.blanks_nil (Json.writesText_plain hk) Json.blanks_nil Json.blanks_nil
      (.number number) Json.blanks_nil
  have object (text : String) (raws : List (List Char)) (hne : raws ≠ [])
      (he : text.toList = '\x7b' :: [','].intercalate raws ++ ['\x7d']) : Json.IsObject text raws :=
    ⟨[], _, [], Json.blanks_nil, .some hne, Json.blanks_nil, by simpa using he⟩
  have ht : Json.IsObject text raws := object text raws nofun (by decide +kernel)
  have ht' : Json.IsObject text' raws.reverse := object text' _ nofun (by decide +kernel)
  have hm : Json.WritesEach raws ms :=
    .cons (member _ (by simp) '0' rfl) (.cons (member _ (by simp) '7' rfl) .nil)
  have hfault : Faulty ms := .inr ⟨.sync, by simp [settings],
    .inr ⟨_, List.mem_cons_of_mem _ List.mem_cons_self, rfl, (Setting.read_eq_none_iff (by simp [settings])).1 rfl⟩⟩
  obtain ⟨horder, -, hcases, -⟩ := settings_read ht hm
  have hunreadable : ofText text = .error .unreadableConfig := by
    rcases hcases with ⟨-, h⟩ | ⟨h, -⟩
    · exact h
    · exact absurd hfault h
  exact ⟨ht, hm, ht', hfault, hunreadable, horder _ _ ht' raws.reverse_perm⟩

end Config
end Playhead
