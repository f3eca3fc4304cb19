import AgentPrompt.Proofs.Instant.Calendar
import AgentPrompt.Proofs.Json.Numeral
import Mathlib.Data.List.Forall2
import Mathlib.Data.List.Lex
import Mathlib.Data.String.Basic

/-! Texts of rows of fields with fixed widths are ordered like the rows of numbers. -/
namespace AgentPrompt.Instant
open Decimal (digitText)

/-! ## Padded numbers -/

section
variable {w n m : Nat}

theorem digitChar_lt_digitChar (h : n < m) (hm : m < 10) : n.digitChar < m.digitChar := by
  have hall : ∀ m < 10, ∀ n < m, n.digitChar < m.digitChar := by decide
  exact hall m hm n h

theorem padded_one (h : n < 10) : padded 1 n = [n.digitChar] := by
  simp [padded, digitText, Nat.toDigits_of_lt_base h]

/-- A wider number is the number without its last digit, and that digit. -/
theorem padded_succ (w n : Nat) :
    padded (w + 2) n = padded (w + 1) (n / 10) ++ [(n % 10).digitChar] := by
  unfold padded
  rcases Nat.lt_or_ge n 10 with h | h
  · rw [Nat.div_eq_of_lt h, Nat.mod_eq_of_lt h, Json.digitText_zero, digitText,
      Nat.toDigits_of_lt_base h]
    exact congrArg (· ++ [n.digitChar]) List.replicate_succ'
  · have hdigits : digitText n = digitText (n / 10) ++ [(n % 10).digitChar] :=
      Nat.toDigits_of_base_le (by omega) h
    have hzeros : w + 2 - (digitText n).length = w + 1 - (digitText (n / 10)).length := by
      rw [hdigits, List.length_append, List.length_singleton]
      omega
    simp only [hzeros]
    rw [hdigits, List.append_assoc]

theorem length_padded (h : n < 10 ^ (w + 1)) : (padded (w + 1) n).length = w + 1 := by
  induction w generalizing n with
  | zero => rw [padded_one h, List.length_singleton]
  | succ w ih =>
    have hq : n / 10 < 10 ^ (w + 1) := by
      rw [Nat.pow_succ] at h
      omega
    rw [padded_succ, List.length_append, ih hq, List.length_singleton]

theorem isDigit_of_mem_padded {c : Char} (h : c ∈ padded w n) : c.isDigit = true := by
  rcases List.mem_append.1 h with h | h
  · rw [(List.mem_replicate.1 h).2]
    rfl
  · exact Json.allDigits_digitText n c h

theorem append_lt_append {a b : List Char} (hlength : a.length = b.length) (h : a < b)
    (s t : List Char) : a ++ s < b ++ t := by
  induction a generalizing b with
  | nil =>
    obtain rfl := List.length_eq_zero_iff.1 hlength.symm
    exact absurd h (lt_irrefl _)
  | cons c a ih =>
    obtain ⟨d, b, rfl⟩ := List.exists_cons_of_length_eq_add_one hlength.symm
    rw [List.cons_append, List.cons_append, List.cons_lt_cons_iff]
    rcases List.cons_lt_cons_iff.1 h with hc | ⟨rfl, hrest⟩
    · exact .inl hc
    · exact .inr ⟨rfl, ih (Nat.succ.inj hlength) hrest⟩

theorem padded_lt_padded (h : n < m) (hm : m < 10 ^ (w + 1)) :
    padded (w + 1) n < padded (w + 1) m := by
  induction w generalizing n m with
  | zero =>
    rw [padded_one (h.trans hm), padded_one hm, List.cons_lt_cons_iff]
    exact .inl (digitChar_lt_digitChar h hm)
  | succ w ih =>
    rw [Nat.pow_succ] at hm
    have hm' : m / 10 < 10 ^ (w + 1) := by omega
    have hn' : n / 10 < 10 ^ (w + 1) := by omega
    rw [padded_succ, padded_succ]
    rcases Nat.lt_or_eq_of_le (Nat.div_le_div_right (c := 10) h.le) with hq | hq
    · exact append_lt_append (by rw [length_padded hn', length_padded hm']) (ih hq hm') _ _
    · rw [hq]
      apply List.append_left_lt
      rw [List.cons_lt_cons_iff]
      exact .inl (digitChar_lt_digitChar (by omega) (by omega))

end

/-! ## Rows of fields -/

/-- A number in a text: the letter that stands for its digits in a pattern, how many there are, and the
character after them. -/
structure Field where
  letter : Char
  width : Nat
  after : Char

def Field.HasRoom (f : Field) (n : Nat) : Prop :=
  0 < f.width ∧ n < 10 ^ f.width

def pattern (layout : List Field) : List Char :=
  layout.flatMap fun f => List.replicate f.width f.letter ++ [f.after]

def written : List Field → List Nat → List Char
  | f :: layout, n :: ns => padded f.width n ++ f.after :: written layout ns
  | _, _ => []

/-- The letters of a date and a time stand for digits, all other characters for themselves. -/
def Matches (place c : Char) : Prop :=
  if place ∈ ['Y', 'M', 'D', 'H', 'S'] then c.isDigit = true else c = place

/-- The field's letter stands for a digit, and the character after it for itself. -/
def Field.IsPlain (f : Field) : Prop :=
  f.letter ∈ ['Y', 'M', 'D', 'H', 'S'] ∧ f.after ∉ ['Y', 'M', 'D', 'H', 'S']

instance (f : Field) : Decidable f.IsPlain :=
  inferInstanceAs (Decidable (_ ∧ _))

theorem Field.HasRoom.length_padded {f : Field} {n : Nat} (h : f.HasRoom n) :
    (padded f.width n).length = f.width := by
  obtain ⟨w, hw⟩ := Nat.exists_eq_add_of_lt h.1
  have hn := h.2
  rw [hw, Nat.zero_add] at hn ⊢
  exact Instant.length_padded hn

section
variable {layout : List Field} {ns ms : List Nat}

theorem matches_written (hplain : ∀ f ∈ layout, f.IsPlain)
    (h : List.Forall₂ Field.HasRoom layout ns) :
    List.Forall₂ Matches (pattern layout) (written layout ns) := by
  induction h with
  | nil => exact .nil
  | @cons f n layout ns hroom _ ih =>
    rw [List.forall_mem_cons] at hplain
    have hdigits : List.Forall₂ Matches (List.replicate f.width f.letter) (padded f.width n) := by
      rw [List.forall₂_iff_get]
      refine ⟨by rw [List.length_replicate, hroom.length_padded], fun i hi hi' => ?_⟩
      rw [Matches, List.get_eq_getElem, List.getElem_replicate, if_pos hplain.1.1]
      exact isDigit_of_mem_padded (List.get_mem _ _)
    have hafter : Matches f.after f.after := by
      rw [Matches, if_neg hplain.1.2]
    rw [pattern, List.flatMap_cons, List.append_assoc, List.singleton_append]
    exact List.rel_append hdigits (.cons hafter (ih hplain.2))

theorem written_lt_written (hns : List.Forall₂ Field.HasRoom layout ns)
    (hms : List.Forall₂ Field.HasRoom layout ms) (h : ns < ms) :
    written layout ns < written layout ms := by
  induction hns generalizing ms with
  | nil =>
    cases hms
    exact absurd h (lt_irrefl _)
  | @cons f n layout ns hn _ ih =>
    cases hms with
    | @cons _ m _ ms hm hms =>
      rcases List.cons_lt_cons_iff.1 h with hlt | ⟨rfl, hrest⟩
      · have hlength : (padded f.width n).length = (padded f.width m).length := by
          rw [hn.length_padded, hm.length_padded]
        have hpadded : padded f.width n < padded f.width m := by
          obtain ⟨w, hw⟩ := Nat.exists_eq_add_of_lt hm.1
          have hm := hm.2
          rw [hw, Nat.zero_add] at hm ⊢
          exact padded_lt_padded hlt hm
        exact append_lt_append hlength hpadded _ _
      · apply List.append_left_lt
        rw [List.cons_lt_cons_iff]
        exact .inr ⟨rfl, ih hms hrest⟩

end

/-! ## Moments -/

def layout : List Field :=
  [⟨'Y', 4, '-'⟩, ⟨'M', 2, '-'⟩, ⟨'D', 2, 'T'⟩, ⟨'H', 2, ':'⟩, ⟨'M', 2, ':'⟩, ⟨'S', 2, 'Z'⟩]

def fields (t : Instant) : List Nat :=
  [t.date.year.toNat, t.date.month, t.date.day, t.secondOfDay / 3600, t.secondOfDay / 60 % 60,
    t.second]

def minute (t : Instant) : Int :=
  t.seconds / 60

/-- Moments in the same second of the same minute. A leap second follows second 59 as second 60. -/
def SameSecond (a b : Instant) : Prop :=
  a.minute = b.minute ∧ a.second = b.second

def EarlierSecond (a b : Instant) : Prop :=
  a.minute < b.minute ∨ a.minute = b.minute ∧ a.second < b.second

def Leaps (t : Instant) : Prop :=
  1000000000 ≤ t.nanoseconds

instance (a b : Instant) : Decidable (EarlierSecond a b) :=
  inferInstanceAs (Decidable (_ ∨ _))

instance (t : Instant) : Decidable t.Leaps :=
  inferInstanceAs (Decidable (_ ≤ _))

/-- A moment with a year of four digits. A leap second is one second long. -/
structure Plain (t : Instant) : Prop where
  year_nonneg : 0 ≤ t.date.year
  year_le : t.date.year ≤ 9999
  nanoseconds_lt : t.nanoseconds < 2000000000

section
variable {a b t : Instant}

theorem same_or_earlier (a b : Instant) :
    SameSecond a b ∨ EarlierSecond a b ∨ EarlierSecond b a := by
  unfold SameSecond EarlierSecond
  omega

theorem second_eq (t : Instant) :
    (t.second : Int) = t.seconds % 60 + (t.nanoseconds / 1000000000 : Nat) := by
  unfold second secondOfDay secondsPerDay
  omega

theorem minute_eq (t : Instant) : t.minute = 1440 * t.days + (t.secondOfDay / 60 : Nat) := by
  unfold minute days secondOfDay secondsPerDay
  omega

theorem chars_eq_written (h : t.Plain) : t.chars = written layout t.fields := by
  have hyear : 0 ≤ t.date.year ∧ t.date.year ≤ 9999 := ⟨h.year_nonneg, h.year_le⟩
  simp [chars, yearText, hyear, written, layout, fields]

theorem hasRoom_fields (h : t.Plain) : List.Forall₂ Field.HasRoom layout t.fields := by
  have hdate := Date.valid_ofDays t.days
  have hmonth : t.date.month ≤ 12 := hdate.month_le
  have hday : t.date.day ≤ 31 := hdate.day_le.trans (Date.monthLength_le _ _)
  have hyear := h.year_le
  have hnano := h.nanoseconds_lt
  have hsecond := second_eq t
  have hofday : t.secondOfDay < 86400 := by
    unfold secondOfDay secondsPerDay
    omega
  have hroom : ∀ {c d : Char} {w n : Nat}, 0 < w → n < 10 ^ w → Field.HasRoom ⟨c, w, d⟩ n :=
    fun hw hn => ⟨hw, hn⟩
  refine .cons (hroom ?_ ?_) <| .cons (hroom ?_ ?_) <| .cons (hroom ?_ ?_) <|
    .cons (hroom ?_ ?_) <| .cons (hroom ?_ ?_) <| .cons (hroom ?_ ?_) .nil
  all_goals omega

theorem minuteOfDay_lt (t : Instant) : t.secondOfDay / 60 < 1440 := by
  unfold secondOfDay secondsPerDay
  omega

theorem fields_eq_of_same (h : SameSecond a b) : a.fields = b.fields := by
  obtain ⟨hminute, hsecond⟩ := h
  rw [minute_eq, minute_eq] at hminute
  have ha := minuteOfDay_lt a
  have hb := minuteOfDay_lt b
  have hdays : a.days = b.days := by omega
  have hday : a.secondOfDay / 60 = b.secondOfDay / 60 := by omega
  have hhour : a.secondOfDay / 3600 = b.secondOfDay / 3600 := by omega
  rw [fields, fields, date, date, hdays, hday, hhour, hsecond]

/-- The first field that differs decides, and the date decides before the time of day. -/
theorem fields_lt_of_earlier (hyear : 0 ≤ a.date.year) (h : EarlierSecond a b) :
    a.fields < b.fields := by
  have ha := minuteOfDay_lt a
  have hb := minuteOfDay_lt b
  rw [EarlierSecond, minute_eq, minute_eq] at h
  simp only [fields, List.cons_lt_cons_iff]
  rcases lt_trichotomy a.days b.days with hdays | hdays | hdays
  · rcases Date.before_ofDays hdays with hlt | ⟨heq, hlt | ⟨hmonth, hlt⟩⟩
    · have hnat : a.date.year.toNat < b.date.year.toNat := by
        have hlt : a.date.year < b.date.year := hlt
        omega
      exact .inl hnat
    · exact .inr ⟨congrArg Int.toNat heq, .inl hlt⟩
    · exact .inr ⟨congrArg Int.toNat heq, .inr ⟨hmonth, .inl hlt⟩⟩
  · have hdate : a.date = b.date := congrArg Date.ofDays hdays
    refine .inr ⟨by rw [hdate], .inr ⟨by rw [hdate], .inr ⟨by rw [hdate], ?_⟩⟩⟩
    omega
  · omega

theorem text_eq_of_same (ha : a.Plain) (hb : b.Plain) (h : SameSecond a b) : a.text = b.text := by
  rw [text, text, chars_eq_written ha, chars_eq_written hb, fields_eq_of_same h]

theorem text_lt_of_earlier (ha : a.Plain) (hb : b.Plain) (h : EarlierSecond a b) :
    a.text < b.text := by
  rw [String.lt_iff_toList_lt, text, text, String.toList_ofList, String.toList_ofList,
    chars_eq_written ha, chars_eq_written hb]
  exact written_lt_written (hasRoom_fields ha) (hasRoom_fields hb)
    (fields_lt_of_earlier ha.year_nonneg h)

theorem matches_text (h : t.Plain) :
    List.Forall₂ Matches "YYYY-MM-DDTHH:MM:SSZ".toList t.text.toList := by
  have hpattern : pattern layout = "YYYY-MM-DDTHH:MM:SSZ".toList := by decide
  have hplain : ∀ f ∈ layout, f.IsPlain := by decide
  rw [← hpattern, text, String.toList_ofList, chars_eq_written h]
  exact matches_written hplain (hasRoom_fields h)

theorem sameSecond_iff (ha : a.nanoseconds < 2000000000) (hb : b.nanoseconds < 2000000000)
    (hla : a.Leaps → a.seconds % 60 = 59) (hlb : b.Leaps → b.seconds % 60 = 59) :
    SameSecond a b ↔ a.seconds = b.seconds ∧ (a.Leaps ↔ b.Leaps) := by
  have hsa := second_eq a
  have hsb := second_eq b
  unfold SameSecond minute Leaps at *
  omega

theorem earlierSecond_iff (ha : a.nanoseconds < 2000000000) (hb : b.nanoseconds < 2000000000)
    (hla : a.Leaps → a.seconds % 60 = 59) (hlb : b.Leaps → b.seconds % 60 = 59) :
    EarlierSecond a b ↔
      a.seconds < b.seconds ∨ a.seconds = b.seconds ∧ ¬ a.Leaps ∧ b.Leaps := by
  have hsa := second_eq a
  have hsb := second_eq b
  unfold EarlierSecond minute Leaps at *
  omega

theorem text_eq_iff (ha : a.Plain) (hb : b.Plain) : a.text = b.text ↔ SameSecond a b := by
  refine ⟨fun h => ?_, text_eq_of_same ha hb⟩
  rcases same_or_earlier a b with hsame | hlt | hlt
  · exact hsame
  · exact absurd h (text_lt_of_earlier ha hb hlt).ne
  · exact absurd h.symm (text_lt_of_earlier hb ha hlt).ne

theorem text_lt_iff (ha : a.Plain) (hb : b.Plain) : a.text < b.text ↔ EarlierSecond a b := by
  refine ⟨fun h => ?_, text_lt_of_earlier ha hb⟩
  rcases same_or_earlier a b with hsame | hlt | hlt
  · exact absurd (text_eq_of_same ha hb hsame) h.ne
  · exact hlt
  · exact absurd (text_lt_of_earlier hb ha hlt) h.asymm

end

/-- The text of a moment has twenty characters of one shape. Two texts are equal exactly for moments in
the same second, and the smaller text is that of the earlier second. If leap seconds come at the ends of
minutes only, these are the seconds counted since 1970, each with the leap second after it. -/
theorem text_orders_seconds {a b : Instant} (ha : a.Plain) (hb : b.Plain) :
    List.Forall₂ Matches "YYYY-MM-DDTHH:MM:SSZ".toList a.text.toList ∧ a.text.length = 20 ∧
    (a.text = b.text ↔ SameSecond a b) ∧ (a.text < b.text ↔ EarlierSecond a b) ∧
    ((a.Leaps → a.seconds % 60 = 59) → (b.Leaps → b.seconds % 60 = 59) →
      (a.text = b.text ↔ a.seconds = b.seconds ∧ (a.Leaps ↔ b.Leaps)) ∧
      (a.text < b.text ↔
        a.seconds < b.seconds ∨ a.seconds = b.seconds ∧ ¬ a.Leaps ∧ b.Leaps)) := by
  have hshape := matches_text ha
  refine ⟨hshape, hshape.length_eq.symm, text_eq_iff ha hb, text_lt_iff ha hb, fun hla hlb => ?_⟩
  constructor
  · rw [text_eq_iff ha hb, sameSecond_iff ha.nanoseconds_lt hb.nanoseconds_lt hla hlb]
  · rw [text_lt_iff ha hb, earlierSecond_iff ha.nanoseconds_lt hb.nanoseconds_lt hla hlb]

/-- The leap second at the end of 2016, half of it gone. -/
def leapSecond : Instant :=
  ⟨1483228799, 1500000000⟩

/-- The leap second lies between the second before it and the new year, as its text does. -/
theorem text_orders_seconds_leapSecond :
    Plain ⟨1483228799, 999999999⟩ ∧ leapSecond.Plain ∧ Plain ⟨1483228800, 0⟩ ∧
      leapSecond.text = "2016-12-31T23:59:60Z" ∧
      text ⟨1483228799, 999999999⟩ < leapSecond.text ∧
      leapSecond.text < text ⟨1483228800, 0⟩ := by
  have hbefore : Plain ⟨1483228799, 999999999⟩ := ⟨by decide, by decide, by decide⟩
  have hleap : leapSecond.Plain := ⟨by decide, by decide, by decide⟩
  have hafter : Plain ⟨1483228800, 0⟩ := ⟨by decide, by decide, by decide⟩
  obtain ⟨-, -, -, hfirst, -⟩ := text_orders_seconds hbefore hleap
  obtain ⟨-, -, -, -, hcount⟩ := text_orders_seconds hleap hafter
  have hlast := (hcount (by decide) (by decide)).2
  exact ⟨hbefore, hleap, hafter, by decide, hfirst.2 (by decide), hlast.2 (by decide)⟩

end AgentPrompt.Instant
