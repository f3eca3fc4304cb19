/-! Blank characters, and text without the blanks around it. -/
namespace AgentPrompt.Text

/-- The characters with the Unicode property `White_Space`. -/
def isBlank (c : Char) : Bool :=
  let n := c.toNat
  (0x09 ≤ n && n ≤ 0x0D) || n == 0x20 || n == 0x85 || n == 0xA0 || n == 0x1680 ||
    (0x2000 ≤ n && n ≤ 0x200A) || n == 0x2028 || n == 0x2029 || n == 0x202F || n == 0x205F ||
    n == 0x3000

def trimLeft (s : List Char) : List Char :=
  s.dropWhile isBlank

def trimRight (s : List Char) : List Char :=
  (s.reverse.dropWhile isBlank).reverse

/-- The text without the blanks at both ends. -/
def trim (s : List Char) : List Char :=
  trimRight (trimLeft s)

/-- Whether the text holds nothing but blanks. -/
def isBlankText (s : List Char) : Bool :=
  s.all isBlank

theorem trimLeft_eq_nil_iff (s : List Char) : trimLeft s = [] ↔ isBlankText s := by
  induction s with
  | nil => simp [trimLeft, isBlankText]
  | cons c s ih =>
    by_cases hc : isBlank c <;> simp_all [trimLeft, isBlankText]

theorem head_trimLeft_not_blank {c : Char} {s t : List Char} (h : trimLeft s = c :: t) :
    isBlank c = false := by
  induction s with
  | nil => simp [trimLeft] at h
  | cons d s ih =>
    by_cases hd : isBlank d
    · exact ih (by simpa [trimLeft, hd] using h)
    · simp [trimLeft, hd] at h
      rcases h with ⟨rfl, -⟩
      simpa using hd

end AgentPrompt.Text
