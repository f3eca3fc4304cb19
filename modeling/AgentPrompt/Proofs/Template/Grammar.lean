import AgentPrompt.Template.Piece
import AgentPrompt.Proofs.Text.Trim
import AgentPrompt.Proofs.Except

/-! The scanner carries an open placeholder along and restarts it at every opener. The rule here
looks at one position only: an opener is live if its distance from the start of its run of braces is
even, and it is a placeholder if blanks, a name, blanks and the closing braces follow. -/
namespace AgentPrompt.Template

def byteLength (s : List Char) : Nat :=
  (String.ofList s).utf8ByteSize

@[simp] theorem byteLength_nil : byteLength [] = 0 := by
  simp [byteLength]

@[simp] theorem byteLength_append (s t : List Char) :
    byteLength (s ++ t) = byteLength s + byteLength t := by
  simp [byteLength, String.ofList_append]

@[simp] theorem byteLength_cons (c : Char) (s : List Char) :
    byteLength (c :: s) = c.utf8Size + byteLength s := by
  rw [← List.singleton_append, byteLength_append]
  simp [byteLength]

@[simp] theorem byteLength_reverse (s : List Char) : byteLength s.reverse = byteLength s := by
  induction s with
  | nil => rfl
  | cons c s ih =>
    rw [List.reverse_cons, byteLength_append, ih, byteLength_cons, byteLength_cons,
      byteLength_nil]
    omega

@[simp] theorem byteLength_opener : byteLength opener = 2 := by
  simp only [opener, byteLength_cons, byteLength_nil]
  decide

@[simp] theorem byteLength_closer : byteLength closer = 2 := by
  simp only [closer, byteLength_cons, byteLength_nil]
  decide

def StandsAt (part text : List Char) (position : Nat) : Prop :=
  ∃ before after, text = before ++ part ++ after ∧ byteLength before = position

def trailingBraces (s : List Char) : Nat :=
  (s.reverse.takeWhile (· == '\x7b')).length

theorem trailingBraces_concat (s : List Char) (c : Char) :
    trailingBraces (s ++ [c]) = if c = '\x7b' then trailingBraces s + 1 else 0 := by
  by_cases h : c = '\x7b' <;> simp [trailingBraces, h]

/-- A live opener stands at the position and `rest` follows it. The braces right before it belong to
the same run, so their number is its distance from the start of the run. -/
def OpensAt (template : List Char) (position : Nat) (rest : List Char) : Prop :=
  ∃ before, template = before ++ opener ++ rest ∧ byteLength before = position ∧
    trailingBraces before % 2 = 0

def LiveOpener (template : List Char) (position : Nat) : Prop :=
  ∃ rest, OpensAt template position rest

/-- A text that completes a placeholder after its opener. -/
def Closes (name rest : List Char) : Prop :=
  ∃ left right more, rest = left ++ name ++ right ++ closer ++ more ∧ isName name = true ∧
    Text.isBlankText left = true ∧ Text.isBlankText right = true

/-! ## Live openers from left to right -/

/-- The openers met when pairs of braces are read from left to right, each with what follows it. -/
def openersFrom (offset : Nat) : List Char → List (Nat × List Char)
  | [] => []
  | '\x7b' :: '\x7b' :: rest => (offset, rest) :: openersFrom (offset + 2) rest
  | c :: rest => openersFrom (offset + c.utf8Size) rest

/-- A scan never stands between the two braces of a pair. -/
def AtBoundary (before rest : List Char) : Prop :=
  trailingBraces before % 2 = 0 ∨ rest.head? ≠ some '\x7b'

theorem AtBoundary.opener {before rest : List Char}
    (h : AtBoundary before ('\x7b' :: '\x7b' :: rest)) :
    trailingBraces before % 2 = 0 ∧ AtBoundary (before ++ opener) rest := by
  have he : trailingBraces before % 2 = 0 := h.resolve_right (by simp)
  refine ⟨he, Or.inl ?_⟩
  have hs : before ++ Template.opener = before ++ ['\x7b'] ++ ['\x7b'] := by simp [Template.opener]
  rw [hs, trailingBraces_concat, trailingBraces_concat]
  simp only [if_true]
  omega

theorem AtBoundary.cons {before rest : List Char} {c : Char}
    (hc : ∀ more, c = '\x7b' → rest = '\x7b' :: more → False) :
    AtBoundary (before ++ [c]) rest := by
  by_cases h : c = '\x7b'
  · refine Or.inr fun hr => ?_
    obtain ⟨more, hm⟩ := List.head?_eq_some_iff.1 hr
    exact hc more h hm
  · left
    simp [trailingBraces_concat, h]

theorem mem_openersFrom_iff {offset : Nat} {before rest : List Char} (hb : AtBoundary before rest)
    (p : Nat) (r : List Char) :
    (p, r) ∈ openersFrom offset rest ↔
      ∃ mid, rest = mid ++ opener ++ r ∧ p = offset + byteLength mid ∧
        trailingBraces (before ++ mid) % 2 = 0 := by
  fun_induction openersFrom offset rest generalizing before with
  | case1 offset => simp [opener]
  | case2 offset rest ih =>
    obtain ⟨he, hb'⟩ := hb.opener
    rw [List.mem_cons, ih hb']
    constructor
    · rintro (h | ⟨mid, rfl, rfl, hm⟩)
      · obtain ⟨rfl, rfl⟩ := Prod.mk.inj h
        exact ⟨[], by simp [opener], by simp, by simpa using he⟩
      · refine ⟨opener ++ mid, by simp [opener], ?_, by simpa using hm⟩
        rw [byteLength_append, byteLength_opener]
        omega
    · rintro ⟨mid, hr, rfl, hm⟩
      match mid, hr with
      | [], hr => left; simp_all [opener]
      | [c], hr =>
        obtain ⟨rfl, -⟩ := List.cons.inj hr
        rw [trailingBraces_concat] at hm
        simp only [if_true] at hm
        omega
      | c :: d :: mid, hr =>
        simp only [List.cons_append, List.cons.injEq] at hr
        obtain ⟨rfl, rfl, hr⟩ := hr
        refine Or.inr ⟨mid, by simpa using hr, ?_, by simpa [opener] using hm⟩
        have h : byteLength ('\x7b' :: '\x7b' :: mid) = 2 + byteLength mid :=
          (byteLength_append opener mid).trans (by rw [byteLength_opener])
        omega
  | case3 offset c rest hc ih =>
    rw [ih (AtBoundary.cons hc)]
    constructor
    · rintro ⟨mid, rfl, rfl, hm⟩
      exact ⟨c :: mid, by simp, by simp; omega, by simpa using hm⟩
    · rintro ⟨mid, hr, rfl, hm⟩
      cases mid with
      | nil =>
        obtain ⟨h, h'⟩ := List.cons.inj hr
        exact (hc r h (by simpa using h')).elim
      | cons d mid =>
        simp only [List.cons_append, List.cons.injEq] at hr
        obtain ⟨rfl, hr⟩ := hr
        exact ⟨mid, hr, by simp; omega, by simpa using hm⟩

theorem opensAt_iff_mem (template : List Char) (p : Nat) (r : List Char) :
    OpensAt template p r ↔ (p, r) ∈ openersFrom 0 template := by
  have hb : AtBoundary [] template := Or.inl rfl
  rw [mem_openersFrom_iff hb]
  constructor
  · rintro ⟨mid, ht, rfl, hm⟩
    exact ⟨mid, ht, by simp, hm⟩
  · rintro ⟨mid, ht, rfl, hm⟩
    exact ⟨mid, ht, by simp, hm⟩

theorem le_of_mem_openersFrom {offset : Nat} {rest : List Char} {x : Nat × List Char}
    (h : x ∈ openersFrom offset rest) : offset ≤ x.1 := by
  have hb : AtBoundary [] rest := Or.inl rfl
  obtain ⟨mid, -, hp, -⟩ := (mem_openersFrom_iff hb x.1 x.2).1 h
  omega

/-- Openers are met in the order of their offsets. -/
theorem openersFrom_increasing (offset : Nat) (rest : List Char) :
    (openersFrom offset rest).Pairwise fun x y => x.1 < y.1 := by
  fun_induction openersFrom offset rest with
  | case1 => exact List.Pairwise.nil
  | case2 offset rest ih =>
    refine List.pairwise_cons.2 ⟨fun x hx => ?_, ih⟩
    have := le_of_mem_openersFrom hx
    simp only
    omega
  | case3 offset c rest hc ih => exact ih

/-! ## The body of a placeholder -/

theorem isNameRest_not_blank {c : Char} (h : isNameRest c = true) : Text.isBlank c = false := by
  have hcases : (decide (65 ≤ c.val ∧ c.val ≤ 90) || decide (97 ≤ c.val) && decide (c.val ≤ 122) ||
      decide (48 ≤ c.val) && decide (c.val ≤ 57) || c == '_' || c == '.' || c == '-') = true := h
  simp only [Bool.or_eq_true, Bool.and_eq_true, decide_eq_true_eq, beq_iff_eq, UInt32.le_iff_toNat_le] at hcases
  have hn : c.val.toNat = c.toNat := rfl
  rcases hcases with ((hc | rfl) | rfl) | rfl
  · simp only [UInt32.reduceToNat, hn] at hc
    simp [Text.isBlank]
    omega
  · rfl
  · rfl
  · rfl

theorem isNameRest_of_mem_name {name : List Char} (h : isName name = true) :
    ∀ c ∈ name, isNameRest c = true := by
  cases name with
  | nil => simp
  | cons d rest =>
    simp only [isName, Bool.and_eq_true, List.all_eq_true] at h
    intro c hc
    rcases List.mem_cons.1 hc with rfl | hc
    · have hs := h.1
      simp only [isNameStart, Bool.or_eq_true] at hs
      rcases hs with hs | hs <;> simp [isNameRest, Char.isAlphanum, hs]
    · exact h.2 c hc

theorem not_brace_of_isNameRest {c : Char} (h : isNameRest c = true) :
    c ≠ '\x7b' ∧ c ≠ '\x7d' := by
  constructor <;> rintro rfl <;> exact absurd h (by decide)

theorem not_brace_of_isBlank {c : Char} (h : Text.isBlank c = true) : c ≠ '\x7b' ∧ c ≠ '\x7d' := by
  constructor <;> rintro rfl <;> exact absurd h (by decide)

theorem trim_blank_name_blank {left name right : List Char} (hn : isName name = true)
    (hl : Text.isBlankText left = true) (hr : Text.isBlankText right = true) :
    Text.trim (left ++ name ++ right) = name :=
  Text.trim_blank_append_blank hl
    (fun c hc => isNameRest_not_blank (isNameRest_of_mem_name hn c hc)) hr

theorem not_brace_of_mem_content {left name right : List Char} (hn : isName name = true)
    (hl : Text.isBlankText left = true) (hr : Text.isBlankText right = true) :
    ∀ c ∈ left ++ name ++ right, c ≠ '\x7b' ∧ c ≠ '\x7d' := by
  intro c hc
  simp only [List.mem_append] at hc
  rcases hc with (hc | hc) | hc
  · exact not_brace_of_isBlank ((Text.isBlankText_iff left).1 hl c hc)
  · exact not_brace_of_isNameRest (isNameRest_of_mem_name hn c hc)
  · exact not_brace_of_isBlank ((Text.isBlankText_iff right).1 hr c hc)

/-! ## The scanner -/

/-- No closing braces begin inside the body that has been read of an open placeholder. -/
def Unclosed (rest : List Char) : Option Opened → Prop
  | none => True
  | some o => ∀ l r, o.body.reverse ++ rest = l ++ closer ++ r → o.body.length ≤ l.length

theorem Unclosed.none (rest : List Char) : Unclosed rest none :=
  trivial

theorem Unclosed.start (rest : List Char) (offset : Nat) : Unclosed rest (some ⟨offset, []⟩) :=
  fun _ _ _ => Nat.zero_le _

theorem Unclosed.cons {o : Opened} {c : Char} {rest : List Char}
    (h : Unclosed (c :: rest) (some o)) (hc : ∀ more, c = '\x7d' → rest = '\x7d' :: more → False) :
    Unclosed rest (some { o with body := c :: o.body }) := by
  intro l r hl
  have he : o.body.reverse ++ c :: rest = l ++ closer ++ r := by simpa using hl
  have hle : o.body.length ≤ l.length := h l r he
  rcases Nat.lt_or_eq_of_le hle with hlt | heq
  · exact hlt
  · rw [List.append_assoc] at he
    obtain ⟨-, hcr⟩ := List.append_inj he (by simpa using heq)
    obtain ⟨hc', hr'⟩ := List.cons.inj hcr
    exact (hc r hc' hr').elim

/-- Whatever closes the placeholder begins after the body that has been read. -/
theorem Unclosed.split {o : Opened} {rest l more : List Char} (h : Unclosed rest (some o))
    (he : o.body.reverse ++ rest = l ++ closer ++ more) :
    ∃ tail, l = o.body.reverse ++ tail ∧ rest = tail ++ closer ++ more := by
  have hle := h l more he
  rw [List.append_assoc] at he
  rcases List.append_eq_append_iff.1 he with ⟨tail, hl, hr⟩ | ⟨tail, hl, hr⟩
  · exact ⟨tail, hl, by simpa using hr⟩
  · have hlen := congrArg List.length hl
    simp only [List.length_reverse, List.length_append] at hlen
    obtain rfl : tail = [] := List.length_eq_zero_iff.1 (by omega)
    exact ⟨[], by simpa using hl.symm, by simpa using hr.symm⟩

/-- A body that runs into a brace is complete: nothing after it belongs to the placeholder. -/
theorem Unclosed.closes_brace {o : Opened} {c : Char} {rest name : List Char}
    (h : Unclosed (c :: rest) (some o)) (hc : c = '\x7b' ∨ c = '\x7d')
    (hn : Closes name (o.body.reverse ++ c :: rest)) :
    c = '\x7d' ∧ name = Text.trim o.body.reverse ∧ isName name = true := by
  obtain ⟨left, right, more, he, hname, hl, hr⟩ := hn
  obtain ⟨tail, hcontent, htail⟩ := h.split he
  cases tail with
  | nil =>
    refine ⟨(List.cons.inj htail).1, ?_, hname⟩
    rw [← trim_blank_name_blank hname hl hr, hcontent, List.append_nil]
  | cons d tail =>
    have hd : d = c := (List.cons.inj htail).1.symm
    have hb := not_brace_of_mem_content hname hl hr d (by rw [hcontent]; simp)
    rcases hc with rfl | rfl
    · exact (hb.1 hd).elim
    · exact (hb.2 hd).elim

theorem Unclosed.not_closes_opener {o : Opened} {rest name : List Char}
    (h : Unclosed ('\x7b' :: rest) (some o)) :
    ¬ Closes name (o.body.reverse ++ '\x7b' :: rest) :=
  fun hn => absurd (h.closes_brace (Or.inl rfl) hn).1 (by decide)

theorem Unclosed.closes_closer_iff {o : Opened} {rest : List Char} (name : List Char)
    (h : Unclosed ('\x7d' :: '\x7d' :: rest) (some o)) :
    Closes name (o.body.reverse ++ '\x7d' :: '\x7d' :: rest) ↔
      name = Text.trim o.body.reverse ∧ isName name = true := by
  constructor
  · exact fun hn => (h.closes_brace (Or.inr rfl) hn).2
  · rintro ⟨rfl, hn⟩
    obtain ⟨left, right, hs, hl, hr⟩ := Text.trim_between_blanks o.body.reverse
    exact ⟨left, right, rest, by rw [← hs]; simp [closer], hn, hl, hr⟩

/-- The openers that a scan may still find to be placeholders: the open one and those to come. -/
def candidates (offset : Nat) (open? : Option Opened) (rest : List Char) :
    List (Nat × List Char) :=
  (open?.map fun o => (o.position, o.body.reverse ++ rest)).toList ++ openersFrom offset rest

theorem candidates_none_opener (offset : Nat) (rest : List Char) :
    candidates offset none ('\x7b' :: '\x7b' :: rest) =
      candidates (offset + 2) (some ⟨offset, []⟩) rest := by
  simp [candidates, openersFrom]

theorem candidates_some_opener (offset : Nat) (o : Opened) (rest : List Char) :
    candidates offset (some o) ('\x7b' :: '\x7b' :: rest) =
      (o.position, o.body.reverse ++ '\x7b' :: '\x7b' :: rest) ::
        candidates (offset + 2) (some ⟨offset, []⟩) rest := by
  simp [candidates, openersFrom]

theorem candidates_some_closer (offset : Nat) (o : Opened) (rest : List Char) :
    candidates offset (some o) ('\x7d' :: '\x7d' :: rest) =
      (o.position, o.body.reverse ++ '\x7d' :: '\x7d' :: rest) ::
        candidates (offset + 2) none rest := by
  simp [candidates, openersFrom]
  rfl

theorem openersFrom_cons {c : Char} {rest : List Char} (offset : Nat)
    (hc : ∀ more, c = '\x7b' → rest = '\x7b' :: more → False) :
    openersFrom offset (c :: rest) = openersFrom (offset + c.utf8Size) rest := by
  rw [openersFrom]
  exact hc

theorem candidates_none_cons {c : Char} {rest : List Char} (offset : Nat)
    (hc : ∀ more, c = '\x7b' → rest = '\x7b' :: more → False) :
    candidates offset none (c :: rest) = candidates (offset + c.utf8Size) none rest := by
  simp [candidates, openersFrom_cons offset hc]

theorem candidates_some_cons {c : Char} {rest : List Char} (offset : Nat) (o : Opened)
    (hc : ∀ more, c = '\x7b' → rest = '\x7b' :: more → False) :
    candidates offset (some o) (c :: rest) =
      candidates (offset + c.utf8Size) (some { o with body := c :: o.body }) rest := by
  simp [candidates, openersFrom_cons offset hc]

theorem exists_mem_cons_iff (P : List Char → Prop) (p : Nat) (x : Nat × List Char)
    (xs : List (Nat × List Char)) :
    (∃ r, (p, r) ∈ x :: xs ∧ P r) ↔ (p = x.1 ∧ P x.2) ∨ ∃ r, (p, r) ∈ xs ∧ P r := by
  constructor
  · rintro ⟨r, hm, hr⟩
    rcases List.mem_cons.1 hm with rfl | hm
    · exact Or.inl ⟨rfl, hr⟩
    · exact Or.inr ⟨r, hm, hr⟩
  · rintro (⟨rfl, hr⟩ | ⟨r, hm, hr⟩)
    · exact ⟨x.2, by simp, hr⟩
    · exact ⟨r, by simp [hm], hr⟩

theorem placeholder_mem_literalOf (text name : List Char) (p : Nat) (source : List Char) :
    .placeholder name p source ∉ literalOf text := by
  unfold literalOf
  split <;> simp

/-- The placeholders that a scan reports are the candidates that close. -/
theorem placeholder_mem_cut_iff {offset : Nat} {text : List Char} {open? : Option Opened}
    {rest : List Char} {ps : List Piece} (hu : Unclosed rest open?)
    (h : cut offset text open? rest = .ok ps) (name : List Char) (p : Nat) :
    (∃ source, .placeholder name p source ∈ ps) ↔
      ∃ r, (p, r) ∈ candidates offset open? rest ∧ Closes name r := by
  fun_induction cut offset text open? rest generalizing ps with
  | case1 offset text =>
    obtain rfl := Except.ok.inj h
    simp [placeholder_mem_literalOf, candidates, openersFrom]
  | case2 offset text o => exact absurd h (by simp)
  | case3 offset text rest ih =>
    rw [candidates_none_opener]
    exact ih (Unclosed.start _ _) h
  | case4 offset text o rest ih =>
    rw [ih (Unclosed.start _ _) h, candidates_some_opener, exists_mem_cons_iff]
    simp [hu.not_closes_opener]
  | case5 offset text o rest trimmed hname =>
    rename_i ih
    obtain ⟨more, hm, rfl⟩ := Except.map_eq_ok_iff.1 h
    rw [candidates_some_closer, exists_mem_cons_iff, hu.closes_closer_iff name, ← ih trivial hm]
    simp only [List.mem_append, List.mem_cons, placeholder_mem_literalOf, false_or]
    constructor
    · rintro ⟨source, hs | hs⟩
      · obtain ⟨rfl, rfl, -⟩ := Piece.placeholder.inj hs
        exact Or.inl ⟨rfl, rfl, hname⟩
      · exact Or.inr ⟨source, hs⟩
    · rintro (⟨rfl, rfl, -⟩ | ⟨source, hs⟩)
      · exact ⟨_, Or.inl rfl⟩
      · exact ⟨source, Or.inr hs⟩
  | case6 offset text o rest trimmed hname =>
    rename_i ih
    rw [ih trivial h, candidates_some_closer, exists_mem_cons_iff, hu.closes_closer_iff name]
    constructor
    · exact Or.inr
    · rintro (⟨-, rfl, hn⟩ | hr)
      · exact (hname hn).elim
      · exact hr
  | case7 offset text c rest hc ih =>
    rw [candidates_none_cons offset hc]
    exact ih trivial h
  | case8 offset text o c rest hc hc' ih =>
    rw [candidates_some_cons offset o hc]
    exact ih (hu.cons hc') h

/-- The last opener of a list has nothing after it that closes it. -/
def Unterminated (xs : List (Nat × List Char)) (p : Nat) : Prop :=
  ∃ r, xs.getLast? = some (p, r) ∧ ¬ closer <:+: r

theorem unterminated_cons_of_ne_nil {xs : List (Nat × List Char)} (h : xs ≠ [])
    (x : Nat × List Char) (p : Nat) : Unterminated (x :: xs) p ↔ Unterminated xs p := by
  obtain ⟨y, ys, rfl⟩ := List.exists_cons_of_ne_nil h
  simp [Unterminated, List.getLast?_cons_cons]

theorem unterminated_cons_of_closed {x : Nat × List Char} (h : closer <:+: x.2)
    (xs : List (Nat × List Char)) (p : Nat) : Unterminated (x :: xs) p ↔ Unterminated xs p := by
  cases xs with
  | nil =>
    simp only [Unterminated, List.getLast?_singleton, Option.some.injEq, List.getLast?_nil,
      reduceCtorEq, false_and, exists_false, iff_false]
    rintro ⟨r, rfl, hr⟩
    exact hr h
  | cons y ys => exact unterminated_cons_of_ne_nil (by simp) x p

theorem Unclosed.end_not_closed {o : Opened} (h : Unclosed [] (some o)) :
    ¬ closer <:+: o.body.reverse := by
  rintro ⟨l, r, hl⟩
  have hle := h l r (by simpa using hl.symm)
  have hlen := congrArg List.length hl
  simp only [List.length_append, List.length_reverse, closer, List.length_cons,
    List.length_nil] at hlen
  omega

/-- A scan fails at its last candidate and only if nothing closes that one. -/
theorem cut_eq_error_iff {offset : Nat} {text : List Char} {open? : Option Opened}
    {rest : List Char} (hu : Unclosed rest open?) (e : Error) :
    cut offset text open? rest = .error e ↔
      ∃ p, e = .unterminatedPlaceholder p ∧ Unterminated (candidates offset open? rest) p := by
  fun_induction cut offset text open? rest with
  | case1 offset text => simp [Unterminated, candidates, openersFrom]
  | case2 offset text o =>
    have hend := hu.end_not_closed
    simp only [Except.error.injEq, Unterminated, candidates, Option.map_some, List.append_nil,
      Option.toList_some, openersFrom, List.getLast?_singleton, Option.some.injEq, Prod.mk.injEq]
    constructor
    · rintro rfl
      exact ⟨o.position, rfl, o.body.reverse, ⟨rfl, rfl⟩, hend⟩
    · rintro ⟨p, rfl, r, ⟨rfl, -⟩, -⟩
      rfl
  | case3 offset text rest ih =>
    rw [candidates_none_opener]
    exact ih (Unclosed.start _ _)
  | case4 offset text o rest ih =>
    have hne : candidates (offset + 2) (some ⟨offset, []⟩) rest ≠ [] := by simp [candidates]
    rw [ih (Unclosed.start _ _), candidates_some_opener]
    simp only [unterminated_cons_of_ne_nil hne]
  | case5 offset text o rest trimmed hname =>
    rename_i ih
    have hcl : closer <:+: o.body.reverse ++ '\x7d' :: '\x7d' :: rest :=
      ⟨o.body.reverse, rest, by simp [closer]⟩
    rw [Except.map_eq_error_iff, ih trivial, candidates_some_closer]
    simp only [unterminated_cons_of_closed (x := (o.position, _)) hcl]
  | case6 offset text o rest trimmed hname =>
    rename_i ih
    have hcl : closer <:+: o.body.reverse ++ '\x7d' :: '\x7d' :: rest :=
      ⟨o.body.reverse, rest, by simp [closer]⟩
    rw [ih trivial, candidates_some_closer]
    simp only [unterminated_cons_of_closed (x := (o.position, _)) hcl]
  | case7 offset text c rest hc ih =>
    rw [candidates_none_cons offset hc]
    exact ih trivial
  | case8 offset text o c rest hc hc' ih =>
    rw [candidates_some_cons offset o hc]
    exact ih (hu.cons hc')

/-! ## Offsets -/

theorem byteLength_eq_zero {s : List Char} (h : byteLength s = 0) : s = [] := by
  cases s with
  | nil => rfl
  | cons c s =>
    have := Char.utf8Size_pos c
    rw [byteLength_cons] at h
    omega

/-- Of two cuts of a text the one at the larger offset comes later. -/
theorem eq_append_of_byteLength_le {a b c d : List Char} (h : a ++ b = c ++ d)
    (hle : byteLength a ≤ byteLength c) : ∃ x, c = a ++ x ∧ b = x ++ d := by
  rcases List.append_eq_append_iff.1 h with ⟨x, hc, hb⟩ | ⟨x, ha, hd⟩
  · exact ⟨x, hc, hb⟩
  · subst ha
    rw [byteLength_append] at hle
    obtain rfl := byteLength_eq_zero (s := x) (by omega)
    exact ⟨[], by simp, by simpa using hd.symm⟩

theorem OpensAt.closed_iff {template r : List Char} {p : Nat} (h : OpensAt template p r) :
    closer <:+: r ↔ ∃ q, StandsAt closer template q ∧ p + 2 ≤ q := by
  obtain ⟨before, rfl, rfl, -⟩ := h
  constructor
  · rintro ⟨l, more, rfl⟩
    refine ⟨byteLength (before ++ opener ++ l), ⟨before ++ opener ++ l, more, by simp, rfl⟩, ?_⟩
    simp only [byteLength_append, byteLength_opener]
    omega
  · rintro ⟨q, ⟨l, more, ht, rfl⟩, hle⟩
    rw [List.append_assoc l] at ht
    obtain ⟨x, -, hr⟩ := eq_append_of_byteLength_le ht (by simpa using hle)
    exact ⟨x, more, by rw [hr]; simp⟩

theorem le_last_opener {template : List Char} {last : Nat × List Char}
    (h : (openersFrom 0 template).getLast? = some last) {q : Nat} (hq : LiveOpener template q) :
    q ≤ last.1 := by
  obtain ⟨r, hr⟩ := hq
  have hm : (q, r) ∈ openersFrom 0 template := (opensAt_iff_mem template q r).1 hr
  have hi := openersFrom_increasing 0 template
  obtain ⟨front, hf⟩ := List.getLast?_eq_some_iff.1 h
  rw [hf] at hm hi
  rcases List.mem_append.1 hm with hm | hm
  · exact Nat.le_of_lt ((List.pairwise_append.1 hi).2.2 _ hm last (by simp))
  · exact Nat.le_of_eq (congrArg Prod.fst (List.mem_singleton.1 hm))

/-- The last live opener, told without the list of all. -/
theorem unterminated_openersFrom_iff (template : List Char) (p : Nat) :
    Unterminated (openersFrom 0 template) p ↔
      LiveOpener template p ∧ (∀ q, LiveOpener template q → q ≤ p) ∧
        ∀ q, StandsAt closer template q → q < p + 2 := by
  constructor
  · rintro ⟨r, hlast, hr⟩
    have hp : OpensAt template p r :=
      (opensAt_iff_mem template p r).2 (List.mem_of_getLast? hlast)
    refine ⟨⟨r, hp⟩, fun q hq => le_last_opener hlast hq, fun q hq => ?_⟩
    exact Nat.lt_of_not_le fun hle => hr (hp.closed_iff.2 ⟨q, hq, hle⟩)
  · rintro ⟨⟨r, hp⟩, hmax, hclosed⟩
    have hm : (p, r) ∈ openersFrom 0 template := (opensAt_iff_mem template p r).1 hp
    obtain ⟨last, hlast⟩ : ∃ last, (openersFrom 0 template).getLast? = some last :=
      ⟨_, List.getLast?_eq_some_getLast (List.ne_nil_of_mem hm)⟩
    have hl : OpensAt template last.1 last.2 :=
      (opensAt_iff_mem template _ _).2 (List.mem_of_getLast? hlast)
    obtain rfl : last.1 = p := Nat.le_antisymm (hmax _ ⟨_, hl⟩) (le_last_opener hlast ⟨r, hp⟩)
    refine ⟨last.2, hlast, fun hcl => ?_⟩
    obtain ⟨q, hq, hle⟩ := hl.closed_iff.1 hcl
    exact absurd (hclosed q hq) (Nat.not_lt.2 hle)

/-- A scan fails exactly at a last live opener that is never closed, and otherwise its placeholders
are the live openers that blanks, a name, blanks and closing braces follow. -/
theorem pieces_eq_local_rule (template : List Char) :
    (∀ e, pieces template = .error e → ∃ p, e = .unterminatedPlaceholder p) ∧
      (∀ p, pieces template = .error (.unterminatedPlaceholder p) ↔
        LiveOpener template p ∧ (∀ q, LiveOpener template q → q ≤ p) ∧
          ∀ q, StandsAt closer template q → q < p + 2) ∧
      ∀ ps, pieces template = .ok ps → ∀ name p,
        (∃ source, .placeholder name p source ∈ ps) ↔
          ∃ rest, OpensAt template p rest ∧ Closes name rest := by
  refine ⟨fun e he => ?_, fun p => ?_, fun ps hps name p => ?_⟩
  · obtain ⟨p, hp, -⟩ := (cut_eq_error_iff (Unclosed.none _) e).1 he
    exact ⟨p, hp⟩
  · rw [pieces, cut_eq_error_iff (Unclosed.none _), ← unterminated_openersFrom_iff]
    constructor
    · rintro ⟨q, hq, hu⟩
      obtain rfl := Error.unterminatedPlaceholder.inj hq
      exact hu
    · exact fun hu => ⟨p, rfl, hu⟩
  · rw [placeholder_mem_cut_iff (Unclosed.none _) hps name p]
    simp only [opensAt_iff_mem]
    rfl

/-- An odd run of braces and a two-byte character before a placeholder, and an opener left open. -/
theorem pieces_eq_local_rule_at_odd_run :
    (∃ rest, OpensAt "é\x7b\x7b\x7bx\x7d\x7d\x7b\x7b b \x7d\x7d".toList 8 rest ∧
      Closes ['b'] rest) ∧ LiveOpener "\x7b\x7ba\x7d\x7d \x7b\x7b b".toList 6 := by
  have hb := (pieces_eq_local_rule "é\x7b\x7b\x7bx\x7d\x7d\x7b\x7b b \x7d\x7d".toList).2.2
    [.literal "é\x7b\x7b\x7bx\x7d\x7d".toList,
      .placeholder ['b'] 8 "\x7b\x7b b \x7d\x7d".toList] (by rfl) ['b'] 8
  have ha := (pieces_eq_local_rule "\x7b\x7ba\x7d\x7d \x7b\x7b b".toList).2.1 6
  exact ⟨hb.1 ⟨"\x7b\x7b b \x7d\x7d".toList, by simp⟩, (ha.1 (by rfl)).1⟩

end AgentPrompt.Template
