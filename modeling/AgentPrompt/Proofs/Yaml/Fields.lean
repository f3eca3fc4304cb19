import AgentPrompt.Proofs.Yaml.Steps

/-! A document of printed fields is read back in three stages: first its tokens, from these its
nodes, and from these the values. -/
namespace AgentPrompt.Yaml

/-- What a field is printed for. -/
inductive Content where
  | text (s : String)
  | list (items : List String)

namespace Content

def field (name : String) : Content → List Char
  | text s => fieldText name s
  | list items => listFieldText name items

def entries (items : List String) : List Char :=
  items.flatMap fun s => '-' :: ' ' :: scalarText s.toList

def scalar (s : String) : Token :=
  .scalar (styleOf s.toList) s.toList

def entryTokens (items : List String) : List Token :=
  items.flatMap fun s => [.blockEntry, scalar s]

def tokens : Content → List Token
  | text s => [scalar s]
  | list [] => [.flowSequenceStart, .flowSequenceEnd]
  | list items => entryTokens items

def fieldTokens (name : String) (c : Content) : List Token :=
  .key :: .scalar .plain name.toList :: .value :: c.tokens

theorem entries_cons_append (s : String) (items : List String) (rest : List Char) :
    entries (s :: items) ++ rest =
      '-' :: ' ' :: (scalarText s.toList ++ (entries items ++ rest)) := by
  simp [entries]

theorem entryTokens_cons (s : String) (items : List String) :
    entryTokens (s :: items) = .blockEntry :: scalar s :: entryTokens items := by
  simp [entryTokens]

end Content

section
open Lexer Content
variable {inside : Bool} {ts : List Token} {x : Lexer} {rest : List Char}

theorem LineStart.entries (hline : LineStart rest) (items : List String) :
    LineStart (entries items ++ rest) := by
  cases items with
  | nil => exact hline
  | cons s items =>
    rw [entries_cons_append]
    rintro c ⟨⟩
    exact Or.inr rfl

theorem exists_step_entries (hline : LineStart rest) (items : List String)
    (h : AtLine true ts (entries items ++ rest) x) :
    ∃ n y, n ≤ (entries items).length ∧ Reaches x n y ∧
      AtLine true ((entryTokens items).reverse ++ ts) rest y := by
  induction items generalizing ts x with
  | nil => exact ⟨0, x, Nat.le_refl _, .refl x, h⟩
  | cons s items ih =>
    rw [entries_cons_append] at h
    obtain ⟨y, hxy, hy, hcursor⟩ := h.step_entry
    obtain ⟨z, hyz, hz⟩ := hy.step_scalar (hline.entries items) s.toList hcursor
    obtain ⟨n, w, hn, hzw, hw⟩ := ih hz
    refine ⟨1 + 1 + n, w, ?_, (hxy.trans hyz).trans hzw, ?_⟩
    · have hlength := congrArg List.length (entries_cons_append s items [])
      simp only [List.append_nil, List.length_cons, List.length_append] at hlength
      omega
    · simpa [entryTokens_cons, scalar] using hw

/-- A name and the colon behind it are two steps. -/
theorem exists_step_key {name : List Char} (hname : IsKey name) (hblank : startsBlank rest)
    (h : AtLine inside ts (name ++ ':' :: rest) x) :
    ∃ y, Reaches x (1 + 1) y ∧
      Stands true (.value :: .scalar .plain name :: .key :: opened inside ts) y ∧
      y.cursor.rest = rest := by
  obtain ⟨y, hxy, hy⟩ := h.step_name hname hblank
  obtain ⟨z, hyz, hz⟩ := hy.step_colon hblank
  exact ⟨z, hxy.trans hyz, hz⟩

/-- A field is read up to the line behind it, in no more steps than it has characters. -/
theorem exists_step_field {name : String} (hname : IsKey name.toList) (hline : LineStart rest)
    (c : Content) (h : AtLine inside ts (c.field name ++ rest) x) :
    ∃ n y, n ≤ (c.field name).length ∧ Reaches x n y ∧
      AtLine true ((c.fieldTokens name).reverse ++ opened inside ts) rest y := by
  cases c with
  | text s =>
    have htext : field name (text s) ++ rest =
        name.toList ++ ':' :: ' ' :: (scalarText s.toList ++ rest) := by
      simp [field, fieldText]
    rw [htext] at h
    obtain ⟨y, hxy, hy, hcursor⟩ := exists_step_key hname (by simp [startsBlank, isBlank]) h
    obtain ⟨z, hyz, hz⟩ := hy.step_scalar hline s.toList hcursor
    refine ⟨1 + 1 + 1, z, ?_, hxy.trans hyz, ?_⟩
    · have hlength := List.length_pos_iff.2 hname.ne_nil
      simp only [field, fieldText, List.length_append, List.length_cons]
      omega
    · simpa [fieldTokens, Content.tokens, scalar] using hz
  | list items =>
    cases items with
    | nil =>
      have htext : field name (list []) ++ rest =
          name.toList ++ ':' :: (" []\n".toList ++ rest) := by
        simp [field, listFieldText]
      rw [htext] at h
      obtain ⟨y, hxy, hy, hcursor⟩ := exists_step_key hname (by simp [startsBlank, isBlank]) h
      obtain ⟨z, hyz, hz⟩ := hy.step_empty hline hcursor
      refine ⟨1 + 1 + 2, z, ?_, hxy.trans hyz, by simpa [fieldTokens, Content.tokens] using hz⟩
      simp [field, listFieldText]
    | cons s items =>
      have htext : field name (list (s :: items)) ++ rest =
          name.toList ++ ':' :: '\n' :: (entries (s :: items) ++ rest) := by
        simp [field, listFieldText, entries]
      rw [htext] at h
      obtain ⟨y, hxy, hy, hcursor⟩ := exists_step_key hname (by simp [startsBlank, isBreak]) h
      have hy := hy.atLine_newline (hline.entries (s :: items)) hcursor
      obtain ⟨n, z, hn, hyz, hz⟩ := exists_step_entries hline (s :: items) hy
      refine ⟨1 + 1 + n, z, ?_, hxy.trans hyz, by simpa [fieldTokens, Content.tokens] using hz⟩
      have hlength := congrArg List.length htext
      simp only [List.length_append, List.length_cons] at hlength
      omega

def fieldsText (fields : List (String × Content)) : List Char :=
  fields.flatMap fun f => f.2.field f.1

theorem lineStart_fieldsText {fields : List (String × Content)}
    (hnames : ∀ f ∈ fields, IsKey f.1.toList) : LineStart (fieldsText fields) := by
  cases fields with
  | nil => rintro c ⟨⟩
  | cons f fields =>
    have hname := hnames f List.mem_cons_self
    obtain ⟨c, more, hc⟩ := List.exists_cons_of_ne_nil hname.ne_nil
    have hhead : ∃ rest, fieldsText (f :: fields) = c :: rest := by
      obtain ⟨name, content⟩ := f
      cases content with
      | text s => exact ⟨_, by simp [fieldsText, field, fieldText, hc]; rfl⟩
      | list items =>
        cases items with
        | nil => exact ⟨_, by simp [fieldsText, field, listFieldText, hc]; rfl⟩
        | cons s items => exact ⟨_, by simp [fieldsText, field, listFieldText, hc]; rfl⟩
    obtain ⟨rest, hrest⟩ := hhead
    rw [hrest]
    rintro d ⟨⟩
    exact Or.inl (hname.chars c (hc ▸ List.mem_cons_self))

def fieldsTokens (fields : List (String × Content)) : List Token :=
  fields.flatMap fun f => f.2.fieldTokens f.1

theorem exists_step_fields {fields : List (String × Content)}
    (hnames : ∀ f ∈ fields, IsKey f.1.toList) (h : AtLine true ts (fieldsText fields) x) :
    ∃ n y, n ≤ (fieldsText fields).length ∧ Reaches x n y ∧
      AtLine true ((fieldsTokens fields).reverse ++ ts) [] y := by
  induction fields generalizing ts x with
  | nil => exact ⟨0, x, Nat.le_refl _, .refl x, h⟩
  | cons f fields ih =>
    obtain ⟨hname, hmore⟩ := List.forall_mem_cons.1 hnames
    obtain ⟨m, y, hm, hxy, hy⟩ := exists_step_field hname (lineStart_fieldsText hmore) f.2 h
    obtain ⟨n, z, hn, hyz, hz⟩ := ih hmore hy
    refine ⟨m + n, z, ?_, hxy.trans hyz, by simpa [fieldsTokens, opened] using hz⟩
    simp only [fieldsText, List.flatMap_cons, List.length_append] at hn ⊢
    omega

/-- The lexer before the first character of a text. -/
theorem atLine_start {s : List Char} (hline : LineStart s) :
    AtLine false [] s { cursor := { rest := s } } :=
  Stands.atLine ⟨rfl, rfl, rfl, rfl, rfl, by simp⟩ hline rfl rfl rfl

theorem run_fieldsText {fields : List (String × Content)} (hne : fields ≠ [])
    (hnames : ∀ f ∈ fields, IsKey f.1.toList) :
    run ((fieldsText fields).length + 1) { cursor := { rest := fieldsText fields } } =
      .ok (.blockMappingStart :: fieldsTokens fields ++ [.blockEnd, .streamEnd]) := by
  obtain ⟨f, fields, rfl⟩ := List.exists_cons_of_ne_nil hne
  obtain ⟨hname, hmore⟩ := List.forall_mem_cons.1 hnames
  obtain ⟨m, y, hm, hxy, hy⟩ := exists_step_field hname (lineStart_fieldsText hmore) f.2
    (atLine_start (lineStart_fieldsText hnames))
  obtain ⟨n, z, hn, hyz, hz⟩ := exists_step_fields hmore hy
  obtain ⟨k, hk⟩ : ∃ k, (fieldsText (f :: fields)).length + 1 = k + 1 + (m + n) := by
    have hlength : (fieldsText (f :: fields)).length =
        (f.2.field f.1).length + (fieldsText fields).length := by
      simp [fieldsText]
    exact ⟨(fieldsText (f :: fields)).length - (m + n), by omega⟩
  rw [hk]
  refine ((hxy.trans hyz) (k + 1)).trans ?_
  rw [hz.run_end k]
  simp [fieldsTokens, opened]

/-! ## The whole document -/

theorem kept_scalarText (s : List Char) : ∀ c ∈ scalarText s, Kept c := by
  have hmarks : ∀ c ∈ ['\n', '\'', '"', '|', '2', '-', '+'], Kept c := kept_of_all (by decide)
  simp only [List.forall_mem_cons] at hmarks
  obtain ⟨hline, hsingle, hdouble, hbar, htwo, hstrip, hkeep, -⟩ := hmarks
  rcases styleOf_cases s with ⟨hstyle, hs⟩ | ⟨hstyle, hs⟩ | hstyle | ⟨hstyle, hs⟩
  · rw [scalarText_plain hstyle, List.forall_mem_append]
    exact ⟨fun c hc => kept_of_isWritable (hs.writable c hc), by simpa using hline⟩
  · rw [scalarText_single hstyle, List.forall_mem_append, List.forall_mem_cons]
    exact ⟨⟨hsingle, kept_singleText hs.writable false⟩, by simp [hsingle, hline]⟩
  · rw [scalarText_double hstyle, List.forall_mem_append, List.forall_mem_cons]
    refine ⟨⟨hdouble, fun c hc => ?_⟩, by simp [hdouble, hline]⟩
    obtain ⟨d, -, hd⟩ := List.mem_flatMap.1 hc
    exact (escaped_doubleChar d).kept c hd
  · have hheader : ∀ c ∈ (if hidesIndentation s then ['2'] else []) ++ chompMarks (chompOf s),
        Kept c := by
      cases hidesIndentation s <;> cases chompOf s <;> simp [chompMarks, htwo, hstrip, hkeep]
    rw [scalarText_literal hstyle, literalMarks_eq hs.writable, List.forall_mem_append,
      List.forall_mem_cons, List.forall_mem_cons]
    exact ⟨⟨hbar, hheader⟩, hline, kept_literalText hs.writable true⟩

theorem kept_field {name : String} (hname : IsKey name.toList) (c : Content) :
    ∀ d ∈ c.field name, Kept d := by
  have hmarks : ∀ d ∈ [':', ' ', '[', ']', '\n', '-'], Kept d := kept_of_all (by decide)
  simp only [List.forall_mem_cons] at hmarks
  obtain ⟨hcolon, hspace, hopen, hclose, hline, hdash, -⟩ := hmarks
  have hkey : ∀ d ∈ name.toList, Kept d := fun d hd =>
    kept_of_isWritable (hname.isBare.writable d hd)
  cases c with
  | text s =>
    rw [field, fieldText, List.forall_mem_append, List.forall_mem_cons, List.forall_mem_cons]
    exact ⟨hkey, hcolon, hspace, kept_scalarText s.toList⟩
  | list items =>
    cases items with
    | nil =>
      rw [field, listFieldText, List.forall_mem_append]
      exact ⟨hkey, by simp [hcolon, hspace, hopen, hclose, hline]⟩
    | cons s items =>
      have hentries : ∀ items : List String, ∀ d ∈ entries items, Kept d := by
        intro items d hd
        obtain ⟨s, -, hs⟩ := List.mem_flatMap.1 hd
        have hentry : ∀ d ∈ '-' :: ' ' :: scalarText s.toList, Kept d :=
          List.forall_mem_cons.2 ⟨hdash, List.forall_mem_cons.2 ⟨hspace, kept_scalarText s.toList⟩⟩
        exact hentry d hs
      rw [field, listFieldText, List.forall_mem_append, List.forall_mem_cons, List.forall_mem_cons]
      · exact ⟨hkey, hcolon, hline, hentries (s :: items)⟩
      · simp

/-- A printed document is cut into the tokens of its fields. -/
theorem tokens_fieldsText {fields : List (String × Content)} (hne : fields ≠ [])
    (hnames : ∀ f ∈ fields, IsKey f.1.toList) :
    Yaml.tokens (fieldsText fields) =
      .ok (.blockMappingStart :: fieldsTokens fields ++ [.blockEnd, .streamEnd]) := by
  have hkept : ∀ c ∈ fieldsText fields, Kept c := by
    intro c hc
    obtain ⟨f, hf, hc⟩ := List.mem_flatMap.1 hc
    exact kept_field (hnames f hf) f.2 c hc
  rw [Yaml.tokens, source_of_kept hkept]
  exact run_fieldsText hne hnames

end
end AgentPrompt.Yaml
