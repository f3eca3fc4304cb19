import AgentPrompt.Settings
import Mathlib.Data.List.Basic

namespace AgentPrompt
namespace Path

variable {a b p : List Char}

/-- A path as it stands in front of a name: with a slash at its end, unless it is empty. -/
def asDirectory (base : List Char) : List Char :=
  if base.isEmpty || base.getLast? = some '/' then base else base ++ ['/']

theorem asDirectory_nil : asDirectory [] = [] :=
  rfl

theorem asDirectory_of_slash (h : b.getLast? = some '/') : asDirectory b = b := by
  simp [asDirectory, h]

theorem asDirectory_of_name (hne : b ≠ []) (h : b.getLast? ≠ some '/') :
    asDirectory b = b ++ ['/'] := by
  simp [asDirectory, hne, h]

theorem asDirectory_eq_nil_iff : asDirectory b = [] ↔ b = [] := by
  unfold asDirectory
  split
  · exact Iff.rfl
  · rename_i h
    simp only [Bool.or_eq_true, List.isEmpty_iff, not_or] at h
    simp [h.1]

theorem asDirectory_asDirectory (b : List Char) : asDirectory (asDirectory b) = asDirectory b := by
  by_cases hne : b = []
  · subst hne
    rfl
  · by_cases h : b.getLast? = some '/'
    · rw [asDirectory_of_slash h, asDirectory_of_slash h]
    · rw [asDirectory_of_name hne h]
      exact asDirectory_of_slash List.getLast?_concat

theorem asDirectory_append (a b : List Char) :
    asDirectory (asDirectory a ++ b) = asDirectory a ++ asDirectory b := by
  by_cases hne : b = []
  · subst hne
    rw [asDirectory_nil, List.append_nil, asDirectory_asDirectory]
  · -- The end of the whole is the end of what stands last.
    have hlast : (asDirectory a ++ b).getLast? = b.getLast? :=
      List.getLast?_append_of_ne_nil _ hne
    by_cases h : b.getLast? = some '/'
    · rw [asDirectory_of_slash h, asDirectory_of_slash (hlast.trans h)]
    · have hwhole : asDirectory a ++ b ≠ [] := List.append_ne_nil_of_right_ne_nil _ hne
      rw [asDirectory_of_name hne h, asDirectory_of_name hwhole (hlast ▸ h), List.append_assoc]

theorem isAbsolute_asDirectory_append (hp : isAbsolute p = false) (b : List Char) :
    isAbsolute (asDirectory b ++ p) = isAbsolute b := by
  cases b with
  | nil => exact hp
  | cons c b =>
    unfold asDirectory
    split <;> rfl

theorem join_of_absolute (hp : isAbsolute p = true) (b : List Char) : join b p = p := by
  rw [join, if_pos hp]

theorem join_of_relative (hp : isAbsolute p = false) (b : List Char) :
    join b p = asDirectory b ++ p := by
  simp only [join, hp, asDirectory, Bool.false_eq_true, if_false]
  split
  · rfl
  · rw [List.append_assoc, List.singleton_append]

theorem isAbsolute_join_of_relative (hp : isAbsolute p = false) (b : List Char) :
    isAbsolute (join b p) = isAbsolute b := by
  rw [join_of_relative hp, isAbsolute_asDirectory_append hp]

/-- A path from a base that is itself taken from a base. -/
theorem join_join (a b p : List Char) : join a (join b p) = join (join a b) p := by
  cases hp : isAbsolute p with
  | true => rw [join_of_absolute hp b, join_of_absolute hp, join_of_absolute hp]
  | false =>
    have hjoined : isAbsolute (join b p) = isAbsolute b := isAbsolute_join_of_relative hp b
    cases hb : isAbsolute b with
    | true => rw [join_of_absolute (hjoined.trans hb), join_of_absolute hb]
    | false =>
      calc join a (join b p) = asDirectory a ++ (asDirectory b ++ p) := by
            rw [join_of_relative (hjoined.trans hb), join_of_relative hp]
        _ = asDirectory (asDirectory a ++ b) ++ p := by
            rw [asDirectory_append, List.append_assoc]
        _ = join (join a b) p := by
            rw [join_of_relative hp, join_of_relative hb]

theorem join_eq_nil_iff : join b p = [] ↔ b = [] ∧ p = [] := by
  cases hp : isAbsolute p with
  | true =>
    have hne : p ≠ [] := by
      intro h
      rw [h] at hp
      cases hp
    simp [join_of_absolute hp, hne]
  | false => simp [join_of_relative hp, asDirectory_eq_nil_iff]

end Path

namespace Settings

theorem resolvePath_resolvePath (b₁ b₂ path : String) :
    resolvePath b₂ (resolvePath b₁ path) = resolvePath (resolvePath b₂ b₁) path := by
  simp only [resolvePath, String.toList_ofList, Path.join_join]

theorem resolvePath_of_absolute {path : String} (h : Path.isAbsolute path.toList = true)
    (base : String) : resolvePath base path = path := by
  rw [resolvePath, Path.join_of_absolute h, String.ofList_toList]

theorem resolvePath_eq_empty_iff {base path : String} :
    resolvePath base path = "" ↔ base = "" ∧ path = "" := by
  rw [← String.toList_eq_nil_iff, resolvePath, String.toList_ofList, Path.join_eq_nil_iff,
    String.toList_eq_nil_iff, String.toList_eq_nil_iff]

theorem resolvePaths_resolvePaths (s : Settings) (b₁ b₂ : String) :
    (s.resolvePaths b₁).resolvePaths b₂ = s.resolvePaths (resolvePath b₂ b₁) := by
  have hcomp : resolvePath b₂ ∘ resolvePath b₁ = resolvePath (resolvePath b₂ b₁) :=
    funext (resolvePath_resolvePath b₁ b₂)
  simp only [resolvePaths, Option.map_map, hcomp]

theorem paths_resolvePaths (s : Settings) (base : String) :
    (s.resolvePaths base).paths = s.paths.map fun p => (p.1, p.2.map (resolvePath base)) :=
  rfl

theorem validate_eq_ok_iff {s : Settings} :
    s.validate = .ok () ↔
      (∀ p ∈ s.paths, p.2 ≠ some "") ∧
        ∀ n ∈ s.enabledTools.getD [], Text.isBlankText n.toList = false := by
  have hpaths : (∀ p ∈ s.paths, p.2 ≠ some "") ↔ (s.paths.find? fun p => p.2 == some "") = none := by
    simp [List.find?_eq_none]
  have hnames : (∀ n ∈ s.enabledTools.getD [], Text.isBlankText n.toList = false) ↔
      ((s.enabledTools.getD []).any fun n => Text.isBlankText n.toList) = false := by
    simp [List.any_eq_false]
  rw [hpaths, hnames, validate, fault?]
  cases s.paths.find? fun p => p.2 == some "" with
  | some p => simp
  | none => cases (s.enabledTools.getD []).any fun n => Text.isBlankText n.toList <;> simp

/-- A path that is not empty does not become empty, whatever it is taken from. -/
theorem validate_resolvePaths {s : Settings} (h : s.validate = .ok ()) (base : String) :
    (s.resolvePaths base).validate = .ok () := by
  obtain ⟨hpaths, hnames⟩ := validate_eq_ok_iff.1 h
  refine validate_eq_ok_iff.2 ⟨fun p hp hempty => ?_, hnames⟩
  rw [paths_resolvePaths] at hp
  obtain ⟨⟨name, v⟩, hv, rfl⟩ := List.mem_map.1 hp
  obtain ⟨path, rfl, hpath⟩ := Option.map_eq_some_iff.1 hempty
  obtain ⟨-, rfl⟩ := resolvePath_eq_empty_iff.1 hpath
  exact hpaths _ hv rfl

/-- Settings taken from one base and then from another are those taken from the two bases joined. Every
path is taken alike: it is left as it is if it is absolute, and stands behind the base otherwise. All
other settings stay, and nothing becomes wrong with them. -/
theorem resolvePaths_composes (s : Settings) (b₁ b₂ : String) :
    (s.resolvePaths b₁).resolvePaths b₂ =
      s.resolvePaths (String.ofList (Path.join b₂.toList b₁.toList)) ∧
    (Path.isAbsolute b₁.toList = true →
      (s.resolvePaths b₁).resolvePaths b₂ = s.resolvePaths b₁) ∧
    (s.resolvePaths b₁).paths = s.paths.map (fun p => (p.1, p.2.map (resolvePath b₁))) ∧
    (∀ path : String,
      (Path.isAbsolute path.toList = true → resolvePath b₁ path = path) ∧
      (Path.isAbsolute path.toList = false →
        (resolvePath b₁ path).toList = Path.asDirectory b₁.toList ++ path.toList)) ∧
    { s.resolvePaths b₁ with
      templateFile := s.templateFile
      toolsFile := s.toolsFile
      agentRulesFile := s.agentRulesFile } = s ∧
    (s.validate = .ok () → (s.resolvePaths b₁).validate = .ok ()) := by
  refine ⟨s.resolvePaths_resolvePaths b₁ b₂, fun h => ?_, s.paths_resolvePaths b₁,
    fun path => ⟨fun h => resolvePath_of_absolute h b₁, fun h => ?_⟩, rfl,
    fun h => validate_resolvePaths h b₁⟩
  · rw [resolvePaths_resolvePaths, resolvePath_of_absolute h]
  · rw [resolvePath, String.toList_ofList, Path.join_of_relative h]

/-- A relative path, an absolute one and one that ends in a slash, from an empty base, a relative one
and one with a slash at its end. -/
theorem resolvePaths_composes_mixed :
    let s : Settings :=
      { templateFile := some "t.md", toolsFile := some "/lib/tools.yaml",
        agentRulesFile := some "rules/", enabledTools := some ["read"], shell := some "sh" }
    let fromConf : Settings :=
      { s with templateFile := some "/etc/conf/t.md", agentRulesFile := some "/etc/conf/rules/" }
    (s.resolvePaths "conf/").resolvePaths "/etc" = fromConf ∧
      s.resolvePaths "/etc/conf/" = fromConf ∧
      fromConf.resolvePaths "other" = fromConf ∧
      (s.resolvePaths "").resolvePaths "conf" = s.resolvePaths "conf/" ∧
      s.validate = .ok () ∧ fromConf.validate = .ok () := by
  intro s fromConf
  have hjoined : s.resolvePaths "/etc/conf/" = fromConf := by decide
  obtain ⟨hone, -, -, -, -, -⟩ := resolvePaths_composes s "conf/" "/etc"
  obtain ⟨-, habsolute, -, -, -, hvalid⟩ := resolvePaths_composes s "/etc/conf/" "other"
  obtain ⟨hempty, -, -, -, -, -⟩ := resolvePaths_composes s "" "conf"
  refine ⟨hone.trans hjoined, hjoined, hjoined ▸ habsolute (by decide), hempty, by decide,
    hjoined ▸ hvalid (by decide)⟩

end Settings
end AgentPrompt
