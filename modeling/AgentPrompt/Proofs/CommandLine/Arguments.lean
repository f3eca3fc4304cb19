import AgentPrompt.CommandLine.Request
import AgentPrompt.Proofs.Except

/-! The arguments of the tools command name the same sources to every other command. -/
namespace AgentPrompt.CommandLine

variable {g g' : Given} {f : Flag} {waiting : Option Flag}

theorem Given.operands_add {value : String} (h : g.add f value = .ok g') :
    g'.operands = g.operands := by
  unfold add at h
  split at h
  · cases h
  · obtain rfl := Except.ok.inj h
    rfl

theorem Given.operands_switch (h : g.switch f = .ok g') : g'.operands = g.operands := by
  unfold switch at h
  split at h
  · cases h
  · cases h
  · exact operands_add h

section
variable {flags flags' : List Flag} (hflags : flags <+: flags') {r : Given × Option Flag}
include hflags

theorem readLong_mono {name : List Char} {value : Option (List Char)}
    (h : readLong flags g name value = .ok r) : readLong flags' g name value = .ok r := by
  unfold readLong at h ⊢
  cases hf : findLong? flags name with
  | none =>
    rw [hf] at h
    cases h
  | some f =>
    have hf' : findLong? flags' name = some f := hflags.find?_eq_some hf
    rw [hf] at h
    rw [hf']
    exact h

theorem readLetters_mono {letters : List Char} (h : readLetters flags g letters = .ok r) :
    readLetters flags' g letters = .ok r := by
  induction letters generalizing g with
  | nil => exact h
  | cons letter rest ih =>
    rw [readLetters] at h ⊢
    cases hf : findLetter? flags letter with
    | none =>
      rw [hf] at h
      cases h
    | some f =>
      have hf' : findLetter? flags' letter = some f := hflags.find?_eq_some hf
      rw [hf] at h
      rw [hf']
      simp only at h ⊢
      by_cases hswitch : f.isSwitch = true
      · rw [if_pos hswitch] at h ⊢
        obtain ⟨g₁, hg₁, h⟩ := Except.bind_eq_ok_iff.1 h
        exact Except.bind_eq_ok_iff.2 ⟨g₁, hg₁, ih h⟩
      · rw [if_neg hswitch] at h ⊢
        exact h

end

theorem operands_readLetters {flags : List Flag} {letters : List Char}
    (h : readLetters flags g letters = .ok (g', waiting)) : g'.operands = g.operands := by
  induction letters generalizing g with
  | nil =>
    obtain ⟨rfl, -⟩ := Prod.mk.inj (Except.ok.inj h)
    rfl
  | cons letter rest ih =>
    rw [readLetters] at h
    split at h
    · cases h
    split at h
    · obtain ⟨g₁, hswitch, h⟩ := Except.bind_eq_ok_iff.1 h
      exact (ih h).trans (Given.operands_switch hswitch)
    split at h
    · obtain ⟨rfl, -⟩ := Prod.mk.inj (Except.ok.inj h)
      rfl
    all_goals
      obtain ⟨g₁, hadd, h⟩ := Except.bind_eq_ok_iff.1 h
      obtain ⟨rfl, -⟩ := Prod.mk.inj (Except.ok.inj h)
      exact Given.operands_add hadd

theorem operands_readLong {flags : List Flag} {name : List Char} {value : Option (List Char)}
    (h : readLong flags g name value = .ok (g', waiting)) : g'.operands = g.operands := by
  unfold readLong at h
  split at h
  · cases h
  split at h
  · obtain ⟨g₁, hswitch, h⟩ := Except.bind_eq_ok_iff.1 h
    obtain ⟨rfl, -⟩ := Prod.mk.inj (Except.ok.inj h)
    exact Given.operands_switch hswitch
  · cases h
  · obtain ⟨rfl, -⟩ := Prod.mk.inj (Except.ok.inj h)
    rfl
  · obtain ⟨g₁, hadd, h⟩ := Except.bind_eq_ok_iff.1 h
    obtain ⟨rfl, -⟩ := Prod.mk.inj (Except.ok.inj h)
    exact Given.operands_add hadd

theorem Word.eq_divider {s : String} (h : Word.ofText s.toList = .divider) : s = "--" := by
  unfold ofText at h
  split at h
  · rw [String.ext_iff]
    assumption
  all_goals cases h

theorem Word.ofText_eq_operand {s : List Char} (h : ∀ rest, s ≠ '-' :: rest) :
    ofText s = .operand := by
  unfold ofText
  split
  · exact absurd rfl (h _)
  · exact absurd rfl (h _)
  · rfl
  · exact absurd rfl (h _)
  · rfl

theorem tools_flags_le (c : Command) : Command.tools.flags <+: c.flags := by
  cases c <;> decide

/-- Every command knows the options of the tools command. Without a divider, what that one has read is
what any other goes on from. -/
theorem readArguments_append (c : Command) {args : List String} (hdivider : "--" ∉ args)
    (h : readArguments .tools g waiting true args = .ok g') :
    g'.operands = g.operands ∧ ∀ more : List String,
      readArguments c g waiting true (args ++ more) = readArguments c g' none true more := by
  induction args generalizing g waiting with
  | nil =>
    cases waiting with
    | none =>
      obtain rfl := Except.ok.inj h
      exact ⟨rfl, fun _ => rfl⟩
    | some f => cases h
  | cons s args ih =>
    obtain ⟨hs, hdivider⟩ := not_or.1 (mt List.mem_cons.2 hdivider)
    simp only [List.cons_append, readArguments, if_true] at h ⊢
    cases waiting with
    | some f =>
      simp only at h ⊢
      split at h
      · obtain ⟨g₁, hadd, h⟩ := Except.bind_eq_ok_iff.1 h
        obtain ⟨hoperands, hmore⟩ := ih hdivider h
        refine ⟨hoperands.trans (Given.operands_add hadd), fun more => ?_⟩
        rw [if_pos ‹_›, hadd]
        exact hmore more
      · cases h
    | none =>
      cases hword : Word.ofText s.toList with
      | divider => exact absurd (Word.eq_divider hword).symm hs
      | long name value =>
        simp only [hword] at h ⊢
        obtain ⟨⟨g₁, waiting₁⟩, hlong, h⟩ := Except.bind_eq_ok_iff.1 h
        obtain ⟨hoperands, hmore⟩ := ih hdivider h
        refine ⟨hoperands.trans (operands_readLong hlong), fun more => ?_⟩
        rw [readLong_mono (tools_flags_le c) hlong]
        exact hmore more
      | letters letters =>
        simp only [hword] at h ⊢
        obtain ⟨⟨g₁, waiting₁⟩, hletters, h⟩ := Except.bind_eq_ok_iff.1 h
        obtain ⟨hoperands, hmore⟩ := ih hdivider h
        refine ⟨hoperands.trans (operands_readLetters hletters), fun more => ?_⟩
        rw [readLetters_mono (tools_flags_le c) hletters]
        exact hmore more
      | operand =>
        -- The tools command takes no operand.
        simp only [hword] at h
        cases h

theorem readArguments_of_tools {args : List String} {sources : Sources}
    (h : Invocation.ofArguments ("tools" :: args) = .run (.tools sources))
    (hdivider : "--" ∉ args) :
    ∃ g : Given, g.sources = sources ∧ g.operands = [] ∧ ∀ c more,
      readArguments c {} none true (args ++ more) = readArguments c g none true more := by
  have hcommand : Invocation.ofArguments ("tools" :: args) = readCommand .tools args := rfl
  rw [hcommand, readCommand] at h
  split at h
  · rename_i stop _
    cases stop <;> cases h
  · rename_i g hg
    exact ⟨g, Request.tools.inj (Invocation.run.inj h),
      (readArguments_append .tools hdivider hg).1,
      fun c more => (readArguments_append c hdivider hg).2 more⟩

theorem readArguments_operand {name : String} {mayOption : Bool}
    (hname : mayOption = true → Word.ofText name.toList = .operand) (hg : g.operands = []) :
    readArguments .schema g none mayOption [name] = .ok { g with operands := [name] } := by
  cases mayOption <;> simp [readArguments, hname, hg, Command.operands]

section
variable {args : List String} {sources : Sources}
  (h : Invocation.ofArguments ("tools" :: args) = .run (.tools sources)) (hdivider : "--" ∉ args)
include h hdivider

/-- After two dashes the name of a tool may begin with a dash itself. -/
theorem ofArguments_schema (name : String) :
    Invocation.ofArguments ("schema" :: args ++ ["--", name]) = .run (.schema name sources) ∧
      ((∀ rest, name.toList ≠ '-' :: rest) →
        Invocation.ofArguments ("schema" :: args ++ [name]) = .run (.schema name sources)) := by
  obtain ⟨g, rfl, hoperands, hmore⟩ := readArguments_of_tools h hdivider
  have hcommand : ∀ more, Invocation.ofArguments ("schema" :: args ++ more) =
      readCommand .schema (args ++ more) := fun _ => rfl
  have hread : ∀ more, readArguments .schema g none true more =
      .ok { g with operands := [name] } →
      Invocation.ofArguments ("schema" :: args ++ more) = .run (.schema name g.sources) := by
    intro more hnamed
    rw [hcommand, readCommand, hmore, hnamed]
    rfl
  refine ⟨hread _ ?_, fun hname => hread _ ?_⟩
  · have hafter : readArguments .schema g none false [name] = .ok { g with operands := [name] } :=
      readArguments_operand nofun hoperands
    exact hafter
  · exact readArguments_operand (fun _ => Word.ofText_eq_operand hname) hoperands

theorem exists_ofArguments_prompt :
    ∃ options output, options.sources = sources ∧
      Invocation.ofArguments ("check" :: args) = .run (.check options) ∧
      Invocation.ofArguments ("render" :: args) = .run (.render options output) := by
  obtain ⟨g, rfl, -, hmore⟩ := readArguments_of_tools h hdivider
  have hread : ∀ c, readArguments c {} none true args = .ok g := by
    intro c
    rw [← List.append_nil args, hmore]
    rfl
  have hcheck : Invocation.ofArguments ("check" :: args) = readCommand .check args := rfl
  have hrender : Invocation.ofArguments ("render" :: args) = readCommand .render args := rfl
  refine ⟨g.options, g.value? .output, rfl, ?_, ?_⟩
  · rw [hcheck, readCommand, hread]
    rfl
  · rw [hrender, readCommand, hread]
    rfl

end

end AgentPrompt.CommandLine
