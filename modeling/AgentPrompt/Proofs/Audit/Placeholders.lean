import AgentPrompt.Audit.Prompt
import AgentPrompt.Proofs.Audit.Agreement
import AgentPrompt.Proofs.Template.Names

namespace AgentPrompt.Audit

section
variable {known : String → Bool} {problem : List String → Problem} {template : String}

theorem templateProblems_of_error {e : Error} (h : Template.placeholders template = .error e) :
    templateProblems known problem template = [.badTemplate e.message] := by
  simp only [templateProblems, h]

theorem templateProblems_of_known {names : List String}
    (h : Template.placeholders template = .ok names) (hk : names.filter (fun n => !known n) = []) :
    templateProblems known problem template = [] := by
  simp only [templateProblems, h, hk]

theorem templateProblems_of_missing {names : List String}
    (h : Template.placeholders template = .ok names)
    (hm : names.filter (fun n => !known n) ≠ []) :
    templateProblems known problem template = [problem (names.filter fun n => !known n)] := by
  simp only [templateProblems, h]

theorem templateProblems_eq_nil_iff :
    templateProblems known problem template = [] ↔
      ∃ names, Template.placeholders template = .ok names ∧
        names.find? (fun n => !known n) = none := by
  cases h : Template.placeholders template with
  | error e => simp [templateProblems_of_error h]
  | ok names =>
    have hfind : names.find? (fun n => !known n) = none ↔ names.filter (fun n => !known n) = [] := by
      rw [List.find?_eq_none, List.filter_eq_nil_iff]
    simp only [Except.ok.injEq, exists_eq_left', hfind]
    constructor
    · intro hnil
      by_contra hm
      rw [templateProblems_of_missing h hm] at hnil
      exact List.cons_ne_nil _ _ hnil
    · exact templateProblems_of_known h

/-- A template's problems with a table are those of its compilation. -/
theorem templateProblems_contains_eq_nil_iff (problem : List String → Problem) (b : Bindings) :
    templateProblems b.contains problem template = [] ↔
      ∃ text, Template.compile template b = .ok text := by
  rw [templateProblems_eq_nil_iff, Template.exists_compile_iff]
  rfl

end

section
variable (template : String) (b : Bindings) (output : String)

def placeholderCheck : Check :=
  ⟨.placeholders, templateProblems b.contains .unresolved template⟩

theorem filter_auditPrompt :
    (auditPrompt template b output).filter (fun c => c.topic = .placeholders) =
      [placeholderCheck template b] :=
  rfl

theorem passes_placeholders_iff :
    (auditPrompt template b output).Passes .placeholders ↔
      ∃ text, Template.compile template b = .ok text := by
  rw [← templateProblems_contains_eq_nil_iff .unresolved]
  constructor
  · rintro ⟨c, hc, htopic, hpassed⟩
    have hone : c ∈ [placeholderCheck template b] := by
      rw [← filter_auditPrompt template b output]
      exact List.mem_filter.2 ⟨hc, by simpa using htopic⟩
    rw [List.mem_singleton.1 hone] at hpassed
    exact List.isEmpty_iff.1 hpassed
  · intro h
    exact ⟨placeholderCheck template b, List.mem_cons_self, rfl, List.isEmpty_iff.2 h⟩

end

theorem message?_of_one (topic : Topic) (p : Problem) :
    (Check.mk topic [p]).message? = some p.message :=
  rfl

theorem message?_placeholderCheck {template : String} {b : Bindings} {names : List String}
    (h : Template.placeholders template = .ok names) :
    (placeholderCheck template b).message? =
      if names.filter (fun n => !b.contains n) = [] then none
      else some (", ".intercalate ((names.filter fun n => !b.contains n).map
        fun n => "'\x7b\x7b" ++ n ++ "\x7d\x7d'")) := by
  split
  · rename_i hk
    rw [placeholderCheck, templateProblems_of_known h hk]
    rfl
  · rename_i hm
    rw [placeholderCheck, templateProblems_of_missing h hm, message?_of_one]
    rfl

/-- Compilation, the list of names and the audit of a template agree for every table and every
output. They fail together on an open placeholder. Otherwise a compilation reports the first missing
name at its first place, and the audit reports all the missing names in their order. -/
theorem auditPrompt_agrees_with_compile (template : String) (b : Bindings) (output : String) :
    ((auditPrompt template b output).Passes .placeholders ↔
      ∃ text, Template.compile template b = .ok text) ∧
    (∀ e, Template.placeholders template = .error e → ∃ p, e = .unterminatedPlaceholder p) ∧
    (∀ p, Template.placeholders template = .error (.unterminatedPlaceholder p) ↔
      Template.compile template b = .error (.unterminatedPlaceholder p)) ∧
    ∀ names, Template.placeholders template = .ok names →
      names.Nodup ∧ (∀ n ∈ names, Template.isName n.toList = true) ∧
      (∀ n, n ∈ names ↔ ∃ p, Template.PlaceholderAt template n p) ∧
      (∀ n, (∃ p, Template.compile template b = .error (.unresolvedVariable n p)) ↔
        Template.firstMissing? b names = some n) ∧
      (∀ n p, Template.compile template b = .error (.unresolvedVariable n p) →
        Template.PlaceholderAt template n p ∧
          ∀ q, Template.PlaceholderAt template n q → p ≤ q) ∧
      ∃ c, (auditPrompt template b output).filter (fun c => c.topic = .placeholders) = [c] ∧
        c.message? =
          if names.filter (fun n => !b.contains n) = [] then none
          else some (", ".intercalate ((names.filter fun n => !b.contains n).map
            fun n => "'\x7b\x7b" ++ n ++ "\x7d\x7d'")) := by
  refine ⟨passes_placeholders_iff template b output, ?_⟩
  cases h : Template.pieces template.toList with
  | error e =>
    obtain ⟨hopen, hp, hc⟩ := Template.exists_unterminated h
    rw [hp, hc b]
    refine ⟨?_, fun p => by simp, fun names hn => ?_⟩
    · intro e' he
      rwa [← Except.error.inj he]
    · cases hn
  | ok ps =>
    have hp : Template.placeholders template = .ok (Template.names ps) :=
      Template.placeholders_eq_ok_iff.2 ⟨ps, h, rfl⟩
    rw [hp]
    refine ⟨nofun, fun p => ?_, fun names hn => ?_⟩
    · have hc := Template.compile_ne_unterminated (b := b) h p
      exact ⟨nofun, fun he => absurd he hc⟩
    · obtain rfl := Except.ok.inj hn
      refine ⟨Template.nodup_addNew List.nodup_nil _, fun n => Template.isName_of_mem_names h,
        Template.mem_names_iff h, fun n => ?_, fun n p hc => ?_,
        _, filter_auditPrompt template b output, message?_placeholderCheck hp⟩
      · constructor
        · rintro ⟨p, hc⟩
          exact ((Template.compile_eq_unresolved_iff h n p).1 hc).1
        · intro hm
          obtain ⟨p, hc, -⟩ := Template.compile_of_firstMissing?_eq_some h hm
          exact ⟨p, hc⟩
      · exact ((Template.compile_eq_unresolved_iff h n p).1 hc).2

/-- The first missing name here is not the first name of the template, and it stands there twice. -/
theorem auditPrompt_agrees_with_compile_at_repeats :
    Template.placeholders "\x7b\x7ba\x7d\x7d\x7b\x7b b \x7d\x7d\x7b\x7bc\x7d\x7d\x7b\x7bb\x7d\x7d" =
        .ok ["a", "b", "c"] ∧
      ∃ p, Template.compile
          "\x7b\x7ba\x7d\x7d\x7b\x7b b \x7d\x7d\x7b\x7bc\x7d\x7d\x7b\x7bb\x7d\x7d"
          (.ofList [("a", .text "")]) = .error (.unresolvedVariable "b" p) := by
  have hnames : Template.placeholders
      "\x7b\x7ba\x7d\x7d\x7b\x7b b \x7d\x7d\x7b\x7bc\x7d\x7d\x7b\x7bb\x7d\x7d" =
      .ok ["a", "b", "c"] := by
    rfl
  obtain ⟨-, -, -, hall⟩ := auditPrompt_agrees_with_compile
    "\x7b\x7ba\x7d\x7d\x7b\x7b b \x7d\x7d\x7b\x7bc\x7d\x7d\x7b\x7bb\x7d\x7d"
    (.ofList [("a", .text "")]) ""
  obtain ⟨-, -, -, hfirst, -⟩ := hall _ hnames
  exact ⟨hnames, (hfirst "b").2 (by decide)⟩

end AgentPrompt.Audit
