import AgentPrompt.Prompt.Builtin
import AgentPrompt.Proofs.Except
import AgentPrompt.Proofs.Prompt.Variables
import Mathlib.Data.List.Induction

namespace AgentPrompt

namespace Fact

def about : Fact → String
  | currentFile _ => "current_file"
  | projectPath _ => "project_path"
  | projectStructure _ => "project_structure"
  | osInfo _ => "os_info"
  | timestamp _ => "timestamp"
  | toolList _ | tools _ => "tool_list"
  | agentRules _ => "agent_rules"
  | buildTool _ => "build_tool"
  | shell _ => "shell"
  | moduleInfo _ => "module_info"
  | frameworkContext _ => "framework_context"

def text : Fact → Except Error String
  | timestamp moment => .ok moment.text
  | tools snapshot => Tool.blockList snapshot.tools
  | currentFile text | projectPath text | projectStructure text | osInfo text | toolList text
  | agentRules text | buildTool text | shell text | moduleInfo text | frameworkContext text =>
    .ok text

/-- The text that was given last for a variable; it is empty if there is none. -/
def lastText (facts : List Fact) (name : String) : String :=
  match facts.reverse.find? fun f => f.about = name with
  | some f => f.text.toOption.getD ""
  | none => ""

theorem lastText_concat (facts : List Fact) (f : Fact) (name : String) :
    lastText (facts ++ [f]) name =
      if f.about = name then f.text.toOption.getD "" else lastText facts name := by
  unfold lastText
  rw [List.reverse_append, List.reverse_singleton, List.singleton_append, List.find?_cons]
  by_cases h : f.about = name <;> simp [h]

/-- A fact about another variable leaves the last text alone. -/
theorem lastText_append_cons {f : Fact} {name : String} (h : f.about ≠ name)
    (before after : List Fact) :
    lastText (before ++ f :: after) name = lastText (before ++ after) name := by
  unfold lastText
  simp [List.reverse_append, List.find?_append, h]

end Fact

/-! ## Placeholders that stand alone -/

namespace Template

/-- The scanner takes characters other than braces into an open placeholder. -/
theorem cut_open_append {s : List Char} (h : ∀ c ∈ s, c ≠ '\x7b' ∧ c ≠ '\x7d') (offset : Nat)
    (text : List Char) (o : Opened) (rest : List Char) :
    cut offset text (some o) (s ++ rest) =
      cut (offset + byteLength s) text (some { o with body := s.reverse ++ o.body }) rest := by
  induction s generalizing offset o with
  | nil => simp
  | cons c s ih =>
    obtain ⟨hopen, hclose⟩ := h c List.mem_cons_self
    have hstep : cut offset text (some o) (c :: (s ++ rest)) =
        cut (offset + c.utf8Size) text (some { o with body := c :: o.body }) (s ++ rest) := by
      rw [cut]
      · exact fun _ hc _ => hopen hc
      · exact fun _ hc _ => hclose hc
    rw [List.cons_append, hstep, ih fun d hd => h d (List.mem_cons_of_mem _ hd)]
    simp [Nat.add_assoc]

theorem pieces_opener_name_closer {name : List Char} (h : isName name = true) :
    pieces (opener ++ name ++ closer) = .ok [.placeholder name 0 (opener ++ name ++ closer)] := by
  have hbody : ∀ c ∈ name, c ≠ '\x7b' ∧ c ≠ '\x7d' :=
    fun c hc => not_brace_of_isNameRest (isNameRest_of_mem_name h c hc)
  have htrim : Text.trim name = name :=
    Text.trim_of_no_blank fun c hc => isNameRest_not_blank (isNameRest_of_mem_name h c hc)
  have hopened : pieces (opener ++ name ++ closer) =
      cut (2 + byteLength name) [] (some ⟨0, name.reverse⟩) closer := by
    have hscan := cut_open_append hbody 2 [] ⟨0, []⟩ closer
    rw [List.append_nil] at hscan
    rw [← hscan, List.append_assoc]
    rfl
  rw [hopened]
  simp [cut, closer, htrim, h, literalOf, Except.map]

end Template

namespace Prompt

theorem renderWith_slot {name : String} (h : Template.isName name.toList = true) {c : Context}
    {v : Variable} (hv : c.bindings.get? name = some v) :
    renderWith c (slot name) = .ok v.render := by
  have htext : (slot name).toList = Template.opener ++ name.toList ++ Template.closer := by
    unfold slot
    rw [String.toList_append, String.toList_append]
    rfl
  unfold renderWith Template.compile
  rw [htext, Template.pieces_opener_name_closer h]
  simp [bind, Except.bind, Template.fill, hv, Except.map, pure, Except.pure]

end Prompt

namespace Context

theorem isName_of_mem_variableNames {name : String} (h : name ∈ variableNames) :
    Template.isName name.toList = true := by
  have hall : ∀ n ∈ variableNames, Template.isName n.toList = true := by decide
  exact hall name h

/-! ## Drafts -/

namespace Draft

/-- The texts that the variables would have, in their order. -/
def entries (d : Draft) : List (String × String) :=
  [("current_file", d.currentFile.getD ""), ("project_path", d.projectPath.getD ""),
    ("project_structure", d.projectStructure.getD ""), ("os_info", d.osInfo),
    ("timestamp", (d.timestamp.map Instant.text).getD ""), ("tool_list", d.toolList),
    ("agent_rules", d.agentRules.getD ""), ("build_tool", d.buildTool), ("shell", d.shell),
    ("module_info", d.moduleInfo.getD ""), ("framework_context", d.frameworkContext.getD "")]

theorem names_entries (d : Draft) : d.entries.map Prod.fst = variableNames :=
  rfl

/-- What recording one fact does: its variable has a new text, and the others are as before. -/
structure Records (d : Draft) (f : Fact) (d' : Draft) (text : String) : Prop where
  given : f.text = .ok text
  entries : d'.entries = d.entries.map fun e => if e.1 = f.about then (e.1, text) else e
  projectPath : d'.projectPath.isSome = (d.projectPath.isSome || f.about == "project_path")
  timestamp : d'.timestamp.isSome = (d.timestamp.isSome || f.about == "timestamp")

theorem record_tools (d : Draft) (s : Snapshot) :
    d.record (.tools s) = Tool.blockList s.tools >>= fun text => d.record (.toolList text) :=
  rfl

theorem records_of_record {d d' : Draft} {f : Fact} (h : d.record f = .ok d') :
    ∃ text, Records d f d' text := by
  cases f with
  | tools s =>
    rw [record_tools, Except.bind_eq_ok_iff] at h
    obtain ⟨text, htext, h⟩ := h
    obtain rfl := Except.ok.inj h
    exact ⟨text, htext, by simp [Draft.entries, Fact.about], by simp [Fact.about],
      by simp [Fact.about]⟩
  | _ =>
    obtain rfl := Except.ok.inj h
    exact ⟨_, rfl, by simp [Draft.entries, Fact.about], by simp [Fact.about],
      by simp [Fact.about]⟩

theorem exists_record {f : Fact} {text : String} (h : f.text = .ok text) (d : Draft) :
    ∃ d', d.record f = .ok d' := by
  cases f with
  | tools s =>
    refine ⟨{ d with toolList := text }, ?_⟩
    rw [record_tools, Except.bind_eq_ok_iff]
    exact ⟨text, h, rfl⟩
  | _ => exact ⟨_, rfl⟩

theorem exists_text_of_ne_toolList {f : Fact} (h : f.about ≠ "tool_list") :
    ∃ text, f.text = .ok text := by
  cases f with
  | tools s => exact absurd rfl h
  | _ => exact ⟨_, rfl⟩

theorem record_comm_of_not_tools {a b : Fact} (ha : ∀ s, a ≠ .tools s) (hb : ∀ s, b ≠ .tools s)
    (h : a.about ≠ b.about) (d : Draft) :
    (d.record a >>= fun d => d.record b) = d.record b >>= fun d => d.record a := by
  cases a with
  | tools s => exact absurd rfl (ha s)
  | _ =>
    cases b with
    | tools s => exact absurd rfl (hb s)
    | _ => first | rfl | exact absurd rfl h

theorem record_tools_comm {f : Fact} (h : f.about ≠ "tool_list") (s : Snapshot) (d : Draft) :
    (d.record (.tools s) >>= fun d => d.record f) =
      d.record f >>= fun d => d.record (.tools s) := by
  obtain ⟨text, htext⟩ := exists_text_of_ne_toolList h
  obtain ⟨d', hd'⟩ := exists_record htext d
  cases hs : Tool.blockList s.tools with
  | error e => simp [record_tools, hs, hd', bind, Except.bind]
  | ok list =>
    have hplain : ∀ s, f ≠ .tools s := by
      rintro s rfl
      exact h rfl
    have hcomm := record_comm_of_not_tools (a := .toolList list) (by simp) hplain h.symm d
    simpa [record_tools, hs, hd', bind, Except.bind] using hcomm

/-- Facts about different variables can be recorded in either order. -/
theorem record_comm {a b : Fact} (h : a.about ≠ b.about) (d : Draft) :
    (d.record a >>= fun d => d.record b) = d.record b >>= fun d => d.record a := by
  by_cases ha : ∃ s, a = .tools s
  · obtain ⟨s, rfl⟩ := ha
    exact record_tools_comm h.symm s d
  · by_cases hb : ∃ s, b = .tools s
    · obtain ⟨s, rfl⟩ := hb
      exact (record_tools_comm h s d).symm
    · exact record_comm_of_not_tools (fun s hs => ha ⟨s, hs⟩) (fun s hs => hb ⟨s, hs⟩) h d

def textOf (d : Draft) (name : String) : String :=
  (d.entries.lookup name).getD ""

theorem lookup_map_replace (entries : List (String × String)) (about text name : String) :
    (entries.map fun e => if e.1 = about then (e.1, text) else e).lookup name =
      if name = about then (entries.lookup name).map fun _ => text else entries.lookup name := by
  induction entries with
  | nil => simp
  | cons e entries ih =>
    obtain ⟨n, t⟩ := e
    rw [List.map_cons]
    by_cases hn : n = about
    · subst hn
      by_cases hname : name = n
      · simp [hname]
      · simp [List.lookup_cons, hname, ih, beq_eq_false_iff_ne.2 hname]
    · by_cases hname : name = n
      · simp [hname, hn]
      · simp [List.lookup_cons, hn, ih, beq_eq_false_iff_ne.2 hname]

theorem lookup_entries {name : String} (h : name ∈ variableNames) (d : Draft) :
    d.entries.lookup name = some (d.textOf name) := by
  rw [← names_entries d, List.mem_map] at h
  obtain ⟨e, he, rfl⟩ := h
  cases hlookup : d.entries.lookup e.1 with
  | some text => rw [textOf, hlookup, Option.getD_some]
  | none => simpa using List.lookup_eq_none_iff.1 hlookup e he

theorem Records.textOf_eq {d d' : Draft} {f : Fact} {text : String} (h : Records d f d' text)
    {name : String} (hname : name ∈ variableNames) :
    d'.textOf name = if f.about = name then text else d.textOf name := by
  have hold := lookup_entries hname d
  rw [textOf, h.entries, lookup_map_replace, hold]
  by_cases heq : name = f.about
  · rw [if_pos heq, if_pos heq.symm]
    rfl
  · rw [if_neg heq, if_neg (Ne.symm heq)]
    rfl

end Draft

/-! ## Runs -/

section
variable {facts : List Fact} {d : Draft}

theorem textOf_foldlM (h : facts.foldlM Draft.record {} = .ok d) {name : String}
    (hname : name ∈ variableNames) : d.textOf name = Fact.lastText facts name := by
  induction facts using List.reverseRecOn generalizing d with
  | nil =>
    obtain rfl := Except.ok.inj h
    have hall : ∀ n ∈ variableNames, Draft.textOf {} n = "" := by decide
    exact hall name hname
  | append_singleton facts f ih =>
    rw [List.foldlM_append, Except.bind_eq_ok_iff] at h
    obtain ⟨before, hbefore, h⟩ := h
    rw [List.foldlM_cons, Except.bind_eq_ok_iff] at h
    obtain ⟨after, hafter, h⟩ := h
    obtain rfl := Except.ok.inj h
    obtain ⟨text, hrecords⟩ := Draft.records_of_record hafter
    rw [hrecords.textOf_eq hname, Fact.lastText_concat, ih hbefore, hrecords.given]
    rfl

theorem isSome_foldlM (h : facts.foldlM Draft.record {} = .ok d) :
    (d.projectPath.isSome = true ↔ "project_path" ∈ facts.map Fact.about) ∧
      (d.timestamp.isSome = true ↔ "timestamp" ∈ facts.map Fact.about) := by
  induction facts using List.reverseRecOn generalizing d with
  | nil =>
    obtain rfl := Except.ok.inj h
    simp
  | append_singleton facts f ih =>
    rw [List.foldlM_append, Except.bind_eq_ok_iff] at h
    obtain ⟨before, hbefore, h⟩ := h
    rw [List.foldlM_cons, Except.bind_eq_ok_iff] at h
    obtain ⟨after, hafter, h⟩ := h
    obtain rfl := Except.ok.inj h
    obtain ⟨text, hrecords⟩ := Draft.records_of_record hafter
    obtain ⟨hpath, htime⟩ := ih hbefore
    rw [hrecords.projectPath, hrecords.timestamp]
    simp only [Bool.or_eq_true, hpath, htime, beq_iff_eq, List.map_append, List.map_cons,
      List.map_nil, List.mem_append, List.mem_singleton, @eq_comm _ f.about, and_self]

theorem exists_foldlM (h : ∀ f ∈ facts, ∃ text, f.text = .ok text) (d : Draft) :
    ∃ d', facts.foldlM Draft.record d = .ok d' := by
  induction facts generalizing d with
  | nil => exact ⟨d, rfl⟩
  | cons f facts ih =>
    rw [List.forall_mem_cons] at h
    obtain ⟨text, htext⟩ := h.1
    obtain ⟨d₁, hd₁⟩ := Draft.exists_record htext d
    obtain ⟨d₂, hd₂⟩ := ih h.2 d₁
    refine ⟨d₂, ?_⟩
    rw [List.foldlM_cons, Except.bind_eq_ok_iff]
    exact ⟨d₁, hd₁, hd₂⟩

theorem ofFacts_eq (h : facts.foldlM Draft.record {} = .ok d) : ofFacts facts = d.finish := by
  unfold ofFacts
  rw [h]
  rfl

theorem finish_of_pathless (h : d.projectPath.isSome = false) :
    d.finish = .error (.missingFact "project_path") := by
  unfold Draft.finish
  rw [Option.isSome_eq_false_iff, Option.isNone_iff_eq_none] at h
  rw [h]

theorem finish_of_timeless (hp : d.projectPath.isSome = true) (h : d.timestamp.isSome = false) :
    d.finish = .error (.missingFact "timestamp") := by
  unfold Draft.finish
  obtain ⟨path, hpath⟩ := Option.isSome_iff_exists.1 hp
  rw [Option.isSome_eq_false_iff, Option.isNone_iff_eq_none] at h
  rw [h, hpath]

theorem exists_finish_iff :
    (∃ c, d.finish = .ok c) ↔ d.projectPath.isSome = true ∧ d.timestamp.isSome = true := by
  unfold Draft.finish
  cases d.projectPath with
  | none => simp
  | some path =>
    cases d.timestamp with
    | none => simp
    | some time => simp

/-- The table of a context has the texts of its draft. -/
theorem entries_finish {c : Context} (h : d.finish = .ok c) :
    c.bindings.entries = d.entries.map fun e => (e.1, .text e.2) := by
  unfold Draft.finish at h
  split at h
  · cases h
  · cases h
  · rename_i hpath htime
    obtain rfl := Except.ok.inj h
    unfold Draft.entries
    rw [hpath, htime]
    rfl

theorem get?_bindings_finish {c : Context} (h : d.finish = .ok c) {name : String}
    (hname : name ∈ variableNames) : c.bindings.get? name = some (.text (d.textOf name)) := by
  have hlookup : ∀ entries : List (String × String),
      (entries.map fun e => (e.1, Variable.text e.2)).lookup name =
        (entries.lookup name).map Variable.text := by
    intro entries
    induction entries with
    | nil => rfl
    | cons e entries ih =>
      obtain ⟨n, text⟩ := e
      rw [List.map_cons, List.lookup_cons, List.lookup_cons, ih]
      cases name == n with
      | true => rfl
      | false => rfl
  rw [Bindings.get?, entries_finish h, hlookup, Draft.lookup_entries hname, Option.map_some]

/-- In a context each variable has the text that was given for it last. -/
theorem renderWith_ofFacts {c : Context} (h : ofFacts facts = .ok c) {name : String}
    (hname : name ∈ variableNames) :
    Prompt.renderWith c (Prompt.slot name) = .ok (Fact.lastText facts name) := by
  unfold ofFacts at h
  rw [Except.bind_eq_ok_iff] at h
  obtain ⟨d, hd, hc⟩ := h
  have hget := get?_bindings_finish hc hname
  rw [textOf_foldlM hd hname] at hget
  exact Prompt.renderWith_slot (isName_of_mem_variableNames hname) hget

/-- Facts about different variables can change places. -/
theorem ofFacts_swap {a b : Fact} (h : a.about ≠ b.about) (before after : List Fact) :
    ofFacts (before ++ a :: b :: after) = ofFacts (before ++ b :: a :: after) := by
  have hrun : ∀ d : Draft, (a :: b :: after).foldlM Draft.record d =
      (b :: a :: after).foldlM Draft.record d := by
    intro d
    simp only [List.foldlM_cons, ← bind_assoc, Draft.record_comm h]
  unfold ofFacts
  simp only [List.foldlM_append, hrun]

end

/-- Facts whose tools can be printed make a context exactly if a path of the project and a time are
among them. Its table has the known names in their order, a placeholder alone renders as the text that
was given last, and a fact changes the text of its own variable only. -/
theorem ofFacts_gives_last_texts {facts : List Fact}
    (h : ∀ s, Fact.tools s ∈ facts → ∃ text, Tool.blockList s.tools = .ok text) :
    ((∃ c, ofFacts facts = .ok c) ↔
      "project_path" ∈ facts.map Fact.about ∧ "timestamp" ∈ facts.map Fact.about) ∧
    ("project_path" ∉ facts.map Fact.about →
      ofFacts facts = .error (.missingFact "project_path")) ∧
    ("project_path" ∈ facts.map Fact.about → "timestamp" ∉ facts.map Fact.about →
      ofFacts facts = .error (.missingFact "timestamp")) ∧
    (∀ c, ofFacts facts = .ok c →
      c.bindings.names = variableNames ∧ variableNames.Nodup ∧
      ∀ name ∈ variableNames,
        Prompt.renderWith c (Prompt.slot name) = .ok (Fact.lastText facts name)) ∧
    (∀ before f after, facts = before ++ f :: after → ∀ c c', ofFacts facts = .ok c →
      ofFacts (before ++ after) = .ok c' → ∀ name ∈ variableNames, name ≠ f.about →
        Prompt.renderWith c (Prompt.slot name) = Prompt.renderWith c' (Prompt.slot name)) ∧
    (∀ before a b after, facts = before ++ a :: b :: after → a.about ≠ b.about →
      ofFacts (before ++ b :: a :: after) = ofFacts facts) := by
  have htexts : ∀ f ∈ facts, ∃ text, f.text = .ok text := by
    intro f hf
    cases f with
    | tools s => exact h s hf
    | _ => exact ⟨_, rfl⟩
  obtain ⟨d, hd⟩ := exists_foldlM htexts {}
  have hfinish := ofFacts_eq hd
  obtain ⟨hpath, htime⟩ := isSome_foldlM hd
  refine ⟨?_, ?_, ?_, ?_, ?_, ?_⟩
  · rw [hfinish, exists_finish_iff, hpath, htime]
  · intro hp
    rw [hfinish]
    exact finish_of_pathless (by simpa [← hpath] using hp)
  · intro hp ht
    rw [hfinish]
    exact finish_of_timeless (hpath.2 hp) (by simpa [← htime] using ht)
  · intro c hc
    exact ⟨c.names_bindings, by decide, fun name hname => renderWith_ofFacts hc hname⟩
  · rintro before f after rfl c c' hc hc' name hname hne
    rw [renderWith_ofFacts hc hname, renderWith_ofFacts hc' hname,
      Fact.lastText_append_cons (Ne.symm hne)]
  · rintro before a b after rfl hne
    exact (ofFacts_swap hne before after).symm

/-- Facts that are given twice, out of order, and with a text that looks like a placeholder. -/
def restated : List Fact :=
  [.tools ⟨[{ name := "glob" }]⟩, .timestamp ⟨86400, 0⟩, .shell "\x7b\x7bos_info\x7d\x7d",
    .projectPath "/tmp", .toolList "none", .osInfo "linux", .timestamp ⟨-1, 0⟩, .projectPath "/work"]

theorem ofFacts_gives_last_texts_restated :
    ∃ c, ofFacts restated = .ok c ∧ c.bindings.names = variableNames ∧
      Prompt.renderWith c (Prompt.slot "project_path") = .ok "/work" ∧
      Prompt.renderWith c (Prompt.slot "timestamp") = .ok "1969-12-31T23:59:59Z" ∧
      Prompt.renderWith c (Prompt.slot "tool_list") = .ok "none" ∧
      Prompt.renderWith c (Prompt.slot "shell") = .ok "\x7b\x7bos_info\x7d\x7d" ∧
      Prompt.renderWith c (Prompt.slot "build_tool") = .ok "" := by
  have htools : ∀ s, Fact.tools s ∈ restated → ∃ text, Tool.blockList s.tools = .ok text := by
    intro s hs
    simp only [restated, List.mem_cons, Fact.tools.injEq, reduceCtorEq, List.not_mem_nil,
      or_false] at hs
    obtain rfl := hs
    exact Except.exists_eq_ok_of_isOk (by decide +kernel)
  obtain ⟨hiff, -, -, htable, -, -⟩ := ofFacts_gives_last_texts htools
  obtain ⟨c, hc⟩ := hiff.2 (by decide)
  obtain ⟨hnames, -, hlast⟩ := htable c hc
  exact ⟨c, hc, hnames, hlast _ (by decide), hlast _ (by decide), hlast _ (by decide),
    hlast _ (by decide), hlast _ (by decide)⟩

end Context
end AgentPrompt
