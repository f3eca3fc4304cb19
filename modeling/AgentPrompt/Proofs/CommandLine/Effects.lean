import AgentPrompt.Proofs.CommandLine.Endings
import AgentPrompt.Proofs.CommandLine.Writing

/-! A text is complete before any of it is handed over. -/
namespace AgentPrompt.CommandLine

variable {d : Devices} {w : Surroundings} {t : FileTree} {args : List String} {r : Request}

/-! ## Handing over -/

theorem Devices.files_print (d : Devices) (text : String) (o : Outside) :
    (d.print text o).2.files = o.files := by
  unfold print
  split <;> rfl

theorem Devices.print_empty (d : Devices) (o : Outside) : (d.print "" o).2 = o := by
  have hbytes : bytes "" = [] := rfl
  unfold print
  split <;> simp [hbytes]

namespace Ending

variable {text : String} {fault : FileFault} {directory : WorkingDirectory} {o : Outside}

/-- Whether the output arrives makes no difference to an ending that is not refused. -/
theorem deliver_of_not_refused {e : Ending} (hp : e.pending? = none)
    (hrefused : ∀ fault, e.refused fault = e) :
    e.deliver (d.outlet directory) o = (e, (d.print e.output o).2) := by
  rw [deliver_of_not_pending hp]
  cases (d.print e.output o).1 with
  | none => rfl
  | some fault => rw [Option.elim_some, hrefused]

theorem deliver_failed (e : Error) :
    (failed e).deliver (d.outlet directory) o = (failed e, o) := by
  rw [deliver_of_not_refused rfl fun _ => rfl]
  exact Prod.ext rfl (d.print_empty o)

theorem deliver_printed (h : d.printFault? text = none) :
    (finished (.printed text)).deliver (d.outlet directory) o =
      (finished (.printed text), { o with output := o.output ++ bytes text }) := by
  have hprint : d.print text o = (none, { o with output := o.output ++ bytes text }) := by
    rw [Devices.print, h]
  exact (deliver_of_not_pending rfl d directory o).trans (by rw [output, hprint]; rfl)

theorem deliver_cut {taken : Nat} (h : d.printFault? text = some (taken, fault)) :
    (finished (.printed text)).deliver (d.outlet directory) o =
      (failed (outputFailed fault), { o with output := o.output ++ (bytes text).take taken }) := by
  have hprint : d.print text o =
      (some fault, { o with output := o.output ++ (bytes text).take taken }) := by
    rw [Devices.print, h]
  exact (deliver_of_not_pending rfl d directory o).trans (by rw [output, hprint]; rfl)

theorem deliver_saved (d : Devices) (directory : WorkingDirectory) (path text : String)
    (o : Outside) :
    (finished (.saved path text)).deliver (d.outlet directory) o =
      ((d.save directory path text o).1.elim (finished (.saved path text))
        fun fault => failed (writeFailed path fault), (d.save directory path text o).2) :=
  rfl

end Ending

theorem Devices.save_cases (d : Devices) (directory : WorkingDirectory) (path text : String)
    (o : Outside) :
    (∃ fault, d.save directory path text o = (some fault, o)) ∨
      ∃ after, o.files.writeText directory path text = .ok after ∧
        d.save directory path text o = (none, { o with files := after }) := by
  unfold save
  split
  · exact Or.inl ⟨_, rfl⟩
  · split
    · exact Or.inr ⟨_, ‹_›, rfl⟩
    · exact Or.inl ⟨_, rfl⟩

/-! ## Runs of a request -/

/-- All that a request other than a check can leave behind: an error, its text on standard output, an
initial part of its text where standard output failed, or its text in a file. -/
inductive Leaves (d : Devices) (w : Surroundings) (t : FileTree) :
    Request → Ending × Outside → Prop
  | failed (r : Request) (e : Error) : Leaves d w t r (.failed e, { files := t })
  | printed {r : Request} {text : String} (goal : ∀ options path, r ≠ .render options (some path))
      (complete : (r.text w).run t w.directory = .ok text) (taken : d.printFault? text = none) :
      Leaves d w t r (.finished (.printed text), { output := bytes text, files := t })
  | cut {r : Request} {text : String} {taken : Nat} {fault : FileFault}
      (goal : ∀ options path, r ≠ .render options (some path))
      (complete : (r.text w).run t w.directory = .ok text)
      (stopped : d.printFault? text = some (taken, fault)) :
      Leaves d w t r
        (.failed (outputFailed fault), { output := (bytes text).take taken, files := t })
  | saved {options : PromptOptions} {path prompt : String} {after : FileTree}
      (complete : (renderPrompt w options).run t w.directory = .ok prompt)
      (written : t.writeText w.directory path prompt = .ok after) :
      Leaves d w t (.render options (some path))
        (.finished (.saved path prompt), { files := after })

theorem outcome_eq_printed (hr : ∀ options path, r ≠ .render options (some path))
    (text : String) : r.outcome text = .printed text := by
  cases r with
  | render options output =>
    cases output with
    | none => rfl
    | some path => exact absurd rfl (hr options path)
  | _ => rfl

theorem leaves_printed {text : String} (htext : (r.text w).run t w.directory = .ok text)
    (hgoal : ∀ options path, r ≠ .render options (some path)) :
    Leaves d w t r
      ((Ending.finished (.printed text)).deliver (d.outlet w.directory) { files := t }) := by
  cases h : d.printFault? text with
  | none =>
    rw [Ending.deliver_printed h]
    exact .printed hgoal htext h
  | some stop =>
    obtain ⟨taken, fault⟩ := stop
    rw [Ending.deliver_cut h]
    exact .cut hgoal htext h

theorem leaves_saved {options : PromptOptions} {path prompt : String}
    (hprompt : (renderPrompt w options).run t w.directory = .ok prompt) :
    Leaves d w t (.render options (some path))
      ((Ending.finished (.saved path prompt)).deliver (d.outlet w.directory) { files := t }) := by
  rw [Ending.deliver_saved]
  rcases d.save_cases w.directory path prompt { files := t } with
    ⟨fault, hsave⟩ | ⟨after, hw, hsave⟩
  · rw [hsave]
    exact .failed _ _
  · rw [hsave]
    exact .saved hprompt hw

theorem leaves_runOn (d : Devices) (hargs : Invocation.ofArguments args = .run r)
    (hr : ∀ options, r ≠ .check options) : Leaves d w t r (runOn d w t args) := by
  rw [runOn_eq_deliver hargs]
  rcases Request.ending_cases w t hr with ⟨text, htext, h⟩ | ⟨e, h⟩
  · rw [h]
    by_cases hgoal : ∃ options path, r = .render options (some path)
    · obtain ⟨options, path, rfl⟩ := hgoal
      exact leaves_saved htext
    · have hgoal : ∀ options path, r ≠ .render options (some path) :=
        fun options path hpath => hgoal ⟨options, path, hpath⟩
      rw [outcome_eq_printed hgoal]
      exact leaves_printed htext hgoal
  · rw [h, Ending.deliver_failed]
    exact .failed r e

/-- Standard output failed while it took the complete text of a request, and has an initial part. -/
def CutShort (d : Devices) (w : Surroundings) (t : FileTree) (r : Request)
    (left : Ending × Outside) : Prop :=
  ∃ text taken fault, (r.text w).run t w.directory = .ok text ∧
    (∀ options path, r ≠ .render options (some path)) ∧
    d.printFault? text = some (taken, fault) ∧ left.1 = .failed (outputFailed fault) ∧
    left.2.output = (bytes text).take taken

section
variable {left : Ending × Outside} (h : Leaves d w t r left)
include h

theorem Leaves.of_failed (hstatus : left.1.exitStatus ≠ 0) :
    left.2.files = t ∧ (left.2.output = [] ∨ CutShort d w t r left) := by
  cases h with
  | failed => exact ⟨rfl, Or.inl rfl⟩
  | printed => exact absurd rfl hstatus
  | cut hgoal htext hstop => exact ⟨rfl, Or.inr ⟨_, _, _, htext, hgoal, hstop, rfl, rfl⟩⟩
  | saved => exact absurd rfl hstatus

theorem Leaves.of_printed (hgoal : ∀ options path, r ≠ .render options (some path))
    (hstatus : left.1.exitStatus = 0) :
    ∃ text, (r.text w).run t w.directory = .ok text ∧ left.2 = ⟨bytes text, t⟩ := by
  cases h with
  | failed _ e => exact absurd hstatus e.exitStatus_ne_zero
  | printed _ htext => exact ⟨_, htext, rfl⟩
  | @cut _ _ _ fault => exact absurd hstatus (outputFailed fault).exitStatus_ne_zero
  | saved => exact absurd rfl (hgoal _ _)

theorem Leaves.files_eq (hgoal : ∀ options path, r ≠ .render options (some path)) :
    left.2.files = t := by
  cases h with
  | saved => exact absurd rfl (hgoal _ _)
  | _ => rfl

end

theorem Leaves.of_saved {options : PromptOptions} {path : String} {left : Ending × Outside}
    (h : Leaves d w t (.render options (some path)) left) (hstatus : left.1.exitStatus = 0) :
    left.2.output = [] ∧ ∃ prompt, (renderPrompt w options).run t w.directory = .ok prompt ∧
      t.writeText w.directory path prompt = .ok left.2.files := by
  cases h with
  | failed _ e => exact absurd hstatus e.exitStatus_ne_zero
  | printed hgoal => exact absurd rfl (hgoal _ _)
  | cut hgoal => exact absurd rfl (hgoal _ _)
  | saved hprompt hw => exact ⟨rfl, _, hprompt, hw⟩

/-! ## Checks and runs without a request -/

theorem files_runOn_check (d : Devices) {options : PromptOptions}
    (hargs : Invocation.ofArguments args = .run (.check options)) :
    (runOn d w t args).2.files = t := by
  rw [runOn_eq_deliver hargs, Ending.deliver_of_not_pending (pending?_check w t options)]
  exact d.files_print _ _

/-- The version and the help text never fail a run, and a misuse prints nothing. -/
theorem runOn_without_request (d : Devices) (w : Surroundings) (t : FileTree)
    (hargs : ∀ r, Invocation.ofArguments args ≠ .run r) :
    (runOn d w t args).2.files = t ∧
      ((runOn d w t args).1.exitStatus ≠ 0 → (runOn d w t args).2.output = []) := by
  rw [runOn, program]
  cases h : Invocation.ofArguments args with
  | run r => exact absurd h (hargs r)
  | version c =>
    have hleft : Ending.deliver (d.outlet w.directory) (.version c) { files := t } = _ :=
      Ending.deliver_of_not_refused rfl fun _ => rfl
    refine ⟨d.files_print _ _, fun hstatus => absurd ?_ hstatus⟩
    exact congrArg (fun left => left.1.exitStatus) hleft
  | help =>
    have hleft : Ending.deliver (d.outlet w.directory) .help { files := t } = _ :=
      Ending.deliver_of_not_refused rfl fun _ => rfl
    refine ⟨d.files_print _ _, fun hstatus => absurd ?_ hstatus⟩
    exact congrArg (fun left => left.1.exitStatus) hleft
  | misuse =>
    refine ⟨d.files_print _ _, fun _ => ?_⟩
    exact congrArg Outside.output (d.print_empty { files := t })

theorem run_render_eq {options : PromptOptions} {prompt : String}
    (h : (renderPrompt w options).run t w.directory = .ok prompt)
    (hargs : Invocation.ofArguments args = .run (.render options none)) :
    run w t args = (.finished (.printed prompt), t) := by
  have hending : (Request.render options none).ending w t = .finished (.printed prompt) :=
    (Request.ending_eq_finished_iff (by simp)).2 h
  rw [run_eq_ending hargs (pending?_render w t options), hending]

/-- A run hands over complete texts only. If it fails, no file changes, and nothing is printed unless
standard output failed while it took the complete text. If it succeeds, it prints its text and no more,
or saves in the named file, and in no other, the prompt that would have been printed. Only a rendering
into a file ever changes one. -/
theorem runOn_leaves_complete_texts (d : Devices) (w : Surroundings) (t : FileTree)
    (args : List String) :
    ((∀ options, Invocation.ofArguments args ≠ .run (.check options)) →
      (runOn d w t args).1.exitStatus ≠ 0 →
      (runOn d w t args).2.files = t ∧ ((runOn d w t args).2.output = [] ∨
        ∃ r, Invocation.ofArguments args = .run r ∧ CutShort d w t r (runOn d w t args))) ∧
    (∀ r, Invocation.ofArguments args = .run r → (∀ options, r ≠ .check options) →
      (∀ options path, r ≠ .render options (some path)) →
      (runOn d w t args).1.exitStatus = 0 →
      ∃ text, (r.text w).run t w.directory = .ok text ∧ (runOn d w t args).2 = ⟨bytes text, t⟩) ∧
    (∀ options path, Invocation.ofArguments args = .run (.render options (some path)) →
      (runOn d w t args).1.exitStatus = 0 →
      (runOn d w t args).2.output = [] ∧
      ∃ prompt, (∀ printing, Invocation.ofArguments printing = .run (.render options none) →
          run w t printing = (.finished (.printed prompt), t)) ∧
        (renderPrompt w options).run t w.directory = .ok prompt ∧
        (runOn d w t args).2.files.readText w.directory path = .ok prompt ∧
        ∃ place, t.locate w.directory path = .ok place ∧
          (runOn d w t args).2.files.locate w.directory path = .ok place ∧
          ∀ p ≠ place, ∀ content,
            (runOn d w t args).2.files.entry? p = some (.file content) ↔
              t.entry? p = some (.file content)) ∧
    ((∀ options path, Invocation.ofArguments args ≠ .run (.render options (some path))) →
      (runOn d w t args).2.files = t) := by
  refine ⟨fun hcheck hstatus => ?_, fun r hargs hr hgoal hstatus => ?_,
    fun options path hargs hstatus => ?_, fun hgoal => ?_⟩
  · by_cases hrun : ∃ r, Invocation.ofArguments args = .run r
    · obtain ⟨r, hargs⟩ := hrun
      have hr : ∀ options, r ≠ .check options := fun options h => hcheck options (h ▸ hargs)
      obtain ⟨hfiles, houtput⟩ := (leaves_runOn d hargs hr).of_failed hstatus
      exact ⟨hfiles, houtput.imp_right fun hcut => ⟨r, hargs, hcut⟩⟩
    · obtain ⟨hfiles, houtput⟩ := runOn_without_request d w t (not_exists.1 hrun)
      exact ⟨hfiles, Or.inl (houtput hstatus)⟩
  · exact (leaves_runOn d hargs hr).of_printed hgoal hstatus
  · obtain ⟨houtput, prompt, hprompt, hw⟩ := (leaves_runOn d hargs (by simp)).of_saved hstatus
    obtain ⟨hread, hplace⟩ := FileTree.writeText_spec hw
    exact ⟨houtput, prompt, fun printing => run_render_eq hprompt, hprompt, hread, hplace⟩
  · by_cases hrun : ∃ r, Invocation.ofArguments args = .run r
    · obtain ⟨r, hargs⟩ := hrun
      by_cases hcheck : ∃ options, r = .check options
      · obtain ⟨options, rfl⟩ := hcheck
        exact files_runOn_check d hargs
      · have hr : ∀ options, r ≠ .check options := not_exists.1 hcheck
        exact (leaves_runOn d hargs hr).files_eq fun options path h => hgoal options path (h ▸ hargs)
    · exact (runOn_without_request d w t (not_exists.1 hrun)).1

/-- A template that is also the file to write. -/
def overwrittenFiles : FileTree :=
  ⟨[(["t".toList], .file (some "in \x7b\x7bshell\x7d\x7d"))]⟩

def printing : List String :=
  ["render", "--template", "t"]

def overwriting : List String :=
  ["render", "--template", "t", "--output", "t"]

def fullDisk : Devices :=
  { writeFault? := fun _ _ => some (.other "No space left on device (os error 28)") }

def brokenPipe : Devices :=
  { printFault? := fun _ => some (2, .other "Broken pipe (os error 32)") }

/-- The prompt takes the place of its own template, unless the disk is full. -/
theorem runOn_leaves_complete_texts_overwriting :
    (∃ prompt,
      run quotingSurroundings overwrittenFiles printing =
        (.finished (.printed prompt), overwrittenFiles) ∧
      (runOn {} quotingSurroundings overwrittenFiles overwriting).2.files.readText "/" "t" =
        .ok prompt) ∧
    ((runOn fullDisk quotingSurroundings overwrittenFiles overwriting).1.exitStatus ≠ 0 ∧
      (runOn fullDisk quotingSurroundings overwrittenFiles overwriting).2.output = [] ∧
      (runOn fullDisk quotingSurroundings overwrittenFiles overwriting).2.files =
        overwrittenFiles) ∧
    (∃ text, ((Request.render { template := some "t" } none).text quotingSurroundings).run
        overwrittenFiles "/" = .ok text ∧
      (runOn fullDisk quotingSurroundings overwrittenFiles printing).2 =
        ⟨bytes text, overwrittenFiles⟩) ∧
    CutShort brokenPipe quotingSurroundings overwrittenFiles
      (.render { template := some "t" } none)
      (runOn brokenPipe quotingSurroundings overwrittenFiles printing) ∧
    (runOn {} quotingSurroundings overwrittenFiles ["check", "--template", "t"]).2.files =
      overwrittenFiles := by
  have hsaves : Invocation.ofArguments overwriting =
      .run (.render { template := some "t" } (some "t")) := by
    decide +kernel
  have hprints : Invocation.ofArguments printing =
      .run (.render { template := some "t" } none) := by
    decide +kernel
  have hchecks : Invocation.ofArguments ["check", "--template", "t"] =
      .run (.check { template := some "t" }) := by
    decide +kernel
  have hsaved : (runOn {} quotingSurroundings overwrittenFiles overwriting).1.exitStatus = 0 := by
    decide +kernel
  have hrefused :
      (runOn fullDisk quotingSurroundings overwrittenFiles overwriting).1.exitStatus ≠ 0 := by
    decide +kernel
  have hprinted :
      (runOn fullDisk quotingSurroundings overwrittenFiles printing).1.exitStatus = 0 := by
    decide +kernel
  have hcut :
      (runOn brokenPipe quotingSurroundings overwrittenFiles printing).1.exitStatus ≠ 0 := by
    decide +kernel
  have hpart :
      (runOn brokenPipe quotingSurroundings overwrittenFiles printing).2.output ≠ [] := by
    decide +kernel
  obtain ⟨-, -, hsuccess, -⟩ :=
    runOn_leaves_complete_texts {} quotingSurroundings overwrittenFiles overwriting
  obtain ⟨hfailure, -⟩ :=
    runOn_leaves_complete_texts fullDisk quotingSurroundings overwrittenFiles overwriting
  obtain ⟨-, hshown, -⟩ :=
    runOn_leaves_complete_texts fullDisk quotingSurroundings overwrittenFiles printing
  obtain ⟨hstopped, -⟩ :=
    runOn_leaves_complete_texts brokenPipe quotingSurroundings overwrittenFiles printing
  obtain ⟨-, -, -, hunchanged⟩ := runOn_leaves_complete_texts {} quotingSurroundings
    overwrittenFiles ["check", "--template", "t"]
  obtain ⟨-, prompt, hsame, -, hread, -⟩ := hsuccess _ _ hsaves hsaved
  obtain ⟨hfiles, houtput⟩ := hfailure (by simp [hsaves]) hrefused
  obtain ⟨-, hshort⟩ := hstopped (by simp [hprints]) hcut
  refine ⟨⟨prompt, hsame _ hprints, hread⟩, ⟨hrefused, ?_, hfiles⟩,
    hshown _ hprints (by simp) (by simp) hprinted, ?_, hunchanged (by simp [hchecks])⟩
  · refine houtput.resolve_right ?_
    rintro ⟨r, hr, text, taken, fault, -, hgoal, -⟩
    exact hgoal _ _ (Invocation.run.inj (hr.symm.trans hsaves))
  · obtain ⟨r, hr, hshort⟩ := hshort.resolve_left hpart
    obtain rfl := Invocation.run.inj (hr.symm.trans hprints)
    exact hshort

/-- A pipe that breaks leaves a part of a prompt, and a question for the version is answered in the
place of a prompt that is to be saved. -/
theorem runOn_leaves_part_or_version :
    ((runOn brokenPipe quotingSurroundings overwrittenFiles printing).1.exitStatus = 1 ∧
      (runOn brokenPipe quotingSurroundings overwrittenFiles printing).2.output = bytes "in") ∧
    (runOn {} quotingSurroundings overwrittenFiles
      ["render", "--template", "t", "--output", "f", "--version"]).1.exitStatus = 0 ∧
    (runOn {} quotingSurroundings overwrittenFiles
      ["render", "--template", "t", "--output", "f", "--version"]).2.output =
        bytes "toolprompt-render 0.1.0\n" ∧
    (runOn {} quotingSurroundings overwrittenFiles
      ["render", "--template", "t", "--output", "f", "--version"]).2.files.readText "/" "f" =
        .error .missing := by
  refine ⟨⟨?_, ?_⟩, ?_, ?_, ?_⟩ <;> decide +kernel

end AgentPrompt.CommandLine
