import Mathlib.Tactic.TFAE
import ThreeAddress.Command.Run
import ThreeAddress.Proofs.Checked.RoundTrip
import ThreeAddress.Proofs.Command.Files
import ThreeAddress.Proofs.Command.Log

namespace ThreeAddress.Command

open Checked Code Lowering

theorem Argument.ofString_of_verbosity {V : String} {v : Nat} (h : parseVerbosity V = some v) :
    Argument.ofString V = .plain V := by
  unfold Argument.ofString
  cases hV : V.toList with
  | nil => rfl
  | cons c cs =>
    by_cases hc : c = '-'
    · subst hc
      simp [parseVerbosity, hV] at h
    · split <;> simp_all

theorem Argument.eq_of_ofString {arg text : String} (h : Argument.ofString arg = .plain text) :
    text = arg := by
  unfold Argument.ofString at h
  split at h <;> simp_all

/-- Whether a text can stand for a file behind a subcommand, where it may not look like an option.
-/
def Operand (file : String) : Prop := Argument.ofString file = .plain file

namespace Operands

theorem add_of_operand {file : String} (h : Operand file) (takesOutput : Bool) :
    ({} : Operands).add takesOutput file = some { file := some file } := by
  have hf : Argument.ofString file = .plain file := h
  simp only [Operands.add, hf]
  rfl

theorem file_of_add {file : String} (h : ¬ Operand file) {takesOutput : Bool} {o : Operands}
    (ho : ({} : Operands).add takesOutput file = some o) : o.file = none := by
  have hplain (text : String) : Argument.ofString file ≠ .plain text := fun hf ↦
    h (Argument.eq_of_ofString hf ▸ hf)
  have hoption {attached : Option String} (hs : (if takesOutput then
      ({} : Operands).startOutput attached else none) = some o) : o.file = none := by
    split at hs
    · cases attached <;> cases hs <;> rfl
    · cases hs
  unfold Operands.add at ho
  split at ho
  case h_4 =>
    cases ho
    rfl
  case h_5 hf => exact absurd hf (hplain _)
  case h_6 => exact hoption ho
  case h_7 => exact hoption ho
  case h_8 => cases ho
  -- Nothing has been read yet, so anything may come.
  all_goals contradiction

end Operands

variable {files : Files} {file V : String} {v : Nat}

theorem parse?_of_operand (h : Operand file) :
    Task.parse? ["check", file] = some (.check file) ∧
      Task.parse? ["translate", file] = some (.translate file none) := by
  have hparse (takesOutput : Bool) :
      Operands.parse? takesOutput [file] = some { file := some file } := by
    rw [Operands.parse?, List.foldlM_cons, Operands.add_of_operand h]
    rfl
  constructor
  · rw [Task.parse?, hparse]
    rfl
  · rw [Task.parse?, hparse]
    rfl

theorem parse?_of_not_operand (h : ¬ Operand file) :
    Task.parse? ["check", file] = none ∧ Task.parse? ["translate", file] = none := by
  have hparse (takesOutput : Bool) (f : Operands → String → Option Task) :
      ((Operands.parse? takesOutput [file]).bind fun o ↦ o.file.bind (f o)) = none := by
    rw [Option.bind_eq_none_iff]
    intro o ho
    rw [Operands.parse?, List.foldlM_cons] at ho
    obtain ⟨o', ho', hrest⟩ := Option.bind_eq_some_iff.mp ho
    obtain ⟨o₁, hadd, hnil⟩ := Option.bind_eq_some_iff.mp ho'
    have hfile := Operands.file_of_add h hadd
    cases hnil
    split at hrest
    · cases hrest
    · cases hrest
      rw [hfile]
      rfl
  exact ⟨hparse false fun _ file ↦ some (.check file),
    hparse true fun o file ↦ some (.translate file o.output)⟩

theorem parse?_verbose (hV : parseVerbosity V = some v) (args : List String) :
    Invocation.parse? ("-v" :: V :: args) =
      (Task.parse? args).map fun task ↦ { verbosity := v, task } := by
  have hv : Argument.ofString "-v" = .short 'v' none := by decide +kernel
  simp only [Invocation.parse?, hv, Argument.ofString_of_verbosity hV, Invocation.parseVerbose, hV]
  cases Task.parse? args <;> rfl

theorem run?_of_operand (files : Files) (hV : parseVerbosity V = some v) (h : Operand file) :
    run? ["-v", V, "check", file] files =
        some (Invocation.run { verbosity := v, task := .check file } files) ∧
      run? ["-v", V, "translate", file] files =
        some (Invocation.run { verbosity := v, task := .translate file none } files) := by
  obtain ⟨hcheck, htranslate⟩ := parse?_of_operand h
  constructor
  · rw [run?, parse?_verbose hV, hcheck]
    rfl
  · rw [run?, parse?_verbose hV, htranslate]
    rfl

theorem run?_of_not_operand (hV : parseVerbosity V = some v) (h : ¬ Operand file) :
    run? ["-v", V, "check", file] files = none ∧
      run? ["-v", V, "translate", file] files = none := by
  obtain ⟨hcheck, htranslate⟩ := parse?_of_not_operand h
  constructor
  · rw [run?, parse?_verbose hV, hcheck]
    rfl
  · rw [run?, parse?_verbose hV, htranslate]
    rfl

/-- The report on a file. The trace is the course of lowering, the errors are the defects found, and
the problem is what the run ends with, if anything. -/
structure Report where
  trace : List Record := []
  errors : List String := []
  problem : Option Problem := none
  listing : String := ""

namespace Report

def status (r : Report) : Nat := if r.problem.isSome then 1 else 0

def ending (r : Report) : String := (r.problem.map Problem.text).getD ""

def text (r : Report) (verbosity : Nat) (closing : List Record) : String :=
  Record.lines verbosity (r.trace ++ r.errors.map (⟨.error, ·⟩) ++ closing) ++ r.ending

def checked (r : Report) (files : Files) (file : String) (verbosity : Nat) : Result where
  status := r.status
  stderr := r.text verbosity
    (if r.problem.isSome then [] else [⟨.info, file ++ " lowers cleanly"⟩])
  files := files

def translated (r : Report) (files : Files) (verbosity : Nat) : Result where
  status := r.status
  stdout := r.listing
  stderr := r.text verbosity []
  files := files

end Report

/-- Whatever the subcommand and the verbosity, runs on a file tell of one and the same report, and
no error comes from anywhere else. Without a report, the file cannot even be named. -/
def Agreed (files : Files) (file : String) : Prop :=
  ∃ report : Option Report, (∀ r ∈ report, ∀ record ∈ r.trace, record.level ≠ .error) ∧
    ∀ V v, parseVerbosity V = some v →
      run? ["-v", V, "check", file] files = report.map (·.checked files file v) ∧
      run? ["-v", V, "translate", file] files = report.map (·.translated files v)

/-- How a run ends. Arguments that are refused give the status 2. -/
def exitStatus (args : List String) (files : Files) : Nat :=
  ((run? args files).map (·.status)).getD 2

def SameStatus (files : Files) (file : String) : Prop :=
  ∀ V v W w, parseVerbosity V = some v → parseVerbosity W = some w →
    exitStatus ["-v", V, "check", file] files = exitStatus ["-v", W, "translate", file] files

/-- The file holds a unit that is lowered to something that cannot be shown, be it in a method with
a defect. -/
def Untellable (files : Files) (file : String) : Prop :=
  Operand file ∧ ∃ u i, loadUnit files file = .ok u ∧ u.Emits i ∧ i.offset? = some .minValue

theorem Agreed.sameStatus (h : Agreed files file) : SameStatus files file := by
  obtain ⟨report, -, h⟩ := h
  intro V v W w hV hW
  rw [exitStatus, exitStatus, (h V v hV).1, (h W w hW).2]
  cases report <;> rfl

theorem run_of_problem {p : Problem} (h : loadUnit files file = .error p) {inv : Invocation}
    (hfile : inv.task.file = file) : inv.run files = { failed "" p with files } := by
  rw [Invocation.run, Invocation.course, hfile]
  simp only [show unitIn file (files.read file) = .error p from h]
  rfl

theorem run_of_unit {u : CheckedUnit} (h : loadUnit files file = .ok u) {inv : Invocation}
    (hfile : inv.task.file = file) : inv.run files = (process inv u).finish files := by
  rw [Invocation.run, Invocation.course, hfile]
  simp only [show unitIn file (files.read file) = .ok u from h]

theorem process_of_quiet {u : CheckedUnit} {done : Progress} {inv : Invocation}
    (hd : lowerClasses u.symbols u.program.classes = .ok done)
    (h : 4 ≤ inv.verbosity → ∀ event ∈ done.events, ¬ Unspeakable event) :
    process inv u = conclude inv
      (Record.lines inv.verbosity (done.events.map eventRecord)) done.outcome := by
  rw [process, hd]
  simp only [eventLog_of_quiet h]

/-- The run breaks down with the log, which has no errors in it. -/
theorem process_of_unspeakable {u : CheckedUnit} {done : Progress} (inv : Invocation)
    (hd : lowerClasses u.symbols u.program.classes = .ok done) (hv : 4 ≤ inv.verbosity)
    (h : ∃ event ∈ done.events, Unspeakable event) :
    ∃ trace, (∀ record ∈ trace, record.level ≠ .error) ∧
      process inv u = .ended (crashed "" (Record.lines inv.verbosity trace) .negation) := by
  obtain ⟨before, -, hlog⟩ := eventLog_of_unspeakable hv h
  refine ⟨before.map eventRecord, by simp [eventRecord_level_ne], ?_⟩
  rw [process, hd]
  simp only [hlog]

/-- Both subcommands log the same and go on with the same outcome. -/
theorem run?_of_quiet {u : CheckedUnit} {done : Progress} (hf : Operand file)
    (h : loadUnit files file = .ok u)
    (hd : lowerClasses u.symbols u.program.classes = .ok done)
    (hquiet : ∀ event ∈ done.events, ¬ Unspeakable event) (hV : parseVerbosity V = some v) :
    run? ["-v", V, "check", file] files =
        some ((conclude { verbosity := v, task := .check file }
          (Record.lines v (done.events.map eventRecord)) done.outcome).finish files) ∧
      run? ["-v", V, "translate", file] files =
        some ((conclude { verbosity := v, task := .translate file none }
          (Record.lines v (done.events.map eventRecord)) done.outcome).finish files) := by
  obtain ⟨hcheck, htranslate⟩ := run?_of_operand files hV hf
  rw [hcheck, htranslate, run_of_unit h rfl, run_of_unit h rfl,
    process_of_quiet hd fun _ ↦ hquiet, process_of_quiet hd fun _ ↦ hquiet]
  exact ⟨rfl, rfl⟩

theorem text_ok_of_emits {u : CheckedUnit} {p : Code.Program} (hl : u.lower = .ok (.ok p))
    (h : ∀ i, u.Emits i → i.offset? ≠ some .minValue) : ∃ text, p.text = .ok text := by
  cases ht : p.text with
  | ok text => exact ⟨text, rfl⟩
  | error fault =>
    obtain ⟨-, f, hf, i, hi, ho⟩ := (p.text_failsIff fault).mp ht
    exact absurd ho (h i ((CheckedUnit.mem_of_lower hl).mp ⟨f, hf, hi⟩))

theorem agreed_of_problem {p : Problem} (hf : Operand file) (h : loadUnit files file = .error p) :
    Agreed files file := by
  refine ⟨some { problem := some p }, by simp, fun V v hV ↦ ?_⟩
  obtain ⟨hcheck, htranslate⟩ := run?_of_operand files hV hf
  rw [hcheck, htranslate, run_of_problem h rfl, run_of_problem h rfl]
  exact ⟨rfl, rfl⟩

theorem agreed_of_unit {u : CheckedUnit} (hf : Operand file) (h : loadUnit files file = .ok u)
    (hu : ∀ i, u.Emits i → i.offset? ≠ some .minValue) : Agreed files file := by
  obtain ⟨done, hd⟩ := lowerClasses_ok u.symbols u.program.classes
  have hl : u.lower = .ok done.outcome := by
    rw [CheckedUnit.lower, hd]
    rfl
  have hquiet : ∀ event ∈ done.events, ¬ Unspeakable event := by
    intro event he hevent
    obtain ⟨i, hi, ho⟩ := exists_unspeakable_iff.mp ⟨event, he, hevent⟩
    exact hu i ⟨done, hd, hi⟩ ho
  have htrace : ∀ record ∈ done.events.map eventRecord, record.level ≠ .error := by
    simp [eventRecord_level_ne]
  cases ho : done.outcome with
  | ok p =>
    rw [ho] at hl
    obtain ⟨text, ht⟩ := text_ok_of_emits hl hu
    refine ⟨some { trace := done.events.map eventRecord, listing := text }, by simpa using htrace,
      fun V v hV ↦ ?_⟩
    obtain ⟨hcheck, htranslate⟩ := run?_of_quiet hf h hd hquiet hV
    rw [hcheck, htranslate, ho]
    simp only [conclude, deliver, ht, Course.finish, Option.map_some, Option.some.injEq]
    constructor
    · simp [Report.checked, Report.status, Report.text, Report.ending, Record.lines_append,
        Record.lines_singleton]
    · simp [Report.translated, Report.status, Report.text, Report.ending]
  | error defects =>
    refine ⟨some {
      trace := done.events.map eventRecord
      errors := defects.map Defect.diagnostic
      problem := some ⟨summary defects, none⟩ }, by simpa using htrace, fun V v hV ↦ ?_⟩
    obtain ⟨hcheck, htranslate⟩ := run?_of_quiet hf h hd hquiet hV
    rw [hcheck, htranslate, ho]
    have hlines : Record.lines v (defects.map fun d ↦ ⟨.error, d.diagnostic⟩) =
        String.join (defects.map fun d ↦ logLine v .error d.diagnostic) := by
      have hmap := Record.lines_map_error v (defects.map Defect.diagnostic)
      simpa [Function.comp_def] using hmap
    simp only [conclude, failed, Course.finish, Option.map_some, Option.some.injEq]
    constructor
    · simp [Report.checked, Report.status, Report.text, Report.ending, Record.lines_append, hlines,
        Function.comp_def]
    · simp [Report.translated, Report.status, Report.text, Report.ending, Record.lines_append,
        hlines, Function.comp_def]

theorem agreed_of_not_operand (h : ¬ Operand file) : Agreed files file := by
  refine ⟨none, by simp, fun V v hV ↦ ?_⟩
  exact run?_of_not_operand hV h

theorem agreed_of_tellable (h : ¬ Untellable files file) : Agreed files file := by
  by_cases hf : Operand file
  · cases hload : loadUnit files file with
    | error p => exact agreed_of_problem hf hload
    | ok u => exact agreed_of_unit hf hload fun i hi ho ↦ h ⟨hf, u, i, hload, hi, ho⟩
  · exact agreed_of_not_operand hf

theorem status_of_check_le (files : Files) (file : String) (u : CheckedUnit) :
    ((process { verbosity := 0, task := .check file } u).finish files).status ≤ 1 := by
  obtain ⟨done, hd⟩ := lowerClasses_ok u.symbols u.program.classes
  rw [process_of_quiet hd (by simp)]
  cases done.outcome with
  | ok p => simp [conclude, deliver, Course.finish]
  | error defects => simp [conclude, failed, Course.finish]

theorem not_sameStatus (h : Untellable files file) : ¬ SameStatus files file := by
  intro hs
  obtain ⟨hf, u, i, hload, ⟨done, hd, hi⟩, ho⟩ := h
  have hzero : parseVerbosity "0" = some 0 := by decide +kernel
  have hfour : parseVerbosity "4" = some 4 := by decide +kernel
  have hsame := hs "0" 0 "4" 4 hzero hfour
  rw [exitStatus, exitStatus, (run?_of_operand files hzero hf).1,
    (run?_of_operand files hfour hf).2,
    run_of_unit hload rfl, run_of_unit hload rfl] at hsame
  have hle := status_of_check_le files file u
  obtain ⟨trace, -, hcrash⟩ := process_of_unspeakable ⟨4, .translate file none⟩ hd le_rfl
    (exists_unspeakable_iff.mpr ⟨i, hi, ho⟩)
  have hstatus : ((process { verbosity := 4, task := .translate file none } u).finish
      files).status = 101 := by
    rw [hcrash]
    rfl
  simp only [Option.map_some, Option.getD_some, hstatus] at hsame
  omega

def unitFiles (u : CheckedUnit) : Files := { entries := [(["unit"], u.text.toUTF8)] }

theorem ofString_unit : Path.ofString "unit" = ⟨false, ["unit"], false⟩ := by
  have hsplit : "unit".splitOn "/" = ["unit"] := by
    unfold String.splitOn
    rw [if_neg (by decide)]
    -- One step per character, and one for the end.
    iterate 5 unfold String.splitOnAux
    decide +kernel
  rw [Path.ofString, hsplit]
  decide +kernel

theorem loadUnit_unitFiles {u : CheckedUnit} (h : u.value.depth ≤ 127) :
    loadUnit (unitFiles u) "unit" = .ok u := by
  have hreach : (unitFiles u).reach "unit" = .ok ([], "unit") := by
    rw [Files.reach, ofString_unit]
    rfl
  have hfetch : (unitFiles u).fetch "unit" = .ok u.text.toUTF8 := by
    rw [Files.fetch, hreach, ofString_unit]
    rfl
  have htext : CheckedUnit.ofText u.text = .ok u := Json.Reader.run_text u.reads h
  rw [loadUnit, Files.read_of_fetch hfetch, unitIn]
  simp only [htext]

theorem operand_unit : Operand "unit" := by
  unfold Operand
  decide +kernel

theorem exitStatus_unitFiles {u : CheckedUnit} (h : u.value.depth ≤ 127)
    (hV : parseVerbosity V = some v) :
    exitStatus ["-v", V, "check", "unit"] (unitFiles u) =
        ((process { verbosity := v, task := .check "unit" } u).finish (unitFiles u)).status ∧
      exitStatus ["-v", V, "translate", "unit"] (unitFiles u) =
        ((process { verbosity := v, task := .translate "unit" none } u).finish
          (unitFiles u)).status := by
  have hload := loadUnit_unitFiles h
  obtain ⟨hcheck, htranslate⟩ := run?_of_operand (unitFiles u) hV operand_unit
  constructor
  · rw [exitStatus, hcheck, run_of_unit hload rfl]
    rfl
  · rw [exitStatus, htranslate, run_of_unit hload rfl]
    rfl

/-- Checks and translations of a file agree in everything if they agree in how they end. They do
unless lowering emits something that cannot be shown, and for that a symbol has to have the offset
that has no opposite. -/
theorem agreed_tfae (files : Files) (file : String) :
    [Agreed files file, SameStatus files file, ¬ Untellable files file].TFAE ∧
      ∀ u, loadUnit files file = .ok u → ¬ u.symbols.HasOffset .minValue → Agreed files file := by
  constructor
  · tfae_have 1 → 2 := Agreed.sameStatus
    tfae_have 2 → 3 := fun hs h ↦ not_sameStatus h hs
    tfae_have 3 → 1 := agreed_of_tellable
    tfae_finish
  · intro u hload hu
    refine agreed_of_tellable ?_
    rintro ⟨-, u', i, hload', hi, ho⟩
    rw [hload] at hload'
    cases hload'
    exact hu (hi.grounded ho)

theorem deepUnit_agreed :
    ¬ deepUnit.symbols.HasOffset .minValue ∧ Agreed (unitFiles deepUnit) "unit" := by
  have ho : ¬ deepUnit.symbols.HasOffset .minValue := by
    simp [SymbolTable.HasOffset, deepUnit]
  have hd : deepUnit.value.depth ≤ 127 := by decide +kernel
  exact ⟨ho, (agreed_tfae (unitFiles deepUnit) "unit").2 deepUnit (loadUnit_unitFiles hd) ho⟩

/-- A unit passes the check and cannot be translated, and even the check breaks down where its
course is to be shown. -/
theorem farUnit_not_sameStatus :
    exitStatus ["-v", "1", "check", "unit"] (unitFiles farUnit) = 0 ∧
    exitStatus ["-v", "1", "translate", "unit"] (unitFiles farUnit) = 101 ∧
    exitStatus ["-v", "4", "check", "unit"] (unitFiles farUnit) = 101 ∧
    ¬ SameStatus (unitFiles farUnit) "unit" := by
  have hd : farUnit.value.depth ≤ 127 := by decide +kernel
  have hone : parseVerbosity "1" = some 1 := by decide +kernel
  have hfour : parseVerbosity "4" = some 4 := by decide +kernel
  obtain ⟨hcheck, htranslate⟩ := exitStatus_unitFiles hd hone
  have hstatus : exitStatus ["-v", "1", "check", "unit"] (unitFiles farUnit) = 0 := by
    rw [hcheck]
    decide +kernel
  have hcrash : exitStatus ["-v", "1", "translate", "unit"] (unitFiles farUnit) = 101 := by
    rw [htranslate]
    decide +kernel
  refine ⟨hstatus, hcrash, ?_, fun hs ↦ ?_⟩
  · rw [(exitStatus_unitFiles hd hfour).1]
    decide +kernel
  · have hsame := hs "1" 1 "1" 1 hone hone
    rw [hstatus, hcrash] at hsame
    cases hsame

end ThreeAddress.Command
