import ThreeAddress.Proofs.Command.Files
import ThreeAddress.Proofs.Command.Verdict
import ThreeAddress.Proofs.Program.Independence

namespace ThreeAddress.Checked.CheckedUnit

open Lowering

variable {u : CheckedUnit}

def failing (u : CheckedUnit) : List CheckedUnit := u.singles.filter fun v ↦ !v.defects.isEmpty

theorem forall₂_filter_defects {vs : List CheckedUnit}
    (h : ∀ v ∈ vs, v.defects = [] ∨ ∃ d, v.lower = .ok (.error [d]) ∧ v.defects = [d]) :
    List.Forall₂ (fun v d ↦ v.lower = .ok (.error [d])) (vs.filter fun v ↦ !v.defects.isEmpty)
      (vs.flatMap defects) := by
  induction vs with
  | nil => exact .nil
  | cons v vs ih =>
    have hrest := ih fun v hv ↦ h v (List.mem_cons_of_mem _ hv)
    rw [List.filter_cons, List.flatMap_cons]
    rcases h v List.mem_cons_self with hv | ⟨d, hd, hv⟩
    · simpa [hv] using hrest
    · simpa [hv] using ⟨hd, hrest⟩

theorem failing_forall₂ {defects : List Defect} (h : u.lower = .ok (.error defects)) :
    List.Forall₂ (fun v d ↦ v.lower = .ok (.error [d])) u.failing defects := by
  obtain ⟨done, ht, hl⟩ := u.lower_tallied
  have hdefects : done.defects = u.singles.flatMap CheckedUnit.defects := by
    rw [ht.defects_eq, flatMap_defects u.singles_forall₂]
  have hd : done.defects = defects := by
    rw [hl, Except.ok.injEq, Progress.outcome] at h
    split at h
    · cases h
    · exact Except.error.inj h
  rw [← hd, hdefects]
  refine forall₂_filter_defects fun v hv ↦ ?_
  rcases u.singles_lower hv with ⟨-, -, hnone⟩ | hone
  · exact .inl hnone
  · exact .inr hone

end ThreeAddress.Checked.CheckedUnit

namespace ThreeAddress.Command

open Checked Code Lowering

variable {files : Files} {inv : Invocation} {u : CheckedUnit} {verbosity : Nat} {p : Code.Program}

/-- The log of lowering a unit comes to an instruction that cannot be shown. -/
def BreaksOff (verbosity : Nat) (u : CheckedUnit) : Prop :=
  4 ≤ verbosity ∧ ∃ i, u.Emits i ∧ i.offset? = some .minValue

theorem not_breaksOff {text : String} (hl : u.lower = .ok (.ok p)) (ht : p.text = .ok text) :
    ¬ BreaksOff verbosity u := by
  rintro ⟨-, i, hi, ho⟩
  obtain ⟨f, hf, hi⟩ := (CheckedUnit.mem_of_lower hl).mpr hi
  have herror := (p.text_failsIff .negation).mpr ⟨rfl, f, hf, i, hi, ho⟩
  rw [ht] at herror
  cases herror

/-- Either the log breaks off, and the run with it, or the run goes on with the outcome of lowering.
-/
theorem process_cases (inv : Invocation) (u : CheckedUnit) :
    ∃ trace, (∀ record ∈ trace, record.level ≠ .error) ∧
      ((BreaksOff inv.verbosity u ∧
        process inv u = .ended (crashed "" (Record.lines inv.verbosity trace) .negation)) ∨
      ¬ BreaksOff inv.verbosity u ∧ ∃ outcome, u.lower = .ok outcome ∧
        process inv u = conclude inv (Record.lines inv.verbosity trace) outcome) := by
  obtain ⟨done, hd⟩ := lowerClasses_ok u.symbols u.program.classes
  have hbreaks : BreaksOff inv.verbosity u ↔
      4 ≤ inv.verbosity ∧ ∃ event ∈ done.events, Unspeakable event := by
    simp only [BreaksOff, CheckedUnit.emits_iff hd, exists_unspeakable_iff]
  by_cases h : BreaksOff inv.verbosity u
  · obtain ⟨hv, hevent⟩ := hbreaks.mp h
    obtain ⟨trace, htrace, hp⟩ := process_of_unspeakable inv hd hv hevent
    exact ⟨trace, htrace, .inl ⟨h, hp⟩⟩
  · have hquiet : 4 ≤ inv.verbosity → ∀ event ∈ done.events, ¬ Unspeakable event :=
      fun hv event he hu ↦ h (hbreaks.mpr ⟨hv, event, he, hu⟩)
    refine ⟨done.events.map eventRecord, by simp [eventRecord_level_ne],
      .inr ⟨h, done.outcome, ?_, process_of_quiet hd hquiet⟩⟩
    rw [CheckedUnit.lower, hd]
    rfl

/-- What becomes of a run: a problem, a log that breaks off, or a program to be delivered. -/
theorem run_cases (inv : Invocation) (files : Files) :
    (∃ log problem, inv.run files = { failed log problem with files }) ∨
    (∃ log f, inv.run files = { crashed "" log f with files }) ∨
    ∃ u log p, loadUnit files inv.task.file = .ok u ∧ u.lower = .ok (.ok p) ∧
      inv.run files = (deliver inv log p).finish files := by
  cases hload : loadUnit files inv.task.file with
  | error problem => exact .inl ⟨_, problem, run_of_problem hload rfl⟩
  | ok u =>
    rw [run_of_unit hload rfl]
    obtain ⟨trace, -, ⟨-, hp⟩ | ⟨-, outcome, hl, hp⟩⟩ := process_cases inv u
    · exact .inr (.inl ⟨_, _, congrArg _ hp⟩)
    · cases outcome with
      | ok p => exact .inr (.inr ⟨u, _, p, rfl, hl, congrArg _ hp⟩)
      | error defects => exact .inl ⟨_, _, congrArg _ hp⟩

def Untouched (files : Files) (r : Result) : Prop := r.stdout = "" ∧ r.files = files

/-- A run that fails prints no listing, and no file is touched unless it succeeds. -/
def Harmless (files : Files) (r : Result) : Prop :=
  (r.status = 1 → r.stdout = "") ∧ (r.status ≠ 0 → r.files = files)

theorem Untouched.harmless {r : Result} (h : Untouched files r) : Harmless files r :=
  ⟨fun _ ↦ h.1, fun _ ↦ h.2⟩

theorem untouched_failed (files : Files) (log : String) (problem : Problem) :
    Untouched files { failed log problem with files } := ⟨rfl, rfl⟩

theorem untouched_crashed (files : Files) (log : String) (f : Fault) :
    Untouched files { crashed "" log f with files } := ⟨rfl, rfl⟩

theorem deliver_harmless (inv : Invocation) (files : Files) (log : String) (p : Code.Program) :
    Harmless files ((deliver inv log p).finish files) := by
  unfold deliver
  split
  · exact ⟨fun _ ↦ rfl, fun _ ↦ rfl⟩
  · split
    · exact ⟨nofun, fun _ ↦ rfl⟩
    · exact ⟨nofun, fun _ ↦ rfl⟩
  · split
    · exact (untouched_crashed files log _).harmless
    · rw [Course.finish]
      split
      · exact (untouched_failed files log _).harmless
      · exact ⟨fun _ ↦ rfl, fun h ↦ absurd rfl h⟩

theorem deliver_output_ok {file path log : String} (h : inv.task = .translate file (some path))
    (hs : ((deliver inv log p).finish files).status = 0) :
    ∃ text, p.text = .ok text ∧ ((deliver inv log p).finish files).stdout = "" ∧
      files.write path text = .ok ((deliver inv log p).finish files).files := by
  unfold deliver at hs ⊢
  rw [h] at hs ⊢
  cases ht : p.text with
  | error f =>
    simp only [ht] at hs
    cases hs
  | ok text =>
    simp only [ht, Course.finish] at hs ⊢
    cases hw : files.write path text with
    | error e =>
      simp only [hw] at hs
      cases hs
    | ok files' => exact ⟨text, rfl, rfl, hw⟩

theorem run_harmless (inv : Invocation) (files : Files) : Harmless files (inv.run files) := by
  obtain ⟨log, problem, hr⟩ | ⟨log, f, hr⟩ | ⟨u, log, p, -, -, hr⟩ := run_cases inv files
  · exact hr ▸ (untouched_failed files log problem).harmless
  · exact hr ▸ (untouched_crashed files log f).harmless
  · exact hr ▸ deliver_harmless inv files log p

theorem run_check_untouched {file : String} (h : inv.task = .check file) (files : Files) :
    Untouched files (inv.run files) := by
  obtain ⟨log, problem, hr⟩ | ⟨log, f, hr⟩ | ⟨u, log, p, -, -, hr⟩ := run_cases inv files
  · exact hr ▸ untouched_failed files log problem
  · exact hr ▸ untouched_crashed files log f
  · rw [hr, deliver, h]
    exact ⟨rfl, rfl⟩

theorem run_output_ok {file path : String} (h : inv.task = .translate file (some path))
    (hs : (inv.run files).status = 0) :
    ∃ u p text, loadUnit files file = .ok u ∧ u.lower = .ok (.ok p) ∧ p.text = .ok text ∧
      (inv.run files).stdout = "" ∧ files.write path text = .ok (inv.run files).files := by
  have hfile : inv.task.file = file := by rw [h]; rfl
  obtain ⟨log, problem, hr⟩ | ⟨log, f, hr⟩ | ⟨u, log, p, hload, hl, hr⟩ := run_cases inv files
  · rw [hr] at hs
    cases hs
  · rw [hr] at hs
    cases hs
  · rw [hr] at hs ⊢
    obtain ⟨text, ht, hstdout, hw⟩ := deliver_output_ok h hs
    exact ⟨u, p, text, hfile ▸ hload, hl, ht, hstdout, hw⟩

theorem run_print_ok {file text : String} (h : loadUnit files file = .ok u)
    (hl : u.lower = .ok (.ok p)) (ht : p.text = .ok text) (verbosity : Nat) :
    let r := Invocation.run { verbosity, task := .translate file none } files
    r.status = 0 ∧ r.stdout = text := by
  rw [run_of_unit h rfl]
  obtain ⟨trace, -, ⟨hb, -⟩ | ⟨-, outcome, hl', hp⟩⟩ :=
    process_cases { verbosity, task := .translate file none } u
  · exact absurd hb (not_breaksOff hl ht)
  · rw [hl] at hl'
    cases hl'
    rw [hp, conclude, deliver, ht]
    exact ⟨rfl, rfl⟩

theorem logLine_error (verbosity : Nat) (message : String) :
    logLine verbosity .error message = "ERROR - " ++ message ++ "\n" := by
  have htext : Level.error.text ++ " - " = "ERROR - " := rfl
  have hshown : Level.error.threshold ≤ verbosity := Nat.zero_le _
  rw [logLine, if_pos hshown, htext]

theorem problem_text_defects (defects : List Defect) :
    Problem.text ⟨summary defects, none⟩ =
      "Error: Lowering failed with " ++ toString defects.length ++ " error(s)\n" := by
  have hstart : "Error: " ++ "Lowering failed with " = "Error: Lowering failed with " := rfl
  have hend : " error(s)" ++ "\n" = " error(s)\n" := rfl
  calc Problem.text ⟨summary defects, none⟩
      = "Error: " ++ ("Lowering failed with " ++ toString defects.length ++ " error(s)") ++
        "\n" := rfl
    _ = ("Error: " ++ "Lowering failed with ") ++ toString defects.length ++
      (" error(s)" ++ "\n") := by
      simp only [String.append_assoc]
    _ = _ := by rw [hstart, hend]

/-- The run tells of some defects: an error line for each of them, in their order, and no other one,
and then a number. -/
def Reports (verbosity : Nat) (defects : List Defect) (count : Nat) (r : Result) : Prop :=
  r.status = 1 ∧ ∃ trace : List Record, (∀ record ∈ trace, record.level ≠ .error) ∧
    r.stderr = Record.lines verbosity trace ++
      String.join (defects.map fun d ↦ "ERROR - " ++ d.diagnostic ++ "\n") ++
      "Error: Lowering failed with " ++ toString count ++ " error(s)\n"

/-- The run breaks down without a word about defects. -/
def FallsSilent (verbosity : Nat) (r : Result) : Prop :=
  r.status = 101 ∧ ∃ trace : List Record, (∀ record ∈ trace, record.level ≠ .error) ∧
    r.stderr = Record.lines verbosity trace ++ "attempt to negate with overflow\n"

theorem run_defects {defects : List Defect} (h : loadUnit files inv.task.file = .ok u)
    (hl : u.lower = .ok (.error defects)) :
    (BreaksOff inv.verbosity u → FallsSilent inv.verbosity (inv.run files)) ∧
      (¬ BreaksOff inv.verbosity u →
        Reports inv.verbosity defects defects.length (inv.run files)) := by
  rw [run_of_unit h rfl]
  obtain ⟨trace, htrace, ⟨hb, hp⟩ | ⟨hb, outcome, hl', hp⟩⟩ := process_cases inv u
  · rw [hp]
    refine ⟨fun _ ↦ ⟨rfl, trace, htrace, ?_⟩, fun hn ↦ absurd hb hn⟩
    rw [Course.finish, crashed, String.append_assoc]
    rfl
  · refine ⟨fun hn ↦ absurd hn hb, fun _ ↦ ?_⟩
    rw [hl] at hl'
    cases hl'
    rw [hp]
    refine ⟨rfl, trace, htrace, ?_⟩
    simp only [conclude, failed, Course.finish, logLine_error, problem_text_defects,
      String.append_assoc]

/-- A run that fails prints no listing, and a run that does not succeed leaves every file as it was.
A check never prints a listing or writes a file. A translation into a file leaves there what a
translation without one prints, and no other file changes. Where methods have defects, there is one
error line for each of them, in their order, and then their number; only a log that comes to an
instruction that cannot be shown keeps a run from telling them. -/
theorem run?_effects (files : Files) {args : List String} {inv : Invocation}
    (hargs : Invocation.parse? args = some inv) :
    ∃ r, run? args files = some r ∧
      (r.status = 1 → r.stdout = "") ∧ (r.status ≠ 0 → r.files = files) ∧
      (∀ file, inv.task = .check file → r.stdout = "" ∧ r.files = files) ∧
      (∀ file path, inv.task = .translate file (some path) → r.status = 0 →
        r.stdout = "" ∧ ∃ text, Files.Updated files path text r.files ∧
          ∀ verbosity,
            let printed := Invocation.run { verbosity, task := .translate file none } files
            printed.status = 0 ∧ printed.stdout = text) ∧
      ∀ u defects, loadUnit files inv.task.file = .ok u → u.lower = .ok (.error defects) →
        List.Forall₂ (fun v d ↦ v.lower = .ok (.error [d])) u.failing defects ∧
        (BreaksOff inv.verbosity u → FallsSilent inv.verbosity r) ∧
        (¬ BreaksOff inv.verbosity u →
          Reports inv.verbosity defects u.failing.length r) := by
  refine ⟨inv.run files, by rw [run?, hargs]; rfl, (run_harmless inv files).1,
    (run_harmless inv files).2, fun file h ↦ run_check_untouched h files, ?_, ?_⟩
  · intro file path htask hs
    obtain ⟨u, p, text, hload, hl, ht, hstdout, hw⟩ := run_output_ok htask hs
    exact ⟨hstdout, text, Files.write_ok hw, run_print_ok hload hl ht⟩
  · intro u defects hload hl
    have hfailing := CheckedUnit.failing_forall₂ hl
    refine ⟨hfailing, ?_⟩
    rw [hfailing.length_eq]
    exact run_defects hload hl

def answerUnit : CheckedUnit where
  program := ⟨[⟨"Main", ⟨0⟩, [{
    name := "main"
    method := ⟨0⟩
    body := [.mk (.print [.mk (.literal (.int 42)) .int .notLValue {}]) {}]
    span := {} }], {}⟩]⟩
  symbols := { methods := #[⟨"main", ⟨0⟩, "main", 0, .void, true, none, []⟩] }

def answerListing : String :=
  "function main()\n        %1 = 42\n        param %1\n        call _PrintInt\n"

def strayUnit : CheckedUnit where
  program := ⟨[⟨"Main", ⟨0⟩, [⟨"leave", ⟨0⟩, [.mk .leave ⟨3, 8⟩], {}⟩, ⟨"idle", ⟨0⟩, [], {}⟩,
    ⟨"self", ⟨0⟩, [.mk (.exec (.mk .this (.object ⟨0⟩) .notLValue ⟨20, 24⟩)) {}], {}⟩], {}⟩]⟩
  symbols := answerUnit.symbols

def strayMessages : String :=
  "ERROR - at 3..8: 'break' outside of a loop\n" ++
    "ERROR - at 20..24: 'this' is not available in a static method\n" ++
    "Error: Lowering failed with 2 error(s)\n"

theorem parse?_onto_itself : Invocation.parse? ["translate", "unit", "-o", "unit"] =
    some { task := .translate "unit" (some "unit") } := rfl

theorem Record.lines_default {records : List Record} (h : ∀ r ∈ records, r.level ≠ .error) :
    Record.lines 1 records = "" := by
  have hnone : records.filter (·.level.threshold ≤ 1) = [] := by
    rw [List.filter_eq_nil_iff]
    intro r hr
    have hlevel := h r hr
    cases hl : r.level with
    | error => exact absurd hl hlevel
    | _ => simp [Level.threshold]
  rw [Record.lines, hnone]
  rfl

theorem answerUnit_onto_itself :
    (Invocation.run { task := .translate "unit" (some "unit") } (unitFiles answerUnit)).status = 0 ∧
      (Invocation.run { task := .translate "unit" none } (unitFiles answerUnit)).stdout =
        answerListing := by
  have hd : answerUnit.value.depth ≤ 127 := by decide +kernel
  have hload := loadUnit_unitFiles hd
  have hlower : ∃ p, answerUnit.lower = .ok (.ok p) ∧ p.text = .ok answerListing := by
    refine ⟨⟨[⟨"main", [], #[.constant ⟨1⟩ 42, .param ⟨1⟩, .call none "_PrintInt"]⟩]⟩, ?_, ?_⟩
    · decide +kernel
    · decide +kernel
  obtain ⟨p, hl, ht⟩ := hlower
  refine ⟨?_, (run_print_ok hload hl ht 1).2⟩
  rw [run_of_unit hload rfl]
  obtain ⟨trace, -, ⟨hb, -⟩ | ⟨-, outcome, hl', hp⟩⟩ :=
    process_cases { task := .translate "unit" (some "unit") } answerUnit
  · exact absurd hb (not_breaksOff hl ht)
  · rw [hl] at hl'
    cases hl'
    have hreach : (unitFiles answerUnit).reach "unit" = .ok ([], "unit") := by
      rw [Files.reach, ofString_unit]
      rfl
    have hwrite : ∃ files', (unitFiles answerUnit).write "unit" answerListing = .ok files' := by
      rw [Files.write, hreach, ofString_unit]
      exact ⟨_, rfl⟩
    obtain ⟨files', hwrite⟩ := hwrite
    rw [hp, conclude, deliver]
    simp only [ht, Course.finish, hwrite]

theorem strayUnit_effects :
    (∃ r, run? ["translate", "unit", "-o", "unit"] (unitFiles answerUnit) = some r ∧
      r.status = 0 ∧ r.stdout = "" ∧ r.files.read "unit" = .ok answerListing) ∧
    ∃ r, run? ["translate", "unit", "-o", "unit"] (unitFiles strayUnit) = some r ∧
      r.status = 1 ∧ r.stdout = "" ∧ r.files = unitFiles strayUnit ∧ r.stderr = strayMessages := by
  constructor
  · obtain ⟨r, hr, -, -, -, hwritten, -⟩ := run?_effects (unitFiles answerUnit) parse?_onto_itself
    obtain ⟨hstatus, hstdout⟩ := answerUnit_onto_itself
    have hr' : r = Invocation.run { task := .translate "unit" (some "unit") }
        (unitFiles answerUnit) := by
      rw [run?, parse?_onto_itself] at hr
      exact (Option.some.inj hr).symm
    have hs : r.status = 0 := by rw [hr', hstatus]
    obtain ⟨hout, text, hupdated, hprinted⟩ := hwritten _ _ rfl hs
    have htext : text = answerListing := (hprinted 1).2.symm.trans hstdout
    exact ⟨r, hr, hs, hout, htext ▸ hupdated.read_eq rfl⟩
  · have hd : strayUnit.value.depth ≤ 127 := by decide +kernel
    have hlower : strayUnit.lower = .ok (.error [⟨.breakOutsideLoop, ⟨3, 8⟩⟩,
        ⟨.missingReceiver, ⟨20, 24⟩⟩]) := by decide +kernel
    obtain ⟨r, hr, hout, hfiles, -, -, hdefects⟩ :=
      run?_effects (unitFiles strayUnit) parse?_onto_itself
    obtain ⟨hfailing, -, hreport⟩ := hdefects _ _ (loadUnit_unitFiles hd) hlower
    obtain ⟨hs, trace, htrace, hstderr⟩ := hreport fun hb ↦ absurd hb.1 (by decide)
    have hmessages : r.stderr = strayMessages := by
      rw [hstderr, Record.lines_default htrace, hfailing.length_eq]
      decide +kernel
    exact ⟨r, hr, hs, hout hs, hfiles (by rw [hs]; decide), hmessages⟩

/-- A stray statement behind a store that cannot be shown. -/
def farStrayUnit : CheckedUnit where
  program := ⟨[⟨"Main", ⟨0⟩, [{
    name := "clear"
    method := ⟨0⟩
    body :=
      let object : Expr := .mk (.ident none ⟨0⟩) (.object ⟨0⟩) .paramVar {}
      [.mk (.assign (.mk (.ident (some object) ⟨1⟩) .int .memberVar {})
        (.mk (.literal (.int 0)) .int .notLValue {})) {}, .mk .leave ⟨7, 12⟩]
    span := {} }], {}⟩]⟩
  symbols := farUnit.symbols

def farStrayDefect : Defect := ⟨.breakOutsideLoop, ⟨7, 12⟩⟩

def farStrayLog : String :=
  "DEBUG - Lowering class Main\nDEBUG - Lowering method clear as Main.clear\n" ++
    "DEBUG - Begin function Main.clear\nTRACE - Emit %2 = 0\nattempt to negate with overflow\n"

/-- The defect is reported where the course of lowering is shown without its instructions. With them
the run breaks down before it comes to the defect, with neither an error line nor a number. -/
theorem farStrayUnit_not_reported :
    farStrayUnit.lower = .ok (.error [farStrayDefect]) ∧
    (∃ r, run? ["-v", "3", "check", "unit"] (unitFiles farStrayUnit) = some r ∧
      Reports 3 [farStrayDefect] 1 r) ∧
    ∃ r, run? ["-v", "4", "check", "unit"] (unitFiles farStrayUnit) = some r ∧
      r.status = 101 ∧ r.stderr = farStrayLog ∧ ¬ Reports 4 [farStrayDefect] 1 r := by
  have hd : farStrayUnit.value.depth ≤ 127 := by decide +kernel
  have hload := loadUnit_unitFiles hd
  have hlower : farStrayUnit.lower = .ok (.error [farStrayDefect]) := by decide +kernel
  have hthree : parseVerbosity "3" = some 3 := by decide +kernel
  have hfour : parseVerbosity "4" = some 4 := by decide +kernel
  refine ⟨hlower, ⟨_, (run?_of_operand _ hthree operand_unit).1, ?_⟩,
    _, (run?_of_operand _ hfour operand_unit).1, ?_⟩
  · refine (run_defects hload hlower).2 fun hb ↦ absurd hb.1 ?_
    decide
  · rw [run_of_unit hload rfl]
    have hstatus : ((process { verbosity := 4, task := .check "unit" } farStrayUnit).finish
        (unitFiles farStrayUnit)).status = 101 := by decide +kernel
    refine ⟨hstatus, by decide +kernel, fun hr ↦ ?_⟩
    rw [Reports, hstatus] at hr
    exact absurd hr.1 (by decide)

end ThreeAddress.Command
