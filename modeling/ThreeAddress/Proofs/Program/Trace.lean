import ThreeAddress.Proofs.Lowering.Trace
import ThreeAddress.Proofs.Program.Faults

namespace ThreeAddress.Lowering

open Checked Code

variable {symbols : SymbolTable} {m : MethodDef} {g : Generator}

theorem declareReceiver_quiet (symbol : MethodSymbol) (s : State) :
    ∃ receiver s', declareReceiver symbol s = .ok receiver s' ∧
      s'.generator.log = s.generator.log := by
  unfold declareReceiver
  cases receiverOf symbol with
  | none => exact ⟨_, _, rfl, rfl⟩
  | some v => exact ⟨_, _, rfl, rfl⟩

theorem declareParams_quiet (vs : List VarId) (s : State) :
    ∃ ts s', declareParams vs s = .ok ts s' ∧ s'.generator.log = s.generator.log := by
  induction vs generalizing s with
  | nil => exact ⟨[], s, rfl, rfl⟩
  | cons v vs ih =>
    let t := s.generator.freshTemp.1
    let s₁ : State := { generator := s.generator.freshTemp.2, bound := (v, t) :: s.bound }
    have hd : declare v s = .ok t s₁ := rfl
    obtain ⟨ts, s', hs, hlog⟩ := ih s₁
    refine ⟨t :: ts, s', ?_, hlog⟩
    rw [declareParams, bind_of_ok hd, bind_of_ok hs]
    rfl

/-- Some events joined the log, and the instructions among them are in order. -/
structure Joined (symbols : SymbolTable) (g g' : Generator) (new : List Event) : Prop where
  log_eq : g'.log = new ++ g.log
  grounded : ∀ i ∈ recorded new, Grounded symbols i

theorem lowerMethod_joined (symbols : SymbolTable) (m : MethodDef) (g : Generator) :
    match lowerMethod symbols m { generator := g } with
    | .ok f s => ∃ new, Joined symbols g s.generator new ∧ f.body.toList = (recorded new).reverse
    | .error _ s => ∃ new, Joined symbols g s.generator new := by
  cases hm : symbols.method? m.method with
  | none =>
    have hfail : lowerMethod symbols m { generator := g } =
        .error (.defect ⟨.unknownMethod m.method, m.span⟩) { generator := g } := by
      rw [lowerMethod, Env.findMethod_eq]
      show (lookUp (symbols.method? m.method) _ _ >>= _) _ = _
      rw [hm]
      rfl
    rw [hfail]
    exact ⟨[], rfl, by simp⟩
  | some symbol =>
    have hfind (s : State) : Env.findMethod ⟨symbols, none⟩ m.method m.span s = .ok symbol s := by
      rw [Env.findMethod_eq]
      show lookUp (symbols.method? m.method) _ _ s = _
      rw [hm]
      rfl
    let start : Event := .noted ("Lowering method " ++ m.name ++ " as " ++ symbol.label)
    obtain ⟨receiver, s₁, hr, hlog₁⟩ := declareReceiver_quiet symbol { generator := g.note start }
    obtain ⟨params, s₂, hp, hlog₂⟩ := declareParams_quiet symbol.params s₁
    have hlog : s₂.generator.log = start :: g.log := hlog₂.trans hlog₁
    let opened := s₂.generator.openFunction symbol.label (receiver.toList ++ params)
    have hbody : lowerMethod symbols m { generator := g } =
        (Stmt.lowerAll ⟨symbols, receiver⟩ none m.body >>= fun _ ↦ step Generator.closeFunction)
          { s₂ with generator := opened } := by
      rw [lowerMethod, bind_of_ok (hfind _)]
      refine Eq.trans (bind_of_ok rfl _) ?_
      rw [bind_of_ok hr, bind_of_ok hp]
      rfl
    have hopened : opened.log = [.functionOpened symbol.label, start] ++ g.log :=
      congrArg (Event.functionOpened symbol.label :: ·) hlog
    have hrecords : Records symbols (Stmt.lowerAll ⟨symbols, receiver⟩ none m.body) :=
      Stmt.recordsAll none m.body
    have hs := hrecords { s₂ with generator := opened }
    rw [hbody]
    cases hl : Stmt.lowerAll ⟨symbols, receiver⟩ none m.body { s₂ with generator := opened } with
    | error e s₃ =>
      rw [hl] at hs
      obtain ⟨new, hnew⟩ := hs
      rw [bind_of_error hl]
      refine ⟨new ++ [.functionOpened symbol.label, start], ?_, ?_⟩
      · rw [hnew.log_eq, hopened, List.append_assoc]
      · simpa [Event.instr?, start] using hnew.grounded
    | ok a s₃ =>
      rw [hl] at hs
      obtain ⟨new, hnew⟩ := hs
      rw [bind_of_ok hl]
      refine ⟨.functionClosed s₃.generator.current.name s₃.generator.current.body.size ::
        (new ++ [.functionOpened symbol.label, start]), ⟨?_, ?_⟩, ?_⟩
      · show _ :: s₃.generator.log = _
        rw [hnew.log_eq, hopened]
        simp
      · simpa [Event.instr?, start] using hnew.grounded
      · have hcode := hnew.body_eq
        simpa [Event.instr?, start, opened, Generator.openFunction, Generator.note]
          using hcode

/-- What the log tells about a run so far. -/
structure Traced (symbols : SymbolTable) (done : Progress) : Prop where
  grounded : ∀ i ∈ recorded done.events, Grounded symbols i
  code_eq : done.defects = [] →
    done.functions.flatMap (·.body.toList) = recorded done.events

namespace Traced

variable {done done' : Progress}

theorem recorded_events (done : Progress) :
    recorded done.events = (recorded done.generator.log).reverse := by
  simp [recorded, Progress.events]

theorem note {event : Event} (h : Traced symbols done) (he : event.instr? = none) :
    Traced symbols { done with generator := done.generator.note event } := by
  have hevents : recorded { done with generator := done.generator.note event }.events =
      recorded done.events := by
    simp [recorded_events, Generator.note, he]
  exact ⟨hevents ▸ h.grounded, fun hd ↦ (h.code_eq hd).trans hevents.symm⟩

theorem addMethod {c : ClassDef} (h : Traced symbols done)
    (ha : done.addMethod symbols c m = .ok done') : Traced symbols done' := by
  have hm := lowerMethod_joined symbols m done.generator
  unfold Progress.addMethod at ha
  cases hr : lowerMethod symbols m { generator := done.generator } with
  | ok f s =>
    rw [hr] at hm ha
    cases ha
    obtain ⟨new, hnew, hf⟩ := hm
    have hevents : recorded { done with
        generator := s.generator
        functions := done.functions ++ [f] }.events = recorded done.events ++ f.body.toList := by
      simp [recorded_events, hnew.log_eq, hf]
    refine ⟨?_, fun hd ↦ ?_⟩
    · rw [hevents]
      intro i hi
      rcases List.mem_append.mp hi with hi | hi
      · exact h.grounded i hi
      · exact hnew.grounded i (by simpa [hf] using hi)
    · rw [hevents, ← h.code_eq hd]
      simp
  | error e s =>
    rw [hr] at hm ha
    cases e with
    | fault f => cases ha
    | defect d =>
      cases ha
      obtain ⟨new, hnew⟩ := hm
      refine ⟨fun i hi ↦ ?_, fun hd ↦ by simp at hd⟩
      rw [recorded_events, List.mem_reverse] at hi
      have hlog : i ∈ recorded s.generator.log := by
        simpa [Generator.note, Event.instr?] using hi
      rw [hnew.log_eq, recorded_append, List.mem_append] at hlog
      rcases hlog with hlog | hlog
      · exact hnew.grounded i hlog
      · refine h.grounded i ?_
        rwa [recorded_events, List.mem_reverse]

end Traced

theorem lowerClasses_traced (symbols : SymbolTable) (classes : List ClassDef) :
    ∃ done, lowerClasses symbols classes = .ok done ∧ Traced symbols done := by
  let P (done : Progress) : Prop := Settled { generator := done.generator } ∧ Traced symbols done
  have hmethod (c : ClassDef) (done : Progress) (m : MethodDef) (h : P done) :
      ∃ done', done.addMethod symbols c m = .ok done' ∧ P done' := by
    obtain ⟨done', ha, hs⟩ := addMethod_ok symbols c done m h.1
    exact ⟨done', ha, hs, h.2.addMethod ha⟩
  have hstart : P {} := ⟨settled_empty, by simp [Progress.events], fun _ ↦ rfl⟩
  obtain ⟨done, h, -, ht⟩ := foldlM_ok (P := P) (f := Progress.addClass symbols) (b := {})
    (fun done c h ↦ foldlM_ok (P := P) (hmethod c) c.methods ⟨h.1, h.2.note rfl⟩) classes hstart
  exact ⟨done, h, ht⟩

end ThreeAddress.Lowering

namespace ThreeAddress.Checked

open Code Lowering

/-- Lowering appends the instruction at some time, also to the code of a method with a defect. -/
def CheckedUnit.Emits (u : CheckedUnit) (i : Instr) : Prop :=
  ∃ done, lowerClasses u.symbols u.program.classes = .ok done ∧ i ∈ recorded done.events

namespace CheckedUnit

variable {u : CheckedUnit} {i : Instr}

theorem emits_iff {done : Progress} (h : lowerClasses u.symbols u.program.classes = .ok done) :
    u.Emits i ↔ i ∈ recorded done.events := by
  refine ⟨fun ⟨done', h', hi⟩ ↦ ?_, fun hi ↦ ⟨done, h, hi⟩⟩
  rw [h] at h'
  cases h'
  exact hi

theorem Emits.grounded (h : u.Emits i) : Grounded u.symbols i := by
  obtain ⟨done, hd, ht⟩ := lowerClasses_traced u.symbols u.program.classes
  exact ht.grounded i ((emits_iff hd).mp h)

theorem mem_of_lower {p : Code.Program} (h : u.lower = .ok (.ok p)) :
    (∃ f ∈ p.functions, i ∈ f.body.toList) ↔ u.Emits i := by
  obtain ⟨done, hd, ht⟩ := lowerClasses_traced u.symbols u.program.classes
  have ho : done.outcome = .ok p := by
    rw [CheckedUnit.lower, hd] at h
    exact Except.ok.inj h
  unfold Progress.outcome at ho
  split at ho
  · rename_i hdefects
    cases ho
    rw [emits_iff hd, ← ht.code_eq (List.isEmpty_iff.mp hdefects), List.mem_flatMap]
  · cases ho

end CheckedUnit

end ThreeAddress.Checked
