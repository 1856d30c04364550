import ThreeAddress.Proofs.Control.Layout
import ThreeAddress.Proofs.Except

namespace ThreeAddress.Control

open Checked Code Lowering

/-- Lowers a method and keeps the outline of its body. -/
def outlineMethod (symbols : SymbolTable) (m : MethodDef) : Lower (Outline × Function) := do
  let symbol ← Env.findMethod ⟨symbols, none⟩ m.method m.span
  step fun g => ((), g.note (.noted ("Lowering method " ++ m.name ++ " as " ++ symbol.label)))
  let receiver ← declareReceiver symbol
  let params ← declareParams symbol.params
  step fun g => ((), g.openFunction symbol.label (receiver.toList ++ params))
  let o ← Stmt.outlineAll ⟨symbols, receiver⟩ none m.body
  let f ← step Generator.closeFunction
  return (o, f)

theorem outlineMethod_refines (symbols : SymbolTable) (m : MethodDef) :
    Refines Prod.snd (outlineMethod symbols m) (lowerMethod symbols m) := by
  refine .same fun symbol ↦ .same fun _ ↦ .same fun receiver ↦ .same fun params ↦ .same fun _ ↦
    (Stmt.outlineAll_refines none m.body).bind fun o ↦ ?_
  have h := Refines.same (q := Prod.snd) (x := step Generator.closeFunction) (g := pure)
    fun f ↦ Refines.pure (r := Prod.snd) (o, f)
  rwa [bind_pure] at h

end ThreeAddress.Control

namespace ThreeAddress.Lowering

open Checked Code Control

variable {symbols : SymbolTable} {m : MethodDef} {f : Function} {g : Generator} {s s' : State}

/-- Some variables have got temporaries, one after the other. -/
structure Declared (vs : List VarId) (s : State) (ts : List Temp) (s' : State) : Prop where
  emission : Emission s s' [] []
  ascending : Ascending s.temps ts s'.temps
  length_eq : ts.length = vs.length
  bound_eq : s'.bound = (vs.zip ts).reverse ++ s.bound

namespace Declared

theorem nil (s : State) : Declared [] s [] s := ⟨.refl s, le_rfl, rfl, rfl⟩

theorem single {v : VarId} {t : Temp} (h : declare v s = .ok t s') : Declared [v] s [t] s' := by
  obtain ⟨e, ht, hb⟩ := declare_ok h
  exact ⟨e, ht, rfl, hb⟩

theorem append {vs ws : List VarId} {ts us : List Temp} {s₁ : State} (h₁ : Declared vs s ts s₁)
    (h₂ : Declared ws s₁ us s') : Declared (vs ++ ws) s (ts ++ us) s' := by
  refine ⟨h₁.emission.trans h₂.emission, h₁.ascending.append h₂.ascending, ?_, ?_⟩
  · rw [List.length_append, List.length_append, h₁.length_eq, h₂.length_eq]
  · rw [h₂.bound_eq, h₁.bound_eq, List.zip_append h₁.length_eq.symm, List.reverse_append,
      List.append_assoc]

end Declared

theorem declareReceiver_ok {symbol : MethodSymbol} {receiver : Option Temp}
    (h : declareReceiver symbol s = .ok receiver s') :
    Declared (receiverOf symbol).toList s receiver.toList s' := by
  unfold declareReceiver at h
  cases hr : receiverOf symbol with
  | none =>
    rw [hr] at h
    obtain ⟨rfl, rfl⟩ := pure_ok_iff.mp h
    exact .nil s
  | some v =>
    rw [hr] at h
    obtain ⟨t, s₁, hd, h⟩ := bind_ok_iff.mp h
    obtain ⟨rfl, rfl⟩ := pure_ok_iff.mp h
    exact .single hd

theorem declareParams_ok {vs : List VarId} {ts : List Temp} (h : declareParams vs s = .ok ts s') :
    Declared vs s ts s' := by
  induction vs generalizing s ts with
  | nil =>
    obtain ⟨rfl, rfl⟩ := pure_ok_iff.mp h
    exact .nil s
  | cons v vs ih =>
    obtain ⟨t, s₁, hd, h⟩ := bind_ok_iff.mp h
    obtain ⟨us, s₂, hp, h⟩ := bind_ok_iff.mp h
    obtain ⟨rfl, rfl⟩ := pure_ok_iff.mp h
    exact (Declared.single hd).append (ih hp)

/-- Where the body of a method begins, the receiver and all variables have temporaries. -/
structure Opened (g : Generator) (receiver : Option Temp) (s : State) : Prop where
  issued_le : ∀ stem, g.issued stem ≤ s.issued stem
  receiver_le : ∀ t ∈ receiver, t.index ≤ s.temps
  bound_le : ∀ d ∈ s.bound, d.2.index ≤ s.temps

theorem outlineMethod_ok {o : Outline}
    (h : outlineMethod symbols m { generator := g } = .ok (o, f) s') :
    ∃ receiver s₁ s₂, Opened g receiver s₁ ∧ LaidOut ⟨symbols, receiver⟩ none s₁ o s₂ ∧
      f.body.toList = o.flatten ∧ s'.temps = s₂.temps ∧ s'.issued = s₂.issued := by
  unfold outlineMethod at h
  simp only [bind_ok_iff, pure_ok_iff, Prod.mk.injEq] at h
  obtain ⟨symbol, s₁, hm, _, s₂, hn, receiver, s₃, hr, params, s₄, hp, h⟩ := h
  obtain ⟨_, s₅, ho, o, s₆, hb, f, s₇, hf, ⟨rfl, rfl⟩, rfl⟩ := h
  obtain ⟨-, rfl⟩ := Env.findMethod_ok hm
  have dr := declareReceiver_ok hr
  have dp := declareParams_ok hp
  cases hn
  cases ho
  cases hf
  have hl := Stmt.laidOutAll none m.body hb
  have e := dr.emission.trans dp.emission
  obtain ⟨declared, hd, hdi⟩ := e.bound_eq
  refine ⟨receiver, _, s₆, ?_, hl, hl.emission.code_eq, rfl, rfl⟩
  refine ⟨e.issued_le, fun t ht ↦ ?_, ?_⟩
  · exact (dr.ascending.mem (Option.mem_toList.mpr ht)).2.trans dp.emission.temps_le
  intro d hm
  have hmem : d ∈ declared := by
    have hb : d ∈ s₄.bound := hm
    rwa [hd, List.append_nil] at hb
  exact (hdi d hmem).1.2

def parametersOf (symbol : MethodSymbol) : List VarId := (receiverOf symbol).toList ++ symbol.params

/-- Where the body of a method begins, the receiver and the parameters have got the first
temporaries, in order, and there is no code yet. -/
structure Entered (g : Generator) (symbol : MethodSymbol) (receiver : Option Temp)
    (params : List Temp) (s : State) : Prop where
  code_eq : s.code = []
  receiver_mem : ∀ t ∈ receiver, t ∈ params
  ascending : Ascending g.temps params s.temps
  length_eq : params.length = (parametersOf symbol).length
  bound_eq : s.bound = ((parametersOf symbol).zip params).reverse

namespace Entered

variable {symbol : MethodSymbol} {receiver : Option Temp} {params : List Temp}

theorem bound_temps (h : Entered g symbol receiver params s) :
    s.bound.map Prod.snd = params.reverse := by
  rw [h.bound_eq, List.map_reverse, List.map_snd_zip h.length_eq.le]

theorem bound_mem (h : Entered g symbol receiver params s) {d : VarId × Temp} (hd : d ∈ s.bound) :
    d.2 ∈ params := by
  rw [← List.mem_reverse, ← h.bound_temps]
  exact List.mem_map_of_mem hd

theorem bound_le (h : Entered g symbol receiver params s) (d : VarId × Temp) (hd : d ∈ s.bound) :
    d.2.index ≤ s.temps := (h.ascending.mem (h.bound_mem hd)).2

end Entered

theorem lowerMethod_ok (h : lowerMethod symbols m { generator := g } = .ok f s') :
    ∃ symbol receiver s₁ s₂, symbols.method? m.method = some symbol ∧
      Entered g symbol receiver f.params s₁ ∧
      Stmt.lowerAll ⟨symbols, receiver⟩ none m.body s₁ = .ok () s₂ ∧
      f.body.toList = s₂.code ∧ s'.temps = s₂.temps ∧ s'.bound = s₂.bound := by
  unfold lowerMethod at h
  simp only [bind_ok_iff] at h
  obtain ⟨symbol, s₁, hm, _, s₂, hn, receiver, s₃, hr, params, s₄, hp, h⟩ := h
  obtain ⟨_, s₅, ho, u, s₆, hb, hf⟩ := h
  obtain ⟨hsymbol, rfl⟩ := Env.findMethod_ok hm
  have d := (declareReceiver_ok hr).append (declareParams_ok hp)
  cases hn
  cases ho
  cases hf
  obtain ⟨o, ho, -⟩ := (Stmt.outlineAll_refines none m.body).ok hb
  have hparams : s₆.params = receiver.toList ++ params :=
    (Stmt.laidOutAll none m.body ho).emission.params_eq
  refine ⟨symbol, receiver, _, s₆, hsymbol, ?_, hb, rfl, rfl, rfl⟩
  show Entered g symbol receiver s₆.params _
  rw [hparams]
  exact ⟨rfl, by simp +contextual, d.ascending,
    d.length_eq, by simpa [parametersOf] using d.bound_eq⟩

/-- What a run over some methods has come to. Notes in the log may stand between the methods. -/
inductive Reached (symbols : SymbolTable) : List MethodDef → Progress → Prop
  | start : Reached symbols [] {}
  | noted {ms : List MethodDef} {done : Progress} (event : Event) (h : Reached symbols ms done) :
      Reached symbols ms { done with generator := done.generator.note event }
  | added {ms : List MethodDef} {m : MethodDef} {done done' : Progress} (c : ClassDef)
      (h : Reached symbols ms done) (ha : done.addMethod symbols c m = .ok done') :
      Reached symbols (ms ++ [m]) done'

theorem added_function {c : ClassDef} {done done' : Progress}
    (h : done.addMethod symbols c m = .ok done') (hd : done'.defects = []) :
    done.defects = [] ∧ ∃ f s, lowerMethod symbols m { generator := done.generator } = .ok f s ∧
      done' = { done with generator := s.generator, functions := done.functions ++ [f] } := by
  unfold Progress.addMethod at h
  cases hm : lowerMethod symbols m { generator := done.generator } with
  | ok f s =>
    rw [hm] at h
    cases h
    exact ⟨hd, f, s, rfl, rfl⟩
  | error e s =>
    rw [hm] at h
    cases e with
    | fault fault => cases h
    | defect d =>
      cases h
      simp at hd

def methodsOf (classes : List ClassDef) : List MethodDef := classes.flatMap (·.methods)

theorem reached_of_methods {c : ClassDef} {before ms : List MethodDef} {done done' : Progress}
    (hr : Reached symbols before done)
    (h : ms.foldlM (Progress.addMethod symbols c) done = .ok done') :
    Reached symbols (before ++ ms) done' := by
  induction ms generalizing before done with
  | nil =>
    cases h
    rwa [List.append_nil]
  | cons m ms ih =>
    obtain ⟨d, hd, h⟩ := bind_eq_ok h
    have hr' := ih (hr.added c hd) h
    rwa [List.append_assoc] at hr'

theorem reached_of_classes {before : List MethodDef} {classes : List ClassDef}
    {done done' : Progress}
    (hr : Reached symbols before done)
    (h : classes.foldlM (Progress.addClass symbols) done = .ok done') :
    Reached symbols (before ++ methodsOf classes) done' := by
  induction classes generalizing before done with
  | nil =>
    cases h
    rwa [methodsOf, List.flatMap_nil, List.append_nil]
  | cons c classes ih =>
    obtain ⟨d, hd, h⟩ := bind_eq_ok h
    have hr' := ih (reached_of_methods (hr.noted _) hd) h
    rwa [List.append_assoc] at hr'

theorem lowerClasses_reached {classes : List ClassDef} {done : Progress}
    (h : lowerClasses symbols classes = .ok done) : Reached symbols (methodsOf classes) done := by
  have hr := reached_of_classes .start h
  rwa [List.nil_append] at hr

end ThreeAddress.Lowering

namespace ThreeAddress.Checked

open Lowering

/-- A program comes from a run over all methods that meets no defect. -/
theorem CheckedUnit.lower_reached {u : CheckedUnit} {p : Code.Program}
    (h : u.lower = .ok (.ok p)) : ∃ done, Reached u.symbols (methodsOf u.program.classes) done ∧
      done.defects = [] ∧ done.functions = p.functions := by
  unfold CheckedUnit.lower at h
  cases hd : lowerClasses u.symbols u.program.classes with
  | error f =>
    rw [hd] at h
    cases h
  | ok done =>
    rw [hd] at h
    have ho : done.outcome = .ok p := Except.ok.inj h
    unfold Progress.outcome at ho
    split at ho
    · rename_i hdefects
      cases ho
      exact ⟨done, lowerClasses_reached hd, List.isEmpty_iff.mp hdefects, rfl⟩
    · cases ho

end ThreeAddress.Checked
