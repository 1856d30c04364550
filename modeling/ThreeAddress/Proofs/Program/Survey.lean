import ThreeAddress.Proofs.Control.Coverage
import ThreeAddress.Proofs.Program.Method

namespace ThreeAddress.Lowering

open Checked Code Control Machine

variable {symbols : SymbolTable} {m : MethodDef} {f : Function} {g : Generator} {s' : State}

theorem Entered.situated {symbol : MethodSymbol} {receiver : Option Temp} {params : List Temp}
    {s : State} (h : Entered g symbol receiver params s) : Situated ⟨symbols, receiver⟩ s :=
  ⟨fun t ht ↦ (h.ascending.mem (h.receiver_mem t ht)).2, h.bound_le⟩

/-- The body of a function is that of a method, and has been surveyed: every access of the method
has its site. -/
structure Surveyed (env : Env) (m : MethodDef) (s : State) (f : Function) (s' : State)
    (sites : List Site) : Prop where
  lowered : Stmt.lowerAll env none m.body s = .ok () s'
  body_eq : f.body.toList = s'.code
  emission : Emission s s' f.body.toList []
  survey : Survey env.symbols [] s s' f.body.toList sites
  stands : Accounts (Stands env s s') s.bound.length (Stmt.accessesAll m.body) sites s'.bound.length

theorem lowerMethod_survey (h : lowerMethod symbols m { generator := g } = .ok f s') :
    ∃ symbol receiver s₁ s₂ sites, symbols.method? m.method = some symbol ∧
      Entered g symbol receiver f.params s₁ ∧ Surveyed ⟨symbols, receiver⟩ m s₁ f s₂ sites := by
  obtain ⟨symbol, receiver, s₁, s₂, hsymbol, hopen, hb, hcode, -, -⟩ := lowerMethod_ok h
  have hbody : Surveys ⟨symbols, receiver⟩ [] (Stmt.lowerAll ⟨symbols, receiver⟩ none m.body)
      (Stmt.accessesAll m.body) := Stmt.surveysAll (by simp) m.body
  obtain ⟨new, sites, e, v, p, -⟩ := hbody hb hopen.situated (by simp)
  obtain rfl : f.body.toList = new := by rw [hcode, e.code_eq, hopen.code_eq, List.nil_append]
  exact ⟨symbol, receiver, s₁, s₂, sites, hsymbol, hopen, hb, hcode, e, v, p⟩

theorem reached_functions {ms : List MethodDef} {done : Progress} (h : Reached symbols ms done) :
    done.defects = [] → List.Forall₂
      (fun m f ↦ ∃ g s, lowerMethod symbols m { generator := g } = .ok f s) ms done.functions := by
  induction h with
  | start => exact fun _ ↦ .nil
  | noted event h ih => exact ih
  | added c h ha ih =>
    intro hd
    obtain ⟨hdefects, f, s, hm, rfl⟩ := added_function ha hd
    exact List.rel_append (ih hdefects) (.cons ⟨_, s, hm⟩ .nil)

end ThreeAddress.Lowering

namespace ThreeAddress.Checked

open Code Lowering

/-- The functions of a program are the methods of the unit, one after the other. -/
theorem CheckedUnit.lower_functions {u : CheckedUnit} {p : Code.Program}
    (h : u.lower = .ok (.ok p)) :
    List.Forall₂ (fun m f ↦ ∃ g s, lowerMethod u.symbols m { generator := g } = .ok f s)
      (methodsOf u.program.classes) p.functions := by
  obtain ⟨done, hr, hd, hp⟩ := u.lower_reached h
  rw [← hp]
  exact reached_functions hr hd

theorem CheckedUnit.lower_of_mem {u : CheckedUnit} {p : Code.Program} {f : Function}
    (h : u.lower = .ok (.ok p)) (hf : f ∈ p.functions) :
    ∃ m g s, lowerMethod u.symbols m { generator := g } = .ok f s := by
  have hall := u.lower_functions h
  generalize methodsOf u.program.classes = methods, p.functions = functions at hall hf
  induction hall with
  | nil => cases hf
  | cons hm _ ih =>
    rcases List.mem_cons.mp hf with rfl | hf
    · exact ⟨_, hm⟩
    · exact ih hf

end ThreeAddress.Checked
