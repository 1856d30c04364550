import ThreeAddress.Proofs.Control.Variables
import ThreeAddress.Proofs.Program.Survey

namespace ThreeAddress.Code

/-- A temporary occurs in a function as a parameter and where an instruction mentions it. -/
def Function.Uses (f : Function) (t : Temp) : Prop :=
  t ∈ f.params ∨ ∃ i ∈ f.body.toList, t ∈ i.temps

end ThreeAddress.Code

namespace ThreeAddress.Lowering

open Checked Code Control

variable {symbols : SymbolTable} {m : MethodDef} {f : Function} {g : Generator} {s s' : State}

def methodSteps (symbol : MethodSymbol) (m : MethodDef) : List VarStep :=
  (parametersOf symbol).map .declare ++ Stmt.stepsAll m.body

/-- Every temporary of a function has one use. The bindings are all those made while the function
was lowered, the latest first. As none is ever taken back, those in force at any point of the
lowering are the last ones of the list. -/
structure OneUse (steps : List VarStep) (f : Function) (bound : List (VarId × Temp)) : Prop where
  results_nodup : (results f.body.toList).Nodup
  params_bound : f.params ⊆ bound.map Prod.snd
  results_unbound : ∀ t ∈ results f.body.toList, t ∉ bound.map Prod.snd
  distinct : ∀ now, now <:+ bound → ∀ v w t, now.lookup v = some t → now.lookup w = some t → v = w
  follows : Follows steps [] ((copied f.body.toList).filter (· ∈ bound.map Prod.snd)) bound

theorem lookup_injective {bound : List (VarId × Temp)} (hn : (bound.map Prod.snd).Nodup)
    {v w : VarId} {t : Temp} (hv : bound.lookup v = some t) (hw : bound.lookup w = some t) :
    v = w := by
  obtain ⟨before, behind, hb, -⟩ := List.lookup_eq_some_iff.mp hv
  obtain ⟨before', behind', hb', -⟩ := List.lookup_eq_some_iff.mp hw
  have hmem : (v, t) ∈ bound := by simp [hb]
  have hmem' : (w, t) ∈ bound := by simp [hb']
  exact congrArg Prod.fst (List.inj_on_of_nodup_map hn hmem hmem' rfl)

theorem Marks.of_bound {new : List Instr} {ts : List Temp} (e : Emission s s' new ts)
    (hs : ∀ d ∈ s.bound, d.2.index ≤ s.temps) : Marks (s'.bound.map Prod.snd) s s' := by
  obtain ⟨declared, hb, -⟩ := e.bound_eq
  refine ⟨fun d hd ↦ ?_, fun declared' hb' t ht ↦ ?_⟩
  · rw [hb]
    exact List.mem_map_of_mem (List.mem_append_right declared hd)
  · have hold : t ∉ s.bound.map Prod.snd := by
      intro hm
      obtain ⟨d, hd, rfl⟩ := List.mem_map.mp hm
      exact absurd (hs d hd) (not_le.mpr ht.1)
    rw [hb', List.map_append, List.mem_append, or_iff_left hold]

theorem Entered.follows {symbol : MethodSymbol} {receiver : Option Temp} {params : List Temp}
    (h : Entered g symbol receiver params s) :
    Follows ((parametersOf symbol).map .declare) [] [] s.bound := by
  have hnames : (s.bound.map Prod.fst).reverse = parametersOf symbol := by
    rw [h.bound_eq, List.map_reverse, List.reverse_reverse, List.map_fst_zip h.length_eq.ge]
  have hall := Follows.declared s.bound []
  rwa [hnames, List.append_nil] at hall

theorem lowerMethod_oneUse (h : lowerMethod symbols m { generator := g } = .ok f s') :
    ∃ symbol, symbols.method? m.method = some symbol ∧
      OneUse (methodSteps symbol m) f s'.bound := by
  obtain ⟨symbol, receiver, s₁, s₂, hsymbol, hopen, hb, hcode, -, hbound⟩ := lowerMethod_ok h
  have ht : Traces [] (Stmt.lowerAll ⟨symbols, receiver⟩ none m.body) (Stmt.stepsAll m.body) :=
    Stmt.tracesAll none m.body
  obtain ⟨new, ts, o, hf⟩ := ht hb
  have hnew : f.body.toList = new := by rw [hcode, o.code_eq, hopen.code_eq, List.nil_append]
  obtain ⟨declared, hd, hasc⟩ := o.declared_ascending
  have htemps : s₂.bound.map Prod.snd = (f.params ++ (declared.map Prod.snd).reverse).reverse := by
    rw [hd, List.map_append, hopen.bound_temps, List.reverse_append, List.reverse_reverse]
  have hnodup : (s₂.bound.map Prod.snd).Nodup := by
    rw [htemps, List.nodup_reverse]
    exact (hopen.ascending.append hasc).nodup
  refine ⟨symbol, hsymbol, ?_⟩
  rw [hbound]
  constructor
  · rw [hnew]
    exact o.ascending.nodup.sublist o.results_sublist
  · intro t ht
    rw [htemps, List.mem_reverse]
    exact List.mem_append_left _ ht
  · intro t ht hm
    rw [hnew] at ht
    obtain ⟨d, hd, hdt⟩ := List.mem_map.mp hm
    exact o.results_unbound hopen.bound_le t ht d hd hdt
  · intro now hnow v w t hv hw
    exact lookup_injective (hnodup.sublist (hnow.sublist.map Prod.snd)) hv hw
  · rw [hnew]
    exact hopen.follows.append (hf _ (by simp) (.of_bound o.toEmission hopen.bound_le))

theorem lowerMethod_uses (h : lowerMethod symbols m { generator := g } = .ok f s') :
    g.temps ≤ s'.temps ∧ ∀ t, f.Uses t → g.temps < t.index ∧ t.index ≤ s'.temps := by
  obtain ⟨symbol, receiver, s₁, s₂, -, hopen, hb, hcode, htemps, -⟩ := lowerMethod_ok h
  obtain ⟨o, ho, -⟩ := (Stmt.outlineAll_refines none m.body).ok hb
  have hl := Stmt.laidOutAll none m.body ho
  have hbody : f.body.toList = o.flatten := by
    rw [hcode, hl.emission.code_eq, hopen.code_eq, List.nil_append]
  have hle := hl.emission.temps_le
  have hparam (t : Temp) (ht : t ∈ f.params) :
      (g.temps < t.index ∧ t.index ≤ s₂.temps) ∧ t.index ≤ s₁.temps :=
    have hi := hopen.ascending.mem ht
    ⟨⟨hi.1, hi.2.trans hle⟩, hi.2⟩
  have hmentions : Mentions (fun t ↦ g.temps < t.index ∧ t.index ≤ s₂.temps) o.flatten := by
    refine hl.mentions ⟨fun t ht ↦ ?_, fun d hd ↦ ?_⟩ fun t ht ↦ ?_
    · exact hparam t (hopen.receiver_mem t ht)
    · exact hparam d.2 (hopen.bound_mem hd)
    · exact ⟨hopen.ascending.le.trans_lt ht.1, ht.2⟩
  rw [htemps]
  refine ⟨hopen.ascending.le.trans hle, fun t ht ↦ ?_⟩
  rcases ht with ht | ⟨i, hi, ht⟩
  · exact (hparam t ht).1
  · exact hmentions i (hbody ▸ hi) t ht

/-- The functions of a run so far have no temporary in common, and none that is still to be
issued. -/
structure Separate (done : Progress) : Prop where
  issued : ∀ f ∈ done.functions, ∀ t, f.Uses t → t.index ≤ done.generator.temps
  apart : done.functions.Pairwise fun f f' ↦ ∀ t, f.Uses t → ¬ f'.Uses t

theorem Separate.add {done : Progress} (h : Separate done)
    (hm : lowerMethod symbols m { generator := done.generator } = .ok f s') :
    Separate { done with generator := s'.generator, functions := done.functions ++ [f] } := by
  obtain ⟨hle, hnew⟩ := lowerMethod_uses hm
  constructor
  · intro f' hf t ht
    rcases List.mem_append.mp hf with hf | hf
    · exact (h.issued f' hf t ht).trans hle
    · obtain rfl := List.mem_singleton.mp hf
      exact (hnew t ht).2
  · refine List.pairwise_append.mpr ⟨h.apart, List.pairwise_singleton _ f, ?_⟩
    intro f' hf f'' hf'' t ht ht'
    obtain rfl := List.mem_singleton.mp hf''
    exact absurd (h.issued f' hf t ht) (not_le.mpr (hnew t ht').1)

theorem reached_separate {ms : List MethodDef} {done : Progress} (h : Reached symbols ms done) :
    done.defects = [] → Separate done := by
  induction h with
  | start => exact fun _ ↦ ⟨by simp, .nil⟩
  | noted event h ih => exact fun hd ↦ ⟨(ih hd).issued, (ih hd).apart⟩
  | added c h ha ih =>
    intro hd
    obtain ⟨hdefects, f, s, hm, rfl⟩ := added_function ha hd
    exact (ih hdefects).add hm

end ThreeAddress.Lowering

namespace ThreeAddress.Checked

open Code Lowering

/-- No temporary is used twice: not in two functions, not for two results, not for two variables,
and not for a result and a variable. A variable is written where the source writes it and nowhere
else. -/
theorem CheckedUnit.lower_temps_unshared {u : CheckedUnit} {p : Code.Program}
    (h : u.lower = .ok (.ok p)) :
    (p.functions.Pairwise fun f f' ↦ ∀ t, f.Uses t → ¬ f'.Uses t) ∧
    List.Forall₂ (fun m f ↦ ∃ g s symbol,
        lowerMethod u.symbols m { generator := g } = .ok f s ∧
        u.symbols.method? m.method = some symbol ∧ OneUse (methodSteps symbol m) f s.bound)
      (methodsOf u.program.classes) p.functions := by
  constructor
  · obtain ⟨done, hr, hd, hp⟩ := u.lower_reached h
    rw [← hp]
    exact (reached_separate hr hd).apart
  · refine (u.lower_functions h).imp fun m f hm ↦ ?_
    obtain ⟨g, s, hm⟩ := hm
    obtain ⟨symbol, hsymbol, hone⟩ := lowerMethod_oneUse hm
    exact ⟨g, s, symbol, hm, hsymbol, hone⟩

/-- Two loops with one variable, of which the second binds its array on the way, and a method with a
receiver. -/
def pickSymbols : SymbolTable where
  methods := #[⟨"pick", ⟨0⟩, "Main.pick", 0, .int, true, none, [⟨0⟩, ⟨1⟩]⟩,
    ⟨"keep", ⟨0⟩, "Main.keep", 8, .void, false, some ⟨4⟩, [⟨1⟩]⟩]
  vars := #[⟨"a", .param, .array .int, 0⟩, ⟨"n", .param, .int, 0⟩, ⟨"x", .localVar, .int, 0⟩,
    ⟨"b", .localVar, .array .int, 0⟩, ⟨"this", .param, .object ⟨0⟩, 0⟩]

/-- Runs over two arrays with the same variable; the second array is bound on the way. -/
def pick : MethodDef where
  name := "pick"
  method := ⟨0⟩
  body :=
    let a : Expr := .mk (.ident none ⟨0⟩) (.array .int) .paramVar {}
    let n : Expr := .mk (.ident none ⟨1⟩) .int .paramVar {}
    let x : Expr := .mk (.ident none ⟨2⟩) .int .localVar {}
    let b : Expr := .mk (.varBinding ⟨3⟩) (.array .int) .localVar {}
    [.mk (.forEach ⟨2⟩ a none (.mk (.assign n x) {})) {},
      .mk (.forEach ⟨2⟩ b (some x) (.mk (.assign x n) {})) {},
      .mk (.assign b a) {}, .mk (.ret (some n)) {}]
  span := {}

def keep : MethodDef where
  name := "keep"
  method := ⟨1⟩
  body :=
    let n : Expr := .mk (.ident none ⟨1⟩) .int .paramVar {}
    let one : Expr := .mk (.literal (.int 1)) .int .notLValue {}
    [.mk (.assign n (.mk (.binary .add n one) .int .notLValue {})) {}]
  span := {}

def pickUnit : CheckedUnit := ⟨⟨[⟨"Main", ⟨0⟩, [pick, keep], {}⟩]⟩, pickSymbols⟩

def pickProgram : Code.Program where
  functions := [
    { name := "Main.pick"
      params := [⟨1⟩, ⟨2⟩]
      body := #[.constant ⟨4⟩ 4, .constant ⟨5⟩ 1, .copy ⟨6⟩ ⟨1⟩, .load ⟨7⟩ ⟨1⟩ (-4),
        .constant ⟨8⟩ 0, .label ⟨"loop", 1⟩, .binary ⟨9⟩ .less ⟨8⟩ ⟨7⟩, .binary ⟨10⟩ .add ⟨8⟩ ⟨5⟩,
        .copy ⟨8⟩ ⟨10⟩, .jumpIfZero ⟨9⟩ ⟨"loop_exit", 1⟩, .load ⟨11⟩ ⟨6⟩ 0, .copy ⟨3⟩ ⟨11⟩,
        .binary ⟨12⟩ .add ⟨6⟩ ⟨4⟩, .copy ⟨6⟩ ⟨12⟩, .copy ⟨2⟩ ⟨3⟩, .jump ⟨"loop", 1⟩,
        .label ⟨"loop_exit", 1⟩, .constant ⟨15⟩ 4, .constant ⟨16⟩ 1, .copy ⟨17⟩ ⟨14⟩,
        .load ⟨18⟩ ⟨14⟩ (-4), .constant ⟨19⟩ 0, .label ⟨"loop", 2⟩, .binary ⟨20⟩ .less ⟨19⟩ ⟨18⟩,
        .binary ⟨21⟩ .add ⟨19⟩ ⟨16⟩, .copy ⟨19⟩ ⟨21⟩, .jumpIfZero ⟨20⟩ ⟨"loop_exit", 2⟩,
        .load ⟨22⟩ ⟨17⟩ 0, .copy ⟨13⟩ ⟨22⟩, .jumpIfZero ⟨13⟩ ⟨"loop_exit", 2⟩,
        .binary ⟨23⟩ .add ⟨17⟩ ⟨15⟩, .copy ⟨17⟩ ⟨23⟩, .copy ⟨13⟩ ⟨2⟩, .jump ⟨"loop", 2⟩,
        .label ⟨"loop_exit", 2⟩, .copy ⟨24⟩ ⟨1⟩, .ret (some ⟨2⟩)] },
    { name := "Main.keep"
      params := [⟨25⟩, ⟨26⟩]
      body := #[.constant ⟨27⟩ 1, .binary ⟨28⟩ .add ⟨26⟩ ⟨27⟩, .copy ⟨26⟩ ⟨28⟩] }]

theorem pickUnit_temps_unshared :
    pickUnit.lower = .ok (.ok pickProgram) ∧
    (pickProgram.functions.Pairwise fun f f' ↦ ∀ t, f.Uses t → ¬ f'.Uses t) ∧
    List.Forall₂ (fun m f ↦ ∃ g s symbol,
        lowerMethod pickUnit.symbols m { generator := g } = .ok f s ∧
        pickUnit.symbols.method? m.method = some symbol ∧ OneUse (methodSteps symbol m) f s.bound)
      (methodsOf pickUnit.program.classes) pickProgram.functions := by
  have h : pickUnit.lower = .ok (.ok pickProgram) := by decide +kernel
  exact ⟨h, CheckedUnit.lower_temps_unshared h⟩

end ThreeAddress.Checked
