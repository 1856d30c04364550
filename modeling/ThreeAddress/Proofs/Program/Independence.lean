import Mathlib.Data.List.Forall2
import ThreeAddress.Proofs.Lowering.Parallel
import ThreeAddress.Proofs.Lowering.Safety
import ThreeAddress.Proofs.Program.Method

namespace ThreeAddress.Lowering

open Checked Code

variable {o : Offsets} {symbols : SymbolTable} {m : MethodDef} {g g' : Generator} {s t : State}

structure Begun (o : Offsets) (s t : State) : Prop extends Counted o s t where
  bound_eq : t.bound = s.bound.map fun d ↦ (d.1, d.2.shift o)

theorem declare_begun (h : Begun o s t) (v : VarId) :
    ∃ u s' t', declare v s = .ok u s' ∧ declare v t = .ok (u.shift o) t' ∧ Begun o s' t' := by
  have ht : t.temps + 1 = s.temps + 1 + o.temps := by rw [h.temps_eq]; omega
  have hu : Temp.mk (t.temps + 1) = Temp.shift o ⟨s.temps + 1⟩ := congrArg Temp.mk ht
  refine ⟨⟨s.temps + 1⟩, _, { t with
    generator := t.generator.freshTemp.2
    bound := (v, Temp.shift o ⟨s.temps + 1⟩) :: t.bound }, rfl, ?_, { h with
      temps_eq := ht
      bound_eq := ?_ }⟩
  · rw [← hu]
    rfl
  · show _ = List.map _ ((v, Temp.mk (s.temps + 1)) :: s.bound)
    rw [List.map_cons, ← h.bound_eq]

theorem declareReceiver_begun (h : Begun o s t) (symbol : MethodSymbol) :
    ∃ r s' t', declareReceiver symbol s = .ok r s' ∧
      declareReceiver symbol t = .ok (r.map (Temp.shift o)) t' ∧ Begun o s' t' := by
  unfold declareReceiver
  cases receiverOf symbol with
  | none => exact ⟨none, s, t, rfl, rfl, h⟩
  | some v =>
    obtain ⟨u, s', t', hs, ht, h'⟩ := declare_begun h v
    exact ⟨some u, s', t', bind_of_ok hs _, bind_of_ok ht _, h'⟩

theorem declareParams_begun (h : Begun o s t) (vs : List VarId) :
    ∃ ts s' t', declareParams vs s = .ok ts s' ∧
      declareParams vs t = .ok (ts.map (Temp.shift o)) t' ∧ Begun o s' t' := by
  induction vs generalizing s t with
  | nil => exact ⟨[], s, t, rfl, rfl, h⟩
  | cons v vs ih =>
    obtain ⟨u, s₁, t₁, hs₁, ht₁, h₁⟩ := declare_begun h v
    obtain ⟨us, s₂, t₂, hs₂, ht₂, h₂⟩ := ih h₁
    refine ⟨u :: us, s₂, t₂, ?_, ?_, h₂⟩
    · rw [declareParams, bind_of_ok hs₁, bind_of_ok hs₂]
      rfl
    · rw [declareParams, bind_of_ok ht₁, bind_of_ok ht₂]
      rfl

def lowerBody (env : Env) (body : List Stmt) : Lower Function := do
  Stmt.lowerAll env none body
  step Generator.closeFunction

theorem lowerBody_parallel (env : Env) (body : List Stmt) :
    Parallel o (Function.shift o) (lowerBody env body) (lowerBody (env.shift o) body) := by
  refine (Stmt.parallelAll none body).bind fun _ ↦ ?_
  intro s t h
  refine ⟨{ t with generator := t.generator.closeFunction.2 }, ?_, { h with current_eq := ?_ }⟩
  · exact congrArg (fun f ↦ EStateM.Result.ok f _) h.current_eq
  · simp [Generator.closeFunction, Generator.note, Function.shift]

theorem lowerMethod_begun (h : Counted o { generator := g } { generator := g' })
    {symbol : MethodSymbol} (hm : symbols.method? m.method = some symbol) :
    ∃ receiver s t, Shifted o s t ∧
      lowerMethod symbols m { generator := g } = lowerBody ⟨symbols, receiver⟩ m.body s ∧
      lowerMethod symbols m { generator := g' } =
        lowerBody (Env.shift o ⟨symbols, receiver⟩) m.body t := by
  have hfind (s : State) : Env.findMethod ⟨symbols, none⟩ m.method m.span s = .ok symbol s := by
    rw [Env.findMethod_eq]
    show lookUp (symbols.method? m.method) _ _ s = _
    rw [hm]
    rfl
  let message : Event := .noted ("Lowering method " ++ m.name ++ " as " ++ symbol.label)
  have hn : Begun o { generator := g.note message } { generator := g'.note message } :=
    { h with bound_eq := rfl }
  obtain ⟨receiver, s₁, t₁, hs₁, ht₁, h₁⟩ := declareReceiver_begun hn symbol
  obtain ⟨params, s₂, t₂, hs₂, ht₂, h₂⟩ := declareParams_begun h₁ symbol.params
  refine ⟨receiver, { s₂ with
    generator := s₂.generator.openFunction symbol.label (receiver.toList ++ params) }, { t₂ with
    generator := t₂.generator.openFunction symbol.label ((receiver.map (Temp.shift o)).toList ++
      params.map (Temp.shift o)) }, { h₂ with
      pending_eq := rfl
      current_eq := ?_ }, ?_, ?_⟩
  · simp [Generator.openFunction, Generator.note, Function.shift, Option.toList_map]
  · rw [lowerMethod, bind_of_ok (hfind _)]
    refine Eq.trans (bind_of_ok rfl _) ?_
    rw [bind_of_ok hs₁, bind_of_ok hs₂]
    rfl
  · rw [lowerMethod, bind_of_ok (hfind _)]
    refine Eq.trans (bind_of_ok rfl _) ?_
    rw [bind_of_ok ht₁, bind_of_ok ht₂]
    rfl

/-- A method lowered from a generator that is ahead by some offsets gives the same function with its
numbers raised, or the same defect. -/
theorem lowerMethod_parallel (symbols : SymbolTable) (m : MethodDef)
    (h : Counted o { generator := g } { generator := g' }) :
    match lowerMethod symbols m { generator := g } with
    | .ok f s => ∃ t, lowerMethod symbols m { generator := g' } = .ok (f.shift o) t ∧ Counted o s t
    | .error (.defect d) s =>
      ∃ t, lowerMethod symbols m { generator := g' } = .error (.defect d) t ∧ Counted o s t
    | .error (.fault _) _ => True := by
  cases hm : symbols.method? m.method with
  | none =>
    have hfind (s : State) : lowerMethod symbols m s =
        .error (.defect ⟨.unknownMethod m.method, m.span⟩) s := by
      rw [lowerMethod, Env.findMethod_eq]
      show (lookUp (symbols.method? m.method) _ _ >>= _) s = _
      rw [hm]
      rfl
    rw [hfind, hfind]
    exact ⟨_, rfl, h⟩
  | some symbol =>
    obtain ⟨receiver, s, t, hst, hs, ht⟩ := lowerMethod_begun h hm
    have hb := lowerBody_parallel (o := o) ⟨symbols, receiver⟩ m.body hst
    rw [hs, ht]
    cases hr : lowerBody ⟨symbols, receiver⟩ m.body s with
    | ok f s' =>
      rw [hr] at hb
      obtain ⟨t', ht', h'⟩ := hb
      exact ⟨t', ht', h'.toCounted⟩
    | error e s' =>
      rw [hr] at hb
      cases e with
      | defect d => exact hb
      | fault f => trivial

theorem declareReceiver_safe (symbol : MethodSymbol) :
    Safe Settled (declareReceiver symbol) fun _ ↦ Settled := by
  unfold declareReceiver
  cases receiverOf symbol with
  | none => exact fun _ h ↦ h
  | some v => exact fun _ h ↦ h

theorem declareParams_safe (vs : List VarId) :
    Safe Settled (declareParams vs) fun _ ↦ Settled := by
  induction vs with
  | nil => exact fun _ h ↦ h
  | cons v vs ih =>
    have hd : Safe Settled (declare v) fun _ ↦ Settled := fun _ h ↦ h
    exact hd.bind fun t ↦ ih.bind fun ts _ h ↦ h

/-- From a settled generator a method meets no fault, and it leaves a settled generator. -/
theorem lowerMethod_safe (symbols : SymbolTable) (m : MethodDef) :
    Safe Settled (lowerMethod symbols m) fun _ ↦ Settled := by
  unfold lowerMethod
  rw [Env.findMethod_eq]
  refine Safe.bind (Q := fun _ ↦ Settled) ?_ fun symbol ↦ ?_
  · cases SymbolTable.method? _ m.method with
    | none => exact fun _ h ↦ h
    | some symbol => exact fun _ h ↦ h
  · refine Safe.bind (Q := fun _ ↦ Settled) (fun _ h ↦ h) fun _ ↦
      (declareReceiver_safe symbol).bind fun receiver ↦
      (declareParams_safe symbol.params).bind fun params ↦ ?_
    refine Safe.bind (Q := fun _ ↦ Waiting [] 0) ?_ fun _ ↦
      (Stmt.steadyAll none m.body []).bind fun _ s h ↦ h.settled
    exact fun s h ↦ ⟨h, List.nodup_nil, by simp, by simp, rfl⟩

/-- The generator that a method leaves, whether or not it can be lowered. -/
def generatorAfter (symbols : SymbolTable) (g : Generator) (m : MethodDef) : Generator :=
  match lowerMethod symbols m { generator := g } with
  | .ok _ s => s.generator
  | .error _ s => s.generator

def Generator.offsets (g : Generator) : Offsets := ⟨g.temps, g.issued⟩

def generatorBehind (symbols : SymbolTable) (ms : List MethodDef) : Generator :=
  ms.foldl (generatorAfter symbols) {}

def issuedBy (symbols : SymbolTable) (ms : List MethodDef) : Offsets :=
  Generator.offsets (generatorBehind symbols ms)

def defectOf (symbols : SymbolTable) (m : MethodDef) : Option Defect :=
  match lowerMethod symbols m {} with
  | .error (.defect d) _ => some d
  | _ => none

theorem settled_empty : Settled {} := fun _ h ↦ absurd h List.not_mem_nil

theorem Settled.counted (h : Settled { generator := g }) :
    Counted (Generator.offsets g) {} { generator := g } where
  temps_eq := (Nat.zero_add _).symm
  issued_eq _ := (Nat.zero_add _).symm
  placed_iff l hl := by
    refine ⟨fun hm ↦ ?_, fun hm ↦ absurd hm List.not_mem_nil⟩
    have hle : l.number + g.issued l.stem ≤ g.issued l.stem := h _ hm
    omega

theorem Counted.offsets_eq (h : Counted {} { generator := g } { generator := g' }) :
    Generator.offsets g' = Generator.offsets g := by
  have ht : g'.temps = g.temps := h.temps_eq
  have hi : g'.issued = g.issued := funext h.issued_eq
  rw [Generator.offsets, Generator.offsets, ht, hi]

theorem Counted.settled (h : Counted {} { generator := g } { generator := g' })
    (hs : Settled { generator := g' }) : Settled { generator := g } := by
  intro l hl
  rcases Nat.eq_zero_or_pos l.number with hz | hpos
  · omega
  · have hm : l ∈ g'.placed := (h.placed_iff l hpos).mpr hl
    have hle : l.number ≤ g'.issued l.stem := hs l hm
    have hi : g'.issued l.stem = g.issued l.stem := h.issued_eq l.stem
    exact hle.trans_eq hi

/-- In a run a method comes to what it comes to on its own, with its numbers raised. -/
theorem lowerMethod_from (symbols : SymbolTable) (m : MethodDef) (h : Settled { generator := g }) :
    (∃ f s t, lowerMethod symbols m {} = .ok f s ∧
      lowerMethod symbols m { generator := g } = .ok (f.shift (Generator.offsets g)) t ∧
        Settled t) ∨
    ∃ d s t, lowerMethod symbols m {} = .error (.defect d) s ∧
      lowerMethod symbols m { generator := g } = .error (.defect d) t ∧ Settled t := by
  have hp := lowerMethod_parallel symbols m h.counted
  have ha := lowerMethod_safe symbols m settled_empty
  have hs := lowerMethod_safe symbols m h
  cases hr : lowerMethod symbols m {} with
  | ok f s =>
    rw [hr] at hp
    obtain ⟨t, ht, -⟩ := hp
    rw [ht] at hs
    exact .inl ⟨f, s, t, rfl, ht, hs⟩
  | error e s =>
    rw [hr] at ha hp
    cases e with
    | fault f => exact ha.elim
    | defect d =>
      obtain ⟨t, ht, -⟩ := hp
      rw [ht] at hs
      exact .inr ⟨d, s, t, rfl, ht, hs⟩

theorem settled_generatorBehind (symbols : SymbolTable) (ms : List MethodDef) :
    Settled { generator := generatorBehind symbols ms } := by
  have h (g : Generator) (hg : Settled { generator := g }) :
      Settled { generator := ms.foldl (generatorAfter symbols) g } := by
    induction ms generalizing g with
    | nil => exact hg
    | cons m ms ih =>
      refine ih _ ?_
      unfold generatorAfter
      obtain ⟨f, s, t, -, ht, hst⟩ | ⟨d, s, t, -, ht, hst⟩ :=
        lowerMethod_from symbols m hg
      · rw [ht]
        exact hst
      · rw [ht]
        exact hst
  exact h {} settled_empty

theorem generatorAfter_counted (symbols : SymbolTable)
    (h : Counted {} { generator := g } { generator := g' })
    (hs : Settled { generator := g' }) (m : MethodDef) :
    Counted {} { generator := generatorAfter symbols g m }
      { generator := generatorAfter symbols g' m } := by
  have hp := lowerMethod_parallel symbols m h
  have ha := lowerMethod_safe symbols m (h.settled hs)
  unfold generatorAfter
  cases hr : lowerMethod symbols m { generator := g } with
  | ok f s =>
    rw [hr] at hp
    obtain ⟨t, ht, hc⟩ := hp
    rw [ht]
    exact ⟨hc.temps_eq, hc.issued_eq, hc.placed_iff⟩
  | error e s =>
    rw [hr] at ha hp
    cases e with
    | fault f => exact ha.elim
    | defect d =>
      obtain ⟨t, ht, hc⟩ := hp
      rw [ht]
      exact ⟨hc.temps_eq, hc.issued_eq, hc.placed_iff⟩

/-- What a run has come to, in terms of its methods on their own. -/
structure Tallied (symbols : SymbolTable) (ms : List MethodDef) (done : Progress) : Prop where
  counted : Counted {} { generator := generatorBehind symbols ms } { generator := done.generator }
  settled : Settled { generator := done.generator }
  defects_eq : done.defects = ms.filterMap (defectOf symbols)
  functions_eq : done.defects = [] → done.functions.length = ms.length ∧
    ∀ i m, ms[i]? = some m → ∃ f s, lowerMethod symbols m {} = .ok f s ∧
      done.functions[i]? = some (f.shift (issuedBy symbols (ms.take i)))

theorem Tallied.add {ms : List MethodDef} {done done' : Progress} {c : ClassDef}
    (h : Tallied symbols ms done) (ha : done.addMethod symbols c m = .ok done') :
    Tallied symbols (ms ++ [m]) done' := by
  have hc := generatorAfter_counted symbols h.counted h.settled m
  have ho := h.counted.offsets_eq
  unfold Progress.addMethod at ha
  obtain ⟨f, s, t, hf, ht, hst⟩ | ⟨d, s, t, hd, ht, hst⟩ :=
    lowerMethod_from symbols m h.settled
  · rw [ht] at ha
    cases ha
    have hnone : defectOf symbols m = none := by rw [defectOf, hf]
    refine ⟨?_, hst, by simp [h.defects_eq, hnone], fun hempty ↦ ?_⟩
    · rw [generatorBehind, List.foldl_append, List.foldl_cons, List.foldl_nil]
      rwa [generatorAfter, generatorAfter, ht] at hc
    · obtain ⟨hlen, hall⟩ := h.functions_eq hempty
      refine ⟨by simp [hlen], fun i m' hi ↦ ?_⟩
      rcases Nat.lt_or_ge i ms.length with hlt | hge
      · rw [List.getElem?_append_left hlt] at hi
        rw [List.take_append_of_le_length hlt.le, List.getElem?_append_left (hlen ▸ hlt)]
        exact hall i m' hi
      · obtain rfl : i = ms.length := by
          have hlt := (List.getElem?_eq_some_iff.mp hi).1
          simp only [List.length_append, List.length_singleton] at hlt
          omega
        rw [List.getElem?_concat_length, Option.some.injEq] at hi
        subst hi
        refine ⟨f, s, hf, ?_⟩
        rw [List.take_left, ← hlen, List.getElem?_concat_length, issuedBy, ← ho]
  · rw [ht] at ha
    cases ha
    have hsome : defectOf symbols m = some d := by rw [defectOf, hd]
    refine ⟨?_, hst, by simp [h.defects_eq, hsome], fun hempty ↦ by simp at hempty⟩
    rw [generatorBehind, List.foldl_append, List.foldl_cons, List.foldl_nil]
    rw [generatorAfter, generatorAfter, ht] at hc
    exact ⟨hc.temps_eq, hc.issued_eq, hc.placed_iff⟩

theorem reached_tallied {ms : List MethodDef} {done : Progress} (h : Reached symbols ms done) :
    Tallied symbols ms done := by
  induction h with
  | start =>
    refine ⟨⟨rfl, fun _ ↦ rfl, fun _ _ ↦ Iff.rfl⟩, settled_empty, rfl, fun _ ↦ ⟨rfl, ?_⟩⟩
    intro i m hi
    simp at hi
  | noted event h ih =>
    exact ⟨⟨ih.counted.temps_eq, ih.counted.issued_eq, ih.counted.placed_iff⟩, ih.settled,
      ih.defects_eq, ih.functions_eq⟩
  | added c h ha ih => exact ih.add ha

theorem foldlM_ok {α β ε : Type} {P : β → Prop} {f : β → α → Except ε β}
    (hf : ∀ b a, P b → ∃ b', f b a = .ok b' ∧ P b') (as : List α) {b : β} (hb : P b) :
    ∃ b', as.foldlM f b = .ok b' ∧ P b' := by
  induction as generalizing b with
  | nil => exact ⟨b, rfl, hb⟩
  | cons a as ih =>
    obtain ⟨b₁, h₁, hb₁⟩ := hf b a hb
    obtain ⟨b₂, h₂, hb₂⟩ := ih hb₁
    refine ⟨b₂, ?_, hb₂⟩
    rw [List.foldlM_cons, h₁]
    exact h₂

theorem addMethod_ok (symbols : SymbolTable) (c : ClassDef) (done : Progress) (m : MethodDef)
    (h : Settled { generator := done.generator }) :
    ∃ done', done.addMethod symbols c m = .ok done' ∧ Settled { generator := done'.generator } := by
  unfold Progress.addMethod
  obtain ⟨f, s, t, -, ht, hst⟩ | ⟨d, s, t, -, ht, hst⟩ :=
    lowerMethod_from symbols m h
  · rw [ht]
    exact ⟨_, rfl, hst⟩
  · rw [ht]
    exact ⟨_, rfl, hst⟩

theorem lowerClasses_ok (symbols : SymbolTable) (classes : List ClassDef) :
    ∃ done, lowerClasses symbols classes = .ok done := by
  obtain ⟨done, h, -⟩ := foldlM_ok (P :=
    fun done : Progress ↦ Settled { generator := done.generator })
    (f := Progress.addClass symbols) (b := {})
    (fun done c h ↦ foldlM_ok (addMethod_ok symbols c) c.methods h) classes settled_empty
  exact ⟨done, h⟩

end ThreeAddress.Lowering

namespace ThreeAddress.Checked

open Code Lowering

variable {symbols : SymbolTable} {m : MethodDef}

theorem CheckedUnit.lower_tallied (u : CheckedUnit) :
    ∃ done, Tallied u.symbols (methodsOf u.program.classes) done ∧ u.lower = .ok done.outcome := by
  obtain ⟨done, h⟩ := lowerClasses_ok u.symbols u.program.classes
  refine ⟨done, reached_tallied (lowerClasses_reached h), ?_⟩
  rw [CheckedUnit.lower, h]
  rfl

def singleUnit (symbols : SymbolTable) (c : ClassDef) (m : MethodDef) : CheckedUnit :=
  ⟨⟨[{ c with methods := [m] }]⟩, symbols⟩

theorem singleUnit_lower_ok (c : ClassDef) {f : Function} {s : State}
    (h : lowerMethod symbols m {} = .ok f s) :
    (singleUnit symbols c m).lower = .ok (.ok ⟨[f]⟩) := by
  obtain ⟨done, ht, hl⟩ := (singleUnit symbols c m).lower_tallied
  have hd : done.defects = [] := by
    rw [ht.defects_eq]
    show [m].filterMap (defectOf symbols) = []
    simp [defectOf, h]
  obtain ⟨hlen, hall⟩ := ht.functions_eq hd
  obtain ⟨f', s', hf', hget⟩ := hall 0 m rfl
  rw [show (singleUnit symbols c m).symbols = symbols from rfl, h] at hf'
  cases hf'
  rw [hl, Progress.outcome, hd]
  have hone : done.functions = [f] := by
    have hlen' : done.functions.length = 1 := hlen
    obtain ⟨k, hk⟩ := List.length_eq_one_iff.mp hlen'
    rw [hk] at hget ⊢
    have hk' : k = f.shift (issuedBy (singleUnit symbols c m).symbols []) := by simpa using hget
    rw [hk', show issuedBy _ [] = {} from rfl, Function.shift_zero]
  rw [hone]
  rfl

theorem singleUnit_lower_defect (c : ClassDef) {d : Defect} (h : defectOf symbols m = some d) :
    (singleUnit symbols c m).lower = .ok (.error [d]) := by
  obtain ⟨done, ht, hl⟩ := (singleUnit symbols c m).lower_tallied
  have hd : done.defects = [d] := by
    rw [ht.defects_eq]
    show [m].filterMap (defectOf symbols) = [d]
    simp [h]
  rw [hl, Progress.outcome, hd]
  rfl

theorem singleUnit_lower (symbols : SymbolTable) (c : ClassDef) (m : MethodDef) :
    (∃ f s, lowerMethod symbols m {} = .ok f s ∧ defectOf symbols m = none ∧
      (singleUnit symbols c m).lower = .ok (.ok ⟨[f]⟩)) ∨
    ∃ d, defectOf symbols m = some d ∧ (singleUnit symbols c m).lower = .ok (.error [d]) := by
  obtain ⟨f, s, -, hf, -⟩ | ⟨d, s, -, hd, -⟩ :=
    lowerMethod_from symbols m settled_empty
  · exact .inl ⟨f, s, hf, by rw [defectOf, hf], singleUnit_lower_ok c hf⟩
  · have h : defectOf symbols m = some d := by rw [defectOf, hd]
    exact .inr ⟨d, h, singleUnit_lower_defect c h⟩

namespace CheckedUnit

def defects (u : CheckedUnit) : List Defect :=
  match u.lower with
  | .ok (.error ds) => ds
  | _ => []

theorem defects_singleUnit (c : ClassDef) :
    (singleUnit symbols c m).defects = (defectOf symbols m).toList := by
  obtain ⟨f, s, -, hn, hl⟩ | ⟨d, hd, hl⟩ := singleUnit_lower symbols c m
  · rw [defects, hl, hn]
    rfl
  · rw [defects, hl, hd]
    rfl

theorem flatMap_defects {ms : List MethodDef} {vs : List CheckedUnit}
    (h : List.Forall₂ (fun m v ↦ ∃ c, v = singleUnit symbols c m) ms vs) :
    vs.flatMap defects = ms.filterMap (defectOf symbols) := by
  induction h with
  | nil => rfl
  | @cons m v ms vs hv _ ih =>
    obtain ⟨c, rfl⟩ := hv
    rw [List.flatMap_cons, List.filterMap_cons, ih, defects_singleUnit]
    cases defectOf symbols m <;> rfl

variable (u : CheckedUnit)

/-- The unit taken apart: one unit per method, in order. -/
def singles : List CheckedUnit :=
  u.program.classes.flatMap fun c ↦ c.methods.map (singleUnit u.symbols c)

def issuedBefore (i : Nat) : Offsets := issuedBy u.symbols ((methodsOf u.program.classes).take i)

theorem singles_forall₂ : List.Forall₂ (fun m v ↦ ∃ c, v = singleUnit u.symbols c m)
    (methodsOf u.program.classes) u.singles := by
  unfold methodsOf singles
  induction u.program.classes with
  | nil => exact .nil
  | cons c classes ih =>
    rw [List.flatMap_cons, List.flatMap_cons]
    refine List.rel_append ?_ ih
    rw [List.forall₂_map_right_iff]
    exact List.forall₂_same.mpr fun m _ ↦ ⟨c, rfl⟩

theorem singles_getElem? {i : Nat} {v : CheckedUnit} (h : u.singles[i]? = some v) :
    ∃ m c, (methodsOf u.program.classes)[i]? = some m ∧ v = singleUnit u.symbols c m := by
  obtain ⟨hlen, hget⟩ := List.forall₂_iff_get.mp u.singles_forall₂
  obtain ⟨hi, rfl⟩ := List.getElem?_eq_some_iff.mp h
  have hi' : i < (methodsOf u.program.classes).length := hlen ▸ hi
  obtain ⟨c, hc⟩ := hget i hi' hi
  exact ⟨_, c, List.getElem?_eq_getElem hi', hc⟩

/-- On its own a method gives one function or one defect. -/
theorem singles_lower {v : CheckedUnit} (hv : v ∈ u.singles) :
    (∃ q, v.lower = .ok (.ok q) ∧ v.defects = []) ∨
      ∃ d, v.lower = .ok (.error [d]) ∧ v.defects = [d] := by
  obtain ⟨i, hi⟩ := List.mem_iff_getElem?.mp hv
  obtain ⟨m, c, -, rfl⟩ := u.singles_getElem? hi
  obtain ⟨f, s, -, -, hl⟩ | ⟨d, -, hl⟩ := singleUnit_lower u.symbols c m
  · exact .inl ⟨_, hl, by rw [defects, hl]⟩
  · exact .inr ⟨d, hl, by rw [defects, hl]⟩

/-- A program comes out if and only if each method can be lowered on its own. Its functions are
those of the methods on their own, raised by what was issued before them; otherwise the defects are
those of the methods on their own. This is so behind a method with a defect, too. -/
theorem lower_independent :
    (∀ v ∈ u.singles, ∃ r, v.lower = .ok r) ∧
    ((∃ p, u.lower = .ok (.ok p)) ↔ ∀ v ∈ u.singles, ∃ q, v.lower = .ok (.ok q)) ∧
    (∀ p, u.lower = .ok (.ok p) → p.functions.length = u.singles.length ∧
      ∀ (i : Nat) (v : CheckedUnit), u.singles[i]? = some v →
        ∃ f : Function, v.lower = .ok (.ok ⟨[f]⟩) ∧
          p.functions[i]? = some (f.shift (u.issuedBefore i))) ∧
    ((∃ v ∈ u.singles, ∃ ds, v.lower = .ok (.error ds)) →
      u.lower = .ok (.error (u.singles.flatMap defects))) ∧
    ∀ (before : List MethodDef) (m : MethodDef),
      (∃ f s t, lowerMethod u.symbols m {} = .ok f s ∧
        lowerMethod u.symbols m { generator := generatorBehind u.symbols before } =
          .ok (f.shift (issuedBy u.symbols before)) t) ∨
      ∃ d s t, lowerMethod u.symbols m {} = .error (.defect d) s ∧
        lowerMethod u.symbols m { generator := generatorBehind u.symbols before } =
          .error (.defect d) t := by
  obtain ⟨done, ht, hl⟩ := u.lower_tallied
  have hdefects : done.defects = u.singles.flatMap defects := by
    rw [ht.defects_eq, flatMap_defects u.singles_forall₂]
  have hok : (∃ p, u.lower = .ok (.ok p)) ↔ done.defects = [] := by
    rw [hl, Progress.outcome]
    cases done.defects <;> simp
  refine ⟨fun v hv ↦ ?_, ?_, fun p hp ↦ ?_, ?_, fun before m ↦ ?_⟩
  · obtain ⟨q, hq, -⟩ | ⟨d, hd, -⟩ := u.singles_lower hv
    · exact ⟨_, hq⟩
    · exact ⟨_, hd⟩
  · rw [hok, hdefects, List.flatMap_eq_nil_iff]
    refine forall₂_congr fun v hv ↦ ?_
    obtain ⟨q, hq, hn⟩ | ⟨d, hd, hn⟩ := u.singles_lower hv
    · simp [hq, hn]
    · simp [hd, hn]
  · have hnil := hok.mp ⟨p, hp⟩
    rw [hl, Progress.outcome, hnil] at hp
    cases hp
    obtain ⟨hlen, hall⟩ := ht.functions_eq hnil
    refine ⟨hlen.trans u.singles_forall₂.length_eq, fun i v hi ↦ ?_⟩
    obtain ⟨m, c, hm, rfl⟩ := u.singles_getElem? hi
    obtain ⟨f, s, hf, hget⟩ := hall i m hm
    exact ⟨f, singleUnit_lower_ok c hf, hget⟩
  · rintro ⟨v, hv, ds, hds⟩
    have hne : done.defects ≠ [] := by
      rw [hdefects]
      intro hnil
      obtain ⟨q, hq, -⟩ | ⟨d, -, hn⟩ := u.singles_lower hv
      · rw [hq] at hds
        cases hds
      · simpa [hn] using List.flatMap_eq_nil_iff.mp hnil v hv
    rw [hl, Progress.outcome, ← hdefects]
    cases hd : done.defects with
    | nil => exact absurd hd hne
    | cons d ds => rfl
  · exact (lowerMethod_from _ _ (settled_generatorBehind u.symbols before)).imp
      (fun ⟨f, s, t, hf, ht, _⟩ ↦ ⟨f, s, t, hf, ht⟩) fun ⟨d, s, t, hd, ht, _⟩ ↦ ⟨d, s, t, hd, ht⟩

end CheckedUnit

end ThreeAddress.Checked
