import Mathlib.Data.Nat.Basic
import Mathlib.Order.Basic
import ThreeAddress.Lowering.Program
import ThreeAddress.Proofs.Code.Labels

namespace ThreeAddress.Generator

theorem lookup_countUp (stem p : String) (counts : List (String × Nat)) :
    ((countUp stem counts).lookup p).getD 0 =
      if p = stem then (counts.lookup p).getD 0 + 1 else (counts.lookup p).getD 0 := by
  induction counts with
  | nil =>
    by_cases h : p = stem
    · simp [countUp, h]
    · have hp : (p == stem) = false := by simpa using h
      simp [countUp, List.lookup_cons, h, hp]
  | cons entry counts ih =>
    obtain ⟨s, n⟩ := entry
    by_cases hs : s = stem
    · subst hs
      by_cases h : p = s
      · simp [countUp, h]
      · have hp : (p == s) = false := by simpa using h
        simp [countUp, List.lookup_cons, h, hp]
    · by_cases h : p = s
      · subst h
        simp [countUp, hs]
      · have hp : (p == s) = false := by simpa using h
        simpa [countUp, List.lookup_cons, hs, hp] using ih

theorem issued_freshLabel (g : Generator) (stem p : String) :
    (g.freshLabel stem).2.issued p = if p = stem then g.issued p + 1 else g.issued p :=
  lookup_countUp stem p g.labels

end ThreeAddress.Generator

namespace ThreeAddress.Lowering

open Checked Code

namespace State

def temps (s : State) : Nat := s.generator.temps

def issued (s : State) (stem : String) : Nat := s.generator.issued stem

def placed (s : State) : List Label := s.generator.placed

def code (s : State) : List Instr := s.generator.current.body.toList

def params (s : State) : List Temp := s.generator.current.params

end State

/-- Temporaries in the order of their issue, behind the first `n` and among the first `m`. -/
def Ascending (n : Nat) : List Temp → Nat → Prop
  | [], m => n ≤ m
  | t :: ts, m => n < t.index ∧ Ascending t.index ts m

namespace Ascending

variable {n m k : Nat} {t : Temp} {ts us : List Temp}

theorem le (h : Ascending n ts m) : n ≤ m := by
  induction ts generalizing n with
  | nil => exact h
  | cons t ts ih => exact h.1.le.trans (ih h.2)

theorem append (h : Ascending n ts m) (h' : Ascending m us k) : Ascending n (ts ++ us) k := by
  induction ts generalizing n with
  | nil =>
    cases us with
    | nil => exact h.trans h'
    | cons u us => exact ⟨h.trans_lt h'.1, h'.2⟩
  | cons t ts ih => exact ⟨h.1, ih h.2⟩

theorem of_append (ts : List Temp) (h : Ascending n (ts ++ us) k) :
    ∃ m, Ascending n ts m ∧ Ascending m us k := by
  induction ts generalizing n with
  | nil => exact ⟨n, le_refl n, h⟩
  | cons t ts ih =>
    obtain ⟨m, ht, hu⟩ := ih h.2
    exact ⟨m, ⟨h.1, ht⟩, hu⟩

theorem mem (h : Ascending n ts m) (ht : t ∈ ts) : n < t.index ∧ t.index ≤ m := by
  induction ts generalizing n with
  | nil => cases ht
  | cons u us ih =>
    cases ht with
    | head => exact ⟨h.1, h.2.le⟩
    | tail _ ht => exact ⟨h.1.trans (ih h.2 ht).1, (ih h.2 ht).2⟩

end Ascending

def IssuedTemp (s : State) (t : Temp) (s' : State) : Prop :=
  s.temps < t.index ∧ t.index ≤ s'.temps

def IssuedLabel (s : State) (l : Label) (s' : State) : Prop :=
  s.issued l.stem < l.number ∧ l.number ≤ s'.issued l.stem

/-- The second state holds the new code behind the code of the first, in the same function. The
temporaries listed were issued one after the other and belong to no variable, and all else that was
added is fresh as well. -/
structure Emission (s s' : State) (new : List Instr) (ts : List Temp) : Prop where
  code_eq : s'.code = s.code ++ new
  params_eq : s'.params = s.params
  ascending : Ascending s.temps ts s'.temps
  issued_le : ∀ stem, s.issued stem ≤ s'.issued stem
  placed_eq : s'.placed = (labels new).reverse ++ s.placed
  labels_nodup : (labels new).Nodup
  labels_unplaced : ∀ l ∈ labels new, l ∉ s.placed
  bound_eq : ∃ declared, s'.bound = declared ++ s.bound ∧
    ∀ d ∈ declared, IssuedTemp s d.2 s' ∧ d.2 ∉ ts

variable {α β : Type} {s s₁ s₂ s' : State} {t : Temp} {l : Label} {i : Instr}
variable {new new₁ new₂ : List Instr} {ts ts₁ ts₂ : List Temp}

namespace Emission

theorem temps_le (h : Emission s s' new ts) : s.temps ≤ s'.temps := h.ascending.le

theorem issued (h : Emission s s' new ts) (ht : t ∈ ts) : IssuedTemp s t s' := h.ascending.mem ht

theorem refl (s : State) : Emission s s [] [] where
  code_eq := by simp
  params_eq := rfl
  ascending := le_rfl
  issued_le _ := le_rfl
  placed_eq := by simp
  labels_nodup := by simp
  labels_unplaced := by simp
  bound_eq := ⟨[], by simp⟩

theorem trans (h₁ : Emission s s₁ new₁ ts₁) (h₂ : Emission s₁ s₂ new₂ ts₂) :
    Emission s s₂ (new₁ ++ new₂) (ts₁ ++ ts₂) where
  code_eq := by rw [h₂.code_eq, h₁.code_eq, List.append_assoc]
  params_eq := h₂.params_eq.trans h₁.params_eq
  ascending := h₁.ascending.append h₂.ascending
  issued_le stem := (h₁.issued_le stem).trans (h₂.issued_le stem)
  placed_eq := by rw [h₂.placed_eq, h₁.placed_eq]; simp
  labels_nodup := by
    rw [labels_append, List.nodup_append]
    refine ⟨h₁.labels_nodup, h₂.labels_nodup, fun a ha b hb hab ↦ ?_⟩
    subst hab
    exact h₂.labels_unplaced a hb (by simp [h₁.placed_eq, ha])
  labels_unplaced l hl hp := by
    rw [labels_append, List.mem_append] at hl
    rcases hl with hl | hl
    · exact h₁.labels_unplaced l hl hp
    · exact h₂.labels_unplaced l hl (by simp [h₁.placed_eq, hp])
  bound_eq := by
    obtain ⟨d₁, hd₁, hi₁⟩ := h₁.bound_eq
    obtain ⟨d₂, hd₂, hi₂⟩ := h₂.bound_eq
    refine ⟨d₂ ++ d₁, by rw [hd₂, hd₁, List.append_assoc], fun d hd ↦ ?_⟩
    rcases List.mem_append.mp hd with hd | hd
    · obtain ⟨⟨hl, hu⟩, ht⟩ := hi₂ d hd
      refine ⟨⟨h₁.temps_le.trans_lt hl, hu⟩, fun hm ↦ ?_⟩
      rcases List.mem_append.mp hm with hm | hm
      · exact absurd (h₁.ascending.mem hm).2 (by omega)
      · exact ht hm
    · obtain ⟨⟨hl, hu⟩, ht⟩ := hi₁ d hd
      refine ⟨⟨hl, hu.trans h₂.temps_le⟩, fun hm ↦ ?_⟩
      rcases List.mem_append.mp hm with hm | hm
      · exact ht hm
      · exact absurd (h₂.ascending.mem hm).1 (by omega)

theorem code_unique (h₁ : Emission s s' new₁ ts₁) (h₂ : Emission s s' new₂ ts₂) : new₁ = new₂ :=
  List.append_cancel_left (h₁.code_eq.symm.trans h₂.code_eq)

theorem weaken (h : Emission s s' new ts) : Emission s s' new [] :=
  { h with
    ascending := h.temps_le
    bound_eq := by
      obtain ⟨declared, hb, hd⟩ := h.bound_eq
      exact ⟨declared, hb, fun d hm ↦ ⟨(hd d hm).1, by simp⟩⟩ }

end Emission

theorem IssuedLabel.widen (h : IssuedLabel s₁ l s₂) (h₁ : Emission s s₁ new₁ ts₁)
    (h₂ : Emission s₂ s' new₂ ts₂) : IssuedLabel s l s' :=
  ⟨(h₁.issued_le _).trans_lt h.1, h.2.trans (h₂.issued_le _)⟩

theorem bind_ok_iff {x : Lower α} {f : α → Lower β} {b : β} :
    (x >>= f) s = .ok b s' ↔ ∃ a t, x s = .ok a t ∧ f a t = .ok b s' := by
  show EStateM.bind x f s = .ok b s' ↔ _
  unfold EStateM.bind
  cases x s <;> simp

theorem bind_of_ok {x : Lower α} {a : α} (h : x s = .ok a s₁) (f : α → Lower β) :
    (x >>= f) s = f a s₁ := by
  show EStateM.bind x f s = f a s₁
  rw [EStateM.bind, h]

theorem bind_of_error {x : Lower α} {e : Failure} (h : x s = .error e s₁) (f : α → Lower β) :
    (x >>= f) s = .error e s₁ := by
  show EStateM.bind x f s = .error e s₁
  rw [EStateM.bind, h]

theorem pure_ok_iff {a b : α} : (pure a : Lower α) s = .ok b s' ↔ a = b ∧ s = s' := by
  show EStateM.Result.ok a s = .ok b s' ↔ _
  simp

def resultOf (x : Lower α) (s : State) : Option α :=
  match x s with
  | .ok a _ => some a
  | .error _ _ => none

theorem exists_of_resultOf {x : Lower α} {a : α} (h : resultOf x s = some a) :
    ∃ s', x s = .ok a s' := by
  unfold resultOf at h
  split at h
  · rename_i b s' hx
    cases h
    exact ⟨s', hx⟩
  · cases h

theorem reject_ok_iff {kind : DefectKind} {span : Span} {a : α} :
    reject kind span s = .ok a s' ↔ False := by
  show EStateM.Result.error _ s = .ok a s' ↔ _
  simp

theorem freshTemp_ok (h : freshTemp s = .ok t s') : Emission s s' [] [t] := by
  cases h
  exact ⟨(List.append_nil _).symm, rfl, ⟨Nat.lt_succ_self _, le_rfl⟩, fun _ ↦ le_rfl, rfl,
    List.nodup_nil, by simp, [], rfl, by simp⟩

theorem freshLabel_ok {stem : String} (h : freshLabel stem s = .ok l s') :
    Emission s s' [] [] ∧ IssuedLabel s l s' ∧ l.stem = stem := by
  cases h
  have hc (p : String) := Generator.issued_freshLabel s.generator stem p
  refine ⟨⟨(List.append_nil _).symm, rfl, Nat.le_refl s.temps, fun p ↦ ?_, rfl, List.nodup_nil,
    by simp, [], rfl, by simp⟩, ⟨Nat.lt_succ_self _, ?_⟩, rfl⟩
  · refine le_of_le_of_eq ?_ (hc p).symm
    split
    · exact Nat.le_succ _
    · exact le_rfl
  · exact le_of_eq ((hc stem).trans (if_pos rfl)).symm

/-- Appending an instruction that is no label to the code of a generator that differs from that of
the state in its counters only. -/
theorem appended_emission (g : Generator) (hi : i.label? = none)
    (hc : g.current = s.generator.current) (ht : Ascending s.temps ts g.temps)
    (hl : g.labels = s.generator.labels) (hp : g.placed = s.generator.placed) :
    Emission s { s with generator := g.append i } [i] ts where
  code_eq := by simp [State.code, Generator.append, Generator.note, hc]
  params_eq := by simp [State.params, Generator.append, Generator.note, hc]
  ascending := ht
  issued_le stem := le_of_eq (by
    simp only [State.issued, Generator.issued, Generator.append, Generator.note, hl])
  placed_eq := by rw [labels_cons, hi]; exact hp
  labels_nodup := by simp [hi]
  labels_unplaced := by simp [hi]
  bound_eq := ⟨[], rfl, by simp⟩

theorem append_ok {a : Unit} (hi : i.label? = none) (h : append i s = .ok a s') :
    Emission s s' [i] [] := by
  cases h
  exact appended_emission s.generator hi rfl (Nat.le_refl s.temps) rfl rfl

theorem compute_ok {instr : Temp → Instr} (hi : ∀ t, (instr t).label? = none)
    (h : compute instr s = .ok t s') : Emission s s' [instr t] [t] := by
  cases h
  exact appended_emission s.generator.freshTemp.2 (hi _) rfl ⟨Nat.lt_succ_self _, le_rfl⟩ rfl rfl

theorem pass_ok {a : Unit} (h : pass t s = .ok a s') : Emission s s' [.param t] [] := by
  cases h
  exact appended_emission { s.generator with pending := s.generator.pending + 1 } rfl rfl
    (Nat.le_refl s.temps) rfl rfl

theorem call_emission (g : Generator) (instr : Option Temp → Instr) {type : DataType}
    (hi : ∀ d, (instr d).label? = none) (hg : g = s.generator) :
    Emission s { s with generator := (g.call instr type).2 } [instr (g.call instr type).1]
      (g.call instr type).1.toList ∧ ((g.call instr type).1 = none ↔ type.isVoid) := by
  subst hg
  by_cases hv : type.isVoid
  · simp only [Generator.call, Generator.resultTemp, if_pos hv]
    exact ⟨appended_emission { s.generator with pending := 0 } (hi _) rfl (Nat.le_refl s.temps) rfl
      rfl, by simp [hv]⟩
  · simp only [Generator.call, Generator.resultTemp, if_neg hv]
    exact ⟨appended_emission { s.generator with pending := 0, temps := s.generator.temps + 1 }
      (hi _) rfl ⟨Nat.lt_succ_self _, le_rfl⟩ rfl rfl, by simp [hv]⟩

theorem call_ok {instr : Option Temp → Instr} {type : DataType} {result : Option Temp}
    (hi : ∀ d, (instr d).label? = none) (h : call instr type s = .ok result s') :
    Emission s s' [instr result] result.toList ∧ (result = none ↔ type.isVoid) := by
  cases h
  exact call_emission s.generator instr hi rfl

theorem attempt_of_ok {f : Generator → Except Fault (α × Generator)} {a : α} {g : Generator}
    (h : f s.generator = .ok (a, g)) : attempt f s = .ok a { s with generator := g } := by
  unfold attempt
  rw [bind_of_ok (show (get : Lower State) s = .ok s s from rfl), h]
  rfl

theorem attempt_of_error {f : Generator → Except Fault (α × Generator)} {e : Fault}
    (h : f s.generator = .error e) : attempt f s = .error (.fault e) s := by
  unfold attempt
  rw [bind_of_ok (show (get : Lower State) s = .ok s s from rfl), h]
  rfl

theorem attempt_ok {f : Generator → Except Fault (α × Generator)} {a : α}
    (h : attempt f s = .ok a s') :
    ∃ g, f s.generator = .ok (a, g) ∧ s' = { s with generator := g } := by
  cases hf : f s.generator with
  | error fault =>
    rw [attempt_of_error hf] at h
    cases h
  | ok r =>
    rw [attempt_of_ok (a := r.1) (g := r.2) hf] at h
    cases h
    exact ⟨r.2, rfl, rfl⟩

theorem callRoutine_ok {r : Routine} {result : Option Temp} (h : callRoutine r s = .ok result s') :
    Emission s s' [.call result r.name] result.toList ∧ (result = none ↔ r.result.isVoid) := by
  obtain ⟨g, hg, rfl⟩ := attempt_ok h
  unfold Generator.callRoutine at hg
  split at hg
  · cases hg
    exact call_emission s.generator (.call · r.name) (fun _ ↦ rfl) rfl
  · cases hg

theorem place_ok {a : Unit} (h : place l s = .ok a s') : Emission s s' [.label l] [] := by
  obtain ⟨g, hg, rfl⟩ := attempt_ok h
  unfold Generator.place at hg
  split at hg
  · cases hg
  · rename_i hl
    cases hg
    exact {
      code_eq := by simp [State.code, Generator.append, Generator.note]
      params_eq := rfl
      ascending := Nat.le_refl s.temps
      issued_le := fun _ ↦ le_rfl
      placed_eq := rfl
      labels_nodup := by simp
      labels_unplaced := fun k hk hp ↦ by
        obtain rfl : k = l := by simpa using hk
        exact hl hp
      bound_eq := ⟨[], rfl, by simp⟩ }

theorem declare_ok {v : VarId} (h : declare v s = .ok t s') :
    Emission s s' [] [] ∧ IssuedTemp s t s' ∧ s'.bound = (v, t) :: s.bound := by
  cases h
  have ht : IssuedTemp s ⟨s.temps + 1⟩ { s with generator := s.generator.freshTemp.2 } :=
    ⟨Nat.lt_succ_self _, le_rfl⟩
  refine ⟨⟨(List.append_nil _).symm, rfl, Nat.le_succ _, fun _ ↦ le_rfl, rfl, List.nodup_nil,
    by simp, [(v, _)], rfl, ?_⟩, ht, rfl⟩
  intro d hd
  obtain rfl := List.mem_singleton.mp hd
  exact ⟨ht, by simp⟩

def lookUp (found : Option α) (kind : DefectKind) (span : Span) : Lower α :=
  match found with
  | some a => return a
  | none => reject kind span

section lookup

variable {env : Env} {span : Span}

theorem Env.findClass_eq (c : ClassId) :
    env.findClass c span = lookUp (env.symbols.class? c) (.unknownClass c) span := by
  unfold Env.findClass lookUp
  cases env.symbols.class? c <;> rfl

theorem Env.findMethod_eq (m : MethodId) :
    env.findMethod m span = lookUp (env.symbols.method? m) (.unknownMethod m) span := by
  unfold Env.findMethod lookUp
  cases env.symbols.method? m <;> rfl

theorem Env.findVar_eq (v : VarId) :
    env.findVar v span = lookUp (env.symbols.var? v) (.unknownVariable v) span := by
  unfold Env.findVar lookUp
  cases env.symbols.var? v <;> rfl

theorem Env.findReceiver_eq :
    env.findReceiver span = lookUp env.receiver .missingReceiver span := by
  unfold Env.findReceiver lookUp
  cases env.receiver <;> rfl

theorem demand_eq (result : Option Temp) : demand result span = lookUp result .voidValue span := by
  unfold demand lookUp
  cases result <;> rfl

theorem lookUp_ok {found : Option α} {kind : DefectKind} {a : α}
    (h : lookUp found kind span s = .ok a s') : found = some a ∧ s' = s := by
  cases found with
  | none => cases h
  | some b =>
    cases h
    exact ⟨rfl, rfl⟩

theorem Env.findClass_ok {c : ClassId} {symbol : ClassSymbol}
    (h : env.findClass c span s = .ok symbol s') :
    env.symbols.class? c = some symbol ∧ s' = s := lookUp_ok (Env.findClass_eq c ▸ h)

theorem Env.findMethod_ok {m : MethodId} {symbol : MethodSymbol}
    (h : env.findMethod m span s = .ok symbol s') :
    env.symbols.method? m = some symbol ∧ s' = s := lookUp_ok (Env.findMethod_eq m ▸ h)

theorem Env.findVar_ok {v : VarId} {symbol : VariableSymbol}
    (h : env.findVar v span s = .ok symbol s') :
    env.symbols.var? v = some symbol ∧ s' = s := lookUp_ok (Env.findVar_eq v ▸ h)

theorem Env.findReceiver_ok (h : env.findReceiver span s = .ok t s') :
    env.receiver = some t ∧ s' = s := lookUp_ok (Env.findReceiver_eq ▸ h)

theorem demand_ok {result : Option Temp} (h : demand result span s = .ok t s') :
    result = some t ∧ s' = s := lookUp_ok (demand_eq result ▸ h)

theorem Env.findTemp_of_some {v : VarId} (h : s.bound.lookup v = some t) :
    env.findTemp v span s = .ok t s := by
  unfold Env.findTemp
  rw [bind_of_ok (show (get : Lower State) s = .ok s s from rfl), h]
  rfl

theorem Env.findTemp_of_none {v : VarId} (h : s.bound.lookup v = none) :
    env.findTemp v span s =
      (env.findVar v span >>= fun symbol ↦ reject (.unboundVariable symbol.name) span) s := by
  unfold Env.findTemp
  rw [bind_of_ok (show (get : Lower State) s = .ok s s from rfl), h]

theorem Env.findTemp_ok {v : VarId} (h : env.findTemp v span s = .ok t s') :
    s.bound.lookup v = some t ∧ s' = s := by
  cases hf : s.bound.lookup v with
  | none =>
    rw [Env.findTemp_of_none hf] at h
    simp only [bind_ok_iff, reject_ok_iff, and_false, exists_false] at h
  | some found =>
    rw [Env.findTemp_of_some hf] at h
    cases h
    exact ⟨rfl, rfl⟩

end lookup

end ThreeAddress.Lowering
