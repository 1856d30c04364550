import ThreeAddress.Proofs.Control.Survey
import ThreeAddress.Proofs.Lowering.Account

namespace ThreeAddress.Control

open Checked Code Lowering Machine

/-- An access with the expressions that it is made of. -/
inductive Access where
  | read (array index : Expr)
  | write (array index : Expr)
  | readOr (array index fallback : Expr)
  | fill (value count : Expr)
  | forEach (array : Expr)

end ThreeAddress.Control

namespace ThreeAddress.Checked

open Control Lowering

mutual

/-- The accesses of an expression and the variables that it declares, in the order of lowering. -/
def Expr.accesses : Expr → List (Happening Access)
  | .mk kind _ lvalue _ =>
    match kind with
    | .literal _ | .null | .this | .readInteger | .readLine | .newClass _ => []
    | .varBinding v => [.declared v]
    | .ident owner _ =>
      match lvalue with
      | .memberVar => Expr.accessesOption owner
      | .localVar | .paramVar | .notLValue | .arrayElement => []
    | .indexed array index => array.accesses ++ index.accesses ++ [.made (.read array index)]
    | .call c => c.accesses
    | .arrayLength array => array.accesses
    | .binary _ left right => left.accesses ++ right.accesses
    | .unary _ operand => operand.accesses
    | .newArray _ length => length.accesses
    | .instanceOf object _ | .cast object _ => object.accesses
    | .shallowCopy source => source.accesses
    | .newSameArray value count => value.accesses ++ count.accesses ++ [.made (.fill value count)]
    | .defaultIndex array index fallback =>
      array.accesses ++ (index.accesses ++ fallback.accesses) ++
        [.made (.readOr array index fallback)]

def Call.accesses : Call → List (Happening Access)
  | .mk receiver _ args => Expr.accessesOption receiver ++ Expr.accessesAll args

def Expr.accessesOption : Option Expr → List (Happening Access)
  | some e => e.accesses
  | none => []

def Expr.accessesAll : List Expr → List (Happening Access)
  | [] => []
  | e :: es => e.accesses ++ Expr.accessesAll es

end

def Expr.accessesTarget (target : Expr) : List (Happening Access) :=
  match target.lvalue, target.kind with
  | .arrayElement, .indexed array index =>
    array.accesses ++ index.accesses ++ [.made (.write array index)]
  | .memberVar, .ident owner _ => Expr.accessesOption owner
  | .localVar, .varBinding v => [.declared v]
  | _, _ => []

mutual

def Stmt.accesses : Stmt → List (Happening Access)
  | .mk kind _ =>
    match kind with
    | .varDef v => [.declared v]
    | .leave => []
    | .block statements => Stmt.accessesAll statements
    | .exec e => e.accesses
    | .assign target source => source.accesses ++ target.accessesTarget
    | .cond condition thenBranch elseBranch =>
      condition.accesses ++ (thenBranch.accesses ++ Stmt.accessesOption elseBranch)
    | .whileLoop condition body => condition.accesses ++ body.accesses
    | .forLoop init condition update body =>
      Stmt.accessesOption init ++ (Stmt.accessesOption update ++
        (condition.accesses ++ body.accesses))
    | .forEach v array guard body =>
      .declared v :: array.accesses ++
        .made (.forEach array) :: (Expr.accessesOption guard ++ body.accesses)
    | .ret value => Expr.accessesOption value
    | .print args => args.flatMap Expr.accesses
    | .guarded alternatives last => Branch.accessesAll alternatives ++ last.accesses

def Stmt.accessesOption : Option Stmt → List (Happening Access)
  | none => []
  | some s => s.accesses

def Stmt.accessesAll : List Stmt → List (Happening Access)
  | [] => []
  | s :: rest => s.accesses ++ Stmt.accessesAll rest

def Branch.accesses : Branch → List (Happening Access)
  | .mk guard body => guard.accesses ++ body.accesses

def Branch.accessesAll : List Branch → List (Happening Access)
  | [] => []
  | b :: rest => b.accesses ++ Branch.accessesAll rest

end

end ThreeAddress.Checked

namespace ThreeAddress.Control

open Checked Code Lowering Machine

variable {α β : Type} {env : Env} {s s₁ s' : State} {access : Access} {site : Site} {n : Nat}

/-- How many instructions make the value that is stored in each element of a new array: an object is
copied word by word. -/
def storeLength (symbols : SymbolTable) (type : DataType) : Nat :=
  match type.class?.bind symbols.class? with
  | some symbol => 2 * (fieldOffsets symbol.size).length + 5
  | none => 0

/-- Where an access stands in the code, made on the way from one state to another while `n`
variables are bound. The operands have been evaluated right before, the array is the value of its
operand, and the code of the access begins at the entry of the site; that of a new array begins in
front of it, with the allocation. -/
inductive Stands (env : Env) (s s' : State) (n : Nat) : Access → Site → Prop
  | read {array index : Expr} {t t₀ t₁ t₂ t₃ : State} {a i address r : Temp} (hs : Leads s t)
      (ha : array.lower env t = .ok a t₀) (hi : index.lower env t₀ = .ok i t₁)
      (hn : t₁.bound.length = n) (hc : checkedAddress a i t₁ = .ok address t₂)
      (hr : load address 0 t₂ = .ok r t₃) (hs' : Leads t₃ s') :
      Stands env s s' n (.read array index)
        ⟨t₁.code.length, t₁.code.length + 4, a, .stored, false⟩
  | write {array index : Expr} {t t₀ t₁ t₂ t₃ : State} {a i address v : Temp} (hs : Leads s t)
      (ha : array.lower env t = .ok a t₀) (hi : index.lower env t₀ = .ok i t₁)
      (hn : t₁.bound.length = n) (hc : checkedAddress a i t₁ = .ok address t₂)
      (hw : append (.store v address 0) t₂ = .ok () t₃) (hs' : Leads t₃ s') :
      Stands env s s' n (.write array index)
        ⟨t₁.code.length, t₁.code.length + 4, a, .stored, true⟩
  | readOr {array index fallback : Expr} {t t₀ t₁ t₂ t₃ : State} {a i d r : Temp} (hs : Leads s t)
      (ha : array.lower env t = .ok a t₀) (hi : index.lower env t₀ = .ok i t₁)
      (hd : fallback.lower env t₁ = .ok d t₂) (hn : t₂.bound.length = n)
      (hr : Lowering.readOr a i d t₂ = .ok r t₃) (hs' : Leads t₃ s') :
      Stands env s s' n (.readOr array index fallback)
        ⟨t₂.code.length, t₂.code.length + 13, a, .stored, false⟩
  | fill {value count : Expr} {span : Span} {t t₀ t₁ t₂ : State} {v c a : Temp} (hs : Leads s t)
      (hv : value.lower env t = .ok v t₀) (hc : count.lower env t₀ = .ok c t₁)
      (hn : t₁.bound.length = n) (hf : fillArray env v c value.type span t₁ = .ok a t₂)
      (hs' : Leads t₂ s') :
      Stands env s s' n (.fill value count) ⟨t₁.code.length + 1,
        t₁.code.length + 1 + (storeLength env.symbols value.type + 7), a, .count c, true⟩
  | forEach {array : Expr} {t t₀ t₁ : State} {element a : Temp} {loop : ArrayLoop} (hs : Leads s t)
      (ha : array.lower env t = .ok a t₀) (hn : t₀.bound.length = n)
      (ho : openEach element a t₀ = .ok loop t₁) (hs' : Leads t₁ s') :
      Stands env s s' n (.forEach array) ⟨t₀.code.length, t₀.code.length + 10, a, .stored, false⟩

theorem Stands.widen {u u' : State} (h : Stands env s s' n access site) (hu : Leads u s)
    (hu' : Leads s' u') : Stands env u u' n access site := by
  cases h with
  | read hs ha hi hn hc hr hs' => exact .read (hu.trans hs) ha hi hn hc hr (hs'.trans hu')
  | write hs ha hi hn hc hw hs' => exact .write (hu.trans hs) ha hi hn hc hw (hs'.trans hu')
  | readOr hs ha hi hd hn hr hs' => exact .readOr (hu.trans hs) ha hi hd hn hr (hs'.trans hu')
  | fill hs hv hc hn hf hs' => exact .fill (hu.trans hs) hv hc hn hf (hs'.trans hu')
  | forEach hs ha hn ho hs' => exact .forEach (hu.trans hs) ha hn ho (hs'.trans hu')

theorem Stands.accounts {u u' : State} {k m : Nat} {accesses : List (Happening Access)}
    {sites : List Site} (h : Accounts (Stands env s s') k accesses sites m) (hu : Leads u s)
    (hu' : Leads s' u') : Accounts (Stands env u u') k accesses sites m :=
  h.imp fun _ _ _ h ↦ h.widen hu hu'

theorem situated_later {new : List Instr} {ts : List Temp} (h : Situated env s)
    (e : Emission s s' new ts) : Situated env s' := by
  refine ⟨fun t ht ↦ (h.receiver_le t ht).trans e.temps_le, fun d hd ↦ ?_⟩
  obtain ⟨declared, hb, hi⟩ := e.bound_eq
  rw [hb] at hd
  rcases List.mem_append.mp hd with hd | hd
  · exact (hi d hd).1.2
  · exact (h.bound_le d hd).trans e.temps_le

/-- Each of the accesses has its site in the code that a run of the action emits. The temporaries
`res` are among those issued by then. -/
def Surveys (env : Env) (known : List Mark) (x : Lower α) (accesses : List (Happening Access))
    (res : α → List Temp := fun _ ↦ []) : Prop :=
  ∀ ⦃s a s'⦄, x s = .ok a s' → Situated env s → (∀ k ∈ known, k.Old s) →
    ∃ new sites, Emission s s' new [] ∧ Survey env.symbols known s s' new sites ∧
      Accounts (Stands env s s') s.bound.length accesses sites s'.bound.length ∧
      ∀ t ∈ res a, t.index ≤ s'.temps

/-- Likewise, but in front of the sites of the accesses there is one of which `Q` holds. -/
def Enters (env : Env) (known : List Mark) (x : Lower α) (Q : State → α → State → Site → Prop)
    (accesses : List (Happening Access)) (res : α → List Temp := fun _ ↦ []) : Prop :=
  ∀ ⦃s a s'⦄, x s = .ok a s' → Situated env s → (∀ k ∈ known, k.Old s) →
    ∃ new site sites, Emission s s' new [] ∧ Survey env.symbols known s s' new (site :: sites) ∧
      Q s a s' site ∧ Accounts (Stands env s s') s.bound.length accesses sites s'.bound.length ∧
      ∀ t ∈ res a, t.index ≤ s'.temps

namespace Surveys

variable {known : List Mark} {accesses accesses₁ accesses₂ : List (Happening Access)} {x : Lower α}
variable {f : α → Lower β} {res : α → List Temp} {rest : β → List Temp} {span : Span}

theorem old_results {new : List Instr} {ts us : List Temp} (hold : ∀ k ∈ known, k.Old s)
    (e : Emission s s₁ new ts) (h : ∀ t ∈ us, t.index ≤ s₁.temps) :
    ∀ k ∈ us.map .temp ++ known, k.Old s₁ := by
  intro k hk
  rcases List.mem_append.mp hk with hk | hk
  · obtain ⟨t, ht, rfl⟩ := List.mem_map.mp hk
    exact h t ht
  · exact (hold k hk).later e

theorem bind (hx : Surveys env known x accesses₁ res)
    (hf : ∀ a, Surveys env ((res a).map .temp ++ known) (f a) accesses₂ rest) :
    Surveys env known (x >>= f) (accesses₁ ++ accesses₂) rest := by
  intro s b s' h hs hold
  obtain ⟨a, s₁, ha, hb⟩ := bind_ok_iff.mp h
  obtain ⟨new₁, sites₁, e₁, v₁, p₁, r₁⟩ := hx ha hs hold
  obtain ⟨new₂, sites₂, e₂, v₂, p₂, r₂⟩ := hf a hb (situated_later hs e₁) (old_results hold e₁ r₁)
  refine ⟨_, _, e₁.trans e₂, v₁.append v₂ e₁ e₂ hold (by simp), ?_, r₂⟩
  exact (Stands.accounts p₁ (.refl s) ⟨_, e₂⟩).append (Stands.accounts p₂ ⟨_, e₁⟩ (.refl s'))

theorem andThen (hx : Surveys env known x accesses res)
    (hf : ∀ a, Surveys env ((res a).map .temp ++ known) (f a) [] rest) :
    Surveys env known (x >>= f) accesses rest := List.append_nil accesses ▸ hx.bind hf

theorem before (hx : Surveys env known x [] res)
    (hf : ∀ a, Surveys env ((res a).map .temp ++ known) (f a) accesses rest) :
    Surveys env known (x >>= f) accesses rest := hx.bind hf

theorem freshLabel {stem : String} {f : Label → Lower β}
    (hf : ∀ l, Surveys env (.label l :: known) (f l) accesses rest) :
    Surveys env known (freshLabel stem >>= f) accesses rest := by
  intro s b s' h hs hold
  obtain ⟨l, s₁, hl, hb⟩ := bind_ok_iff.mp h
  obtain ⟨e₁, hi, -⟩ := freshLabel_ok hl
  have hold₁ : ∀ k ∈ Mark.label l :: known, k.Old s₁ :=
    List.forall_mem_cons.mpr ⟨hi.2, fun k hk ↦ (hold k hk).later e₁⟩
  obtain ⟨new, sites, e₂, v, p, r⟩ := hf l hb (situated_later hs e₁) hold₁
  rw [Bindless.step _ hl] at p
  refine ⟨_, _, e₁.trans e₂, .lead ⟨rfl, by simp, by simp⟩ (by simp) v e₁ e₂ hold ?_,
    Stands.accounts p ⟨_, e₁⟩ (.refl s'), r⟩
  intro k hk
  rcases List.mem_cons.mp hk with hk | hk
  · cases hk
    exact .inr hi
  · exact .inl hk

/-- An access whose operands are those of an action and whose code comes right behind them. -/
theorem enter {Q : α → State → β → State → Site → Prop} (hx : Surveys env known x accesses₁ res)
    (hf : ∀ a, Enters env ((res a).map .temp ++ known) (f a) (Q a) accesses₂ rest)
    (hQ : ∀ ⦃s a s₁ b s' site⦄, x s = .ok a s₁ → f a s₁ = .ok b s' → Q a s₁ b s' site →
      Stands env s s' s₁.bound.length access site) :
    Surveys env known (x >>= f) (accesses₁ ++ .made access :: accesses₂) rest := by
  intro s b s' h hs hold
  obtain ⟨a, s₁, ha, hb⟩ := bind_ok_iff.mp h
  obtain ⟨new₁, sites₁, e₁, v₁, p₁, r₁⟩ := hx ha hs hold
  obtain ⟨new₂, site, sites₂, e₂, v₂, q, p₂, r₂⟩ :=
    hf a hb (situated_later hs e₁) (old_results hold e₁ r₁)
  refine ⟨_, _, e₁.trans e₂, v₁.append v₂ e₁ e₂ hold (by simp), ?_, r₂⟩
  exact (Stands.accounts p₁ (.refl s) ⟨_, e₂⟩).append
    (.made (hQ ha hb q) (Stands.accounts p₂ ⟨_, e₁⟩ (.refl s')))

theorem plain (hb : Bindless x) (h : ∀ ⦃s a s'⦄, x s = .ok a s' → ∃ code ts, Emission s s' code ts ∧
    Plain env.symbols code ∧ (∀ l ∈ targets code, .label l ∈ known) ∧
      ∀ t ∈ res a, t ∈ ts ∨ .temp t ∈ known) : Surveys env known x [] res := by
  intro s a s' ha _ hold
  obtain ⟨code, ts, e, hp, ht, hr⟩ := h ha
  refine ⟨code, [], e.weaken, .ofPlain hp fun l hl ↦ .inl (ht l hl), .idle (by rw [hb ha]),
    fun t hm ↦ ?_⟩
  rcases hr t hm with hm | hm
  · exact (e.issued hm).2
  · exact Nat.le_trans (hold _ hm) e.temps_le

theorem pure (a : α) (h : ∀ t ∈ res a, .temp t ∈ known) :
    Surveys env known (pure a : Lower α) [] res := by
  refine plain (.pure a) fun s b s' hb ↦ ?_
  obtain ⟨rfl, rfl⟩ := pure_ok_iff.mp hb
  exact ⟨[], [], .refl s, ⟨rfl, by simp, by simp⟩, by simp, fun t ht ↦ .inr (h t ht)⟩

theorem reject (kind : DefectKind) (span : Span) :
    Surveys env known (reject kind span : Lower α) accesses res := by
  intro s a s' h
  cases h

theorem lookUp {found : Option α} {kind : DefectKind}
    (h : ∀ a, found = some a → ∀ t ∈ res a, .temp t ∈ known) :
    Surveys env known (lookUp found kind span) [] res := by
  cases found with
  | none => exact reject kind span
  | some a => exact pure a (h a rfl)

theorem demand {result : Option Temp} (h : ∀ t ∈ result, .temp t ∈ known) :
    Surveys env known (demand result span) [] fun t ↦ [t] := by
  rw [demand_eq]
  exact lookUp (by simpa using h)

theorem findReceiver : Surveys env known (env.findReceiver span) [] fun t ↦ [t] := by
  intro s t s' h hs _
  obtain ⟨ht, rfl⟩ := Env.findReceiver_ok h
  exact ⟨[], [], .refl _, .ofPlain ⟨rfl, by simp, by simp⟩ (by simp), .done,
    by simpa using hs.receiver_le t ht⟩

theorem findTemp (v : VarId) : Surveys env known (env.findTemp v span) [] fun t ↦ [t] := by
  intro s t s' h hs _
  obtain ⟨hv, rfl⟩ := Env.findTemp_ok h
  exact ⟨[], [], .refl _, .ofPlain ⟨rfl, by simp, by simp⟩ (by simp), .done,
    by simpa using hs.lookup_le hv⟩

theorem declare (v : VarId) : Surveys env known (declare v) [.declared v] fun t ↦ [t] := by
  intro s t s' h _ _
  obtain ⟨e, ht, hb⟩ := declare_ok h
  rw [hb]
  exact ⟨[], [], e, .ofPlain ⟨rfl, by simp, by simp⟩ (by simp), .declared .done,
    by simpa using ht.2⟩

theorem place (l : Label) : Surveys env known (place l) [] :=
  plain (.attempt _) fun _ _ _ h ↦ ⟨_, _, place_ok h, ⟨rfl, by simp [Instr.offset?],
    by simp [Instr.divides]⟩,
    by simp [Instr.target?], by simp⟩

theorem plain_single {i : Instr} (hp : i.pending 0 = some 0) (hd : i.divides = false)
    (ho : i.offset? = some .minValue → env.symbols.HasOffset .minValue) :
    Plain env.symbols [i] :=
  ⟨by rw [settle, hp]; rfl, by simpa using ho, by simpa using hd⟩

theorem append {i : Instr} (hl : i.label? = none) (hp : i.pending 0 = some 0)
    (hd : i.divides = false) (ht : ∀ l ∈ i.target?, .label l ∈ known)
    (ho : i.offset? = some .minValue → env.symbols.HasOffset .minValue) :
    Surveys env known (append i) [] :=
  plain (.step _) fun _ _ _ h ↦ ⟨_, _, append_ok hl h,
    plain_single hp hd ho, by simpa using ht, by simp⟩

theorem compute {instr : Temp → Instr} (hl : ∀ t, (instr t).label? = none)
    (ht : ∀ t, (instr t).target? = none) (hp : ∀ t, (instr t).pending 0 = some 0)
    (hd : ∀ t, (instr t).divides = false)
    (ho : ∀ t, (instr t).offset? = some .minValue → env.symbols.HasOffset .minValue) :
    Surveys env known (compute instr) [] fun t ↦ [t] :=
  plain (.compute _) fun _ t _ h ↦ ⟨_, _, compute_ok hl h,
    plain_single (hp t) (hd t) (ho t), by simp [ht], by simp⟩

theorem call {instr : Option Temp → Instr} {type : DataType} (hl : ∀ d, (instr d).label? = none)
    (ht : ∀ d, (instr d).target? = none) (hp : ∀ d, (instr d).pending 0 = some 0)
    (hd : ∀ d, (instr d).divides = false) (ho : ∀ d, (instr d).offset? = none) :
    Surveys env known (call instr type) [] Option.toList :=
  plain (.step _) fun _ d _ h ↦ ⟨_, _, (call_ok hl h).1, plain_single (hp d) (hd d) (by simp [ho]),
    by simp [ht], fun _ h ↦ .inl h⟩

theorem callRoutine (r : Routine) : Surveys env known (callRoutine r) [] Option.toList :=
  plain (.attempt _) fun _ _ _ h ↦ ⟨_, _,
    (callRoutine_ok h).1, plain_single rfl rfl (by simp [Instr.offset?]),
    by simp [Instr.target?], fun _ h ↦ .inl h⟩

end Surveys

end ThreeAddress.Control
