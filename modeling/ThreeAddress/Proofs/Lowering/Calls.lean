import ThreeAddress.Proofs.Code.Group
import ThreeAddress.Proofs.Lowering.Account
import ThreeAddress.Proofs.Lowering.Fragment

namespace ThreeAddress.Lowering

open Checked Code

/-- A call that lowering makes: of a method that the program calls, of a routine, or of what makes
the objects of a class. -/
inductive CallSite where
  | method (receiver : Option Expr) (m : MethodId) (args : List Expr)
  | routine (r : Routine)
  | allocator (c : ClassId)

def operatorCalls (op : BinaryOp) (leftType rightType : DataType) : List (Happening CallSite) :=
  match op with
  | .divide | .modulo => [.made (.routine .printString), .made (.routine .halt)]
  | .equal | .notEqual =>
    if leftType = .string ∨ rightType = .string then [.made (.routine .stringEqual)] else []
  | _ => []

def cloneCalls (type : DataType) : List (Happening CallSite) :=
  type.class?.toList.map fun _ => .made (.routine .allocate)

end ThreeAddress.Lowering

namespace ThreeAddress.Checked

open Code Lowering

mutual

/-- The calls of an expression and the variables that it declares, in the order of lowering. -/
def Expr.calls : Expr → List (Happening CallSite)
  | .mk kind _ lvalue _ =>
    match kind with
    | .literal _ | .null | .this => []
    | .varBinding v => [.declared v]
    | .readInteger => [.made (.routine .readInt)]
    | .readLine => [.made (.routine .readLine)]
    | .ident owner _ =>
      match lvalue with
      | .memberVar => Expr.callsOption owner
      | _ => []
    | .indexed array index => array.calls ++ index.calls
    | .call c => c.calls
    | .arrayLength array => array.calls
    | .binary op left right =>
      left.calls ++ (right.calls ++ operatorCalls op left.type right.type)
    | .unary _ operand => operand.calls
    | .newClass c => [.made (.allocator c)]
    | .newArray _ length => length.calls
    | .instanceOf object _ | .cast object _ => object.calls
    | .shallowCopy source => source.calls ++ cloneCalls source.type
    | .newSameArray element count => element.calls ++ (count.calls ++ cloneCalls element.type)
    | .defaultIndex array index fallback => array.calls ++ (index.calls ++ fallback.calls)

def Call.calls : Call → List (Happening CallSite)
  | .mk receiver method args =>
    Expr.callsOption receiver ++ (Expr.callsAll args ++ [.made (.method receiver method args)])

def Expr.callsOption : Option Expr → List (Happening CallSite)
  | some e => e.calls
  | none => []

def Expr.callsAll : List Expr → List (Happening CallSite)
  | [] => []
  | e :: es => e.calls ++ Expr.callsAll es

end

def Expr.callsTarget (target : Expr) : List (Happening CallSite) :=
  match target.lvalue, target.kind with
  | .arrayElement, .indexed array index => array.calls ++ index.calls
  | .memberVar, .ident owner _ => Expr.callsOption owner
  | .localVar, .varBinding v => [.declared v]
  | _, _ => []

def Expr.callsPrint (e : Expr) : List (Happening CallSite) :=
  e.calls ++ (Routine.printer? e.type).toList.map fun r => .made (.routine r)

end ThreeAddress.Checked

namespace ThreeAddress.Lowering

open Checked Code

variable {α β : Type} {s s₁ s' : State} {t : Temp} {env : Env} {span : Span}
variable {calls calls₁ calls₂ : List (Happening CallSite)} {n k m : Nat}
variable {front gap code code₁ code₂ : List Instr}

/-- How the group of a call looks, made on the way from one state to another while `n` variables are
bound. The method of a program's call is found by its name or by way of the receiver; it gets the
value of the receiver and those of the arguments from left to right, all of them evaluated in front
of the group. A routine gets as many parameters as it takes, and what makes an object gets none. -/
inductive Serves (env : Env) (s s' : State) (n : Nat) : CallSite → CallGroup → Prop
  | direct {m : MethodId} {args : List Expr} {symbol : MethodSymbol} {t t₁ t₂ : State}
      {ts : List Temp} {dst : Option Temp} (hm : env.symbols.method? m = some symbol)
      (hs : Leads s t) (ha : Expr.lowerAll env args t = .ok ts t₁) (hn : t₁.bound.length = n)
      (hc : callMethod symbol none ts t₁ = .ok dst t₂) (hs' : Leads t₂ s') :
      Serves env s s' n (.method none m args) ⟨t₁.code, ts, .named symbol.label, dst⟩
  | virtual {receiver : Expr} {m : MethodId} {args : List Expr} {symbol : MethodSymbol}
      {t t₀ t₁ t₂ : State} {r vtable method : Temp} {ts : List Temp} {dst : Option Temp}
      (hm : env.symbols.method? m = some symbol) (hs : Leads s t)
      (hr : receiver.lower env t = .ok r t₀) (ha : Expr.lowerAll env args t₀ = .ok ts t₁)
      (hn : t₁.bound.length = n) (hc : callMethod symbol (some r) ts t₁ = .ok dst t₂)
      (hs' : Leads t₂ s') :
      Serves env s s' n (.method (some receiver) m args)
        ⟨t₁.code, r :: ts, .entry r vtable method symbol.offset, dst⟩
  | routine {r : Routine} {before : List Instr} {ts : List Temp} {dst : Option Temp}
      (h : ts.length = r.arity) : Serves env s s' n (.routine r) ⟨before, ts, .named r.name, dst⟩
  | allocator {c : ClassId} {symbol : ClassSymbol} {before : List Instr} {dst : Option Temp}
      (hc : env.symbols.class? c = some symbol) :
      Serves env s s' n (.allocator c) ⟨before, [], .named symbol.allocator, dst⟩

theorem Serves.widen {c : CallSite} {g : CallGroup} {u u' : State} (h : Serves env s s' n c g)
    (hu : Leads u s) (hu' : Leads s' u') : Serves env u u' n c g := by
  cases h with
  | direct hm hs ha hn hc hs' => exact .direct hm (hu.trans hs) ha hn hc (hs'.trans hu')
  | virtual hm hs hr ha hn hc hs' => exact .virtual hm (hu.trans hs) hr ha hn hc (hs'.trans hu')
  | routine h => exact .routine h
  | allocator hc => exact .allocator hc

/-- The code behind `front` consists of groups for the calls. -/
def Serviced (env : Env) (s s' : State) (n : Nat) (front : List Instr)
    (calls : List (Happening CallSite)) (code : List Instr) (m : Nat) : Prop :=
  ∃ groups, Grouped front groups code ∧ Accounts (Serves env s s') n calls groups m

namespace Serviced

theorem silent (h : code.all Instr.isSilent) : Serviced env s s' n front [] code n :=
  ⟨[], .done h, .done⟩

theorem skip (h : gap.all Instr.isSilent) (hc : Serviced env s s' n (front ++ gap) calls code m) :
    Serviced env s s' n front calls (gap ++ code) m := by
  obtain ⟨groups, hg, hs⟩ := hc
  exact ⟨groups, hg.skip h, hs⟩

theorem append (h₁ : Serviced env s s' n front calls₁ code₁ k)
    (h₂ : Serviced env s s' k (front ++ code₁) calls₂ code₂ m) :
    Serviced env s s' n front (calls₁ ++ calls₂) (code₁ ++ code₂) m := by
  obtain ⟨groups₁, hg₁, hs₁⟩ := h₁
  obtain ⟨groups₂, hg₂, hs₂⟩ := h₂
  exact ⟨groups₁ ++ groups₂, hg₁.append hg₂, hs₁.append hs₂⟩

theorem widen {u u' : State} (h : Serviced env s s' n front calls code m) (hu : Leads u s)
    (hu' : Leads s' u') : Serviced env u u' n front calls code m := by
  obtain ⟨groups, hg, hs⟩ := h
  exact ⟨groups, hg, hs.imp fun _ _ _ h ↦ h.widen hu hu'⟩

theorem single {c : CallSite} {g : CallGroup} (h : Serves env s s' n c g) :
    Serviced env s s' n g.before [.made c] g.code n := by
  have hg : Grouped g.before [g] ([] ++ (g.code ++ [])) :=
    .call rfl (List.append_nil _).symm (.done rfl)
  rw [List.append_nil, List.nil_append] at hg
  exact ⟨[g], hg, .single h⟩

theorem routine {r : Routine} (ts : List Temp) (dst : Option Temp) (h : ts.length = r.arity) :
    Serviced env s s' n front [.made (.routine r)] (ts.map .param ++ [.call dst r.name]) n :=
  single (g := ⟨front, ts, .named r.name, dst⟩) (.routine h)

end Serviced

/-- The code of an action consists of groups for the calls. -/
def HandsOver (env : Env) (x : Lower α) (calls : List (Happening CallSite)) : Prop :=
  ∀ ⦃s a s'⦄, x s = .ok a s' → ∃ new, Emission s s' new [] ∧
    Serviced env s s' s.bound.length s.code calls new s'.bound.length

namespace HandsOver

theorem bind {x : Lower α} {f : α → Lower β} (hx : HandsOver env x calls₁)
    (hf : ∀ a, HandsOver env (f a) calls₂) : HandsOver env (x >>= f) (calls₁ ++ calls₂) := by
  intro s b s' h
  obtain ⟨a, s₁, ha, hb⟩ := bind_ok_iff.mp h
  obtain ⟨new₁, e₁, h₁⟩ := hx ha
  obtain ⟨new₂, e₂, h₂⟩ := hf a hb
  refine ⟨_, e₁.trans e₂, (h₁.widen (.refl s) ⟨new₂, e₂⟩).append ?_⟩
  rw [← e₁.code_eq]
  exact h₂.widen ⟨new₁, e₁⟩ (.refl s')

theorem andThen {x : Lower α} {f : α → Lower β} (hx : HandsOver env x calls)
    (hf : ∀ a, HandsOver env (f a) []) : HandsOver env (x >>= f) calls := by
  have h := hx.bind hf
  rwa [List.append_nil] at h

theorem before {x : Lower α} {f : α → Lower β} (hx : HandsOver env x [])
    (hf : ∀ a, HandsOver env (f a) calls) : HandsOver env (x >>= f) calls := hx.bind hf

theorem piece {x : Lower α} (hb : Bindless x)
    (h : ∀ ⦃s a s'⦄, x s = .ok a s' → ∃ code ts, Emission s s' code ts ∧
      ∀ front n, Serviced env s s' n front calls code n) : HandsOver env x calls := by
  intro s a s' ha
  obtain ⟨code, ts, e, hc⟩ := h ha
  have hs := hc s.code s.bound.length
  nth_rewrite 2 [← hb ha] at hs
  exact ⟨code, e.weaken, hs⟩

theorem quiet {x : Lower α} (hb : Bindless x) (h : ∀ ⦃s a s'⦄, x s = .ok a s' →
    ∃ code ts, Emission s s' code ts ∧ code.all Instr.isSilent) : HandsOver env x [] := by
  refine piece hb fun s a s' ha ↦ ?_
  obtain ⟨code, ts, e, hc⟩ := h ha
  exact ⟨code, ts, e, fun _ _ ↦ .silent hc⟩

theorem pure (a : α) : HandsOver env (pure a : Lower α) [] := by
  refine quiet (.pure a) fun s b s' h ↦ ?_
  obtain ⟨-, rfl⟩ := pure_ok_iff.mp h
  exact ⟨[], [], .refl s, rfl⟩

theorem reject (kind : DefectKind) : HandsOver env (reject kind span : Lower α) calls := by
  intro s a s' h
  cases h

theorem lookUp (found : Option α) (kind : DefectKind) :
    HandsOver env (lookUp found kind span) [] := by
  cases found with
  | none => exact reject kind
  | some a => exact pure a

theorem demand (result : Option Temp) : HandsOver env (demand result span) [] := by
  rw [demand_eq]
  exact lookUp result _

theorem findReceiver : HandsOver env (env.findReceiver span) [] := by
  rw [Env.findReceiver_eq]
  exact lookUp _ _

theorem findTemp (v : VarId) : HandsOver env (env.findTemp v span) [] := by
  intro s t s' h
  obtain ⟨-, rfl⟩ := Env.findTemp_ok h
  exact ⟨[], .refl _, .silent rfl⟩

theorem declare (v : VarId) : HandsOver env (declare v) [.declared v] := by
  intro s t s' h
  obtain ⟨e, -, hb⟩ := declare_ok h
  rw [hb]
  exact ⟨[], e, [], .done rfl, .declared .done⟩

theorem freshLabel (stem : String) : HandsOver env (freshLabel stem) [] :=
  quiet (.step _) fun _ _ _ h ↦ ⟨[], [], (freshLabel_ok h).1, rfl⟩

theorem place (l : Label) : HandsOver env (place l) [] :=
  quiet (.attempt _) fun _ _ _ h ↦ ⟨_, _, place_ok h, rfl⟩

theorem append {i : Instr} (hl : i.label? = none) (hi : i.isSilent = true) :
    HandsOver env (append i) [] := by
  refine quiet (.step _) fun s a s' h ↦ ⟨_, _, append_ok hl h, ?_⟩
  rw [List.all_cons, hi]
  rfl

theorem compute {instr : Temp → Instr} (hl : ∀ t, (instr t).label? = none)
    (hi : ∀ t, (instr t).isSilent = true) : HandsOver env (compute instr) [] := by
  refine quiet (.compute _) fun s t s' h ↦ ⟨_, _, compute_ok hl h, ?_⟩
  rw [List.all_cons, hi]
  rfl

theorem constant (n : Int32) : HandsOver env (constant n) [] := compute (fun _ ↦ rfl) fun _ ↦ rfl

theorem operate (op : BinaryOp) (left right : Temp) : HandsOver env (operate op left right) [] :=
  compute (fun _ ↦ rfl) fun _ ↦ rfl

theorem load (base : Temp) (offset : Int32) : HandsOver env (load base offset) [] :=
  compute (fun _ ↦ rfl) fun _ ↦ rfl

theorem literal (l : Literal) : HandsOver env (literal l) [] := by
  cases l with
  | int n => exact constant n
  | bool b => exact constant _
  | string text => exact compute (fun _ ↦ rfl) fun _ ↦ rfl

theorem checkedAddress (array index : Temp) : HandsOver env (checkedAddress array index) [] := by
  refine quiet (.checkedAddress array index) fun s t s' h ↦ ?_
  obtain ⟨word, offset, e⟩ := checkedAddress_ok h
  exact ⟨_, _, e, rfl⟩

theorem readOr (array index fallback : Temp) : HandsOver env (readOr array index fallback) [] := by
  refine quiet (.readOr array index fallback) fun s t s' h ↦ ?_
  obtain ⟨r, -, -, -, -, e, -⟩ := readOr_ok h
  exact ⟨_, _, e, rfl⟩

theorem openEach (element array : Temp) : HandsOver env (openEach element array) [] := by
  refine quiet (.of_mechanical (.openEach element array)) fun s loop s' h ↦ ?_
  obtain ⟨-, e, -⟩ := openEach_ok h
  exact ⟨_, _, e, rfl⟩

theorem advance (loop : ArrayLoop) : HandsOver env loop.advance [] :=
  quiet (.of_mechanical (.advance loop)) fun _ _ _ h ↦ ⟨_, _, advance_ok h, rfl⟩

theorem closeLoop (again leave : Label) : HandsOver env (closeLoop again leave) [] :=
  quiet (.of_mechanical (.closeLoop again leave)) fun _ _ _ h ↦ ⟨_, _, closeLoop_ok h, rfl⟩

theorem routine {r : Routine} (hr : r.arity = 0) :
    HandsOver env (callRoutine r) [.made (.routine r)] :=
  piece (.attempt _) fun _ a _ h ↦ ⟨_, _, (callRoutine_ok h).1, fun _ _ ↦ .routine [] a hr.symm⟩

theorem print {r : Routine} (t : Temp) (hr : r.arity = 1) :
    HandsOver env (Lowering.pass t >>= fun _ ↦ callRoutine r) [.made (.routine r)] := by
  refine piece ((Bindless.step _).bind fun _ ↦ .attempt _) fun s a s' h ↦ ?_
  obtain ⟨_, s₁, hp, hc⟩ := bind_ok_iff.mp h
  exact ⟨_, _, (pass_ok hp).trans (callRoutine_ok hc).1, fun _ _ ↦ .routine [t] a hr.symm⟩

theorem compareStrings (op : BinaryOp) (left right : Temp) :
    HandsOver env (compareStrings op left right span) [.made (.routine .stringEqual)] := by
  refine piece (.compareStrings op left right) fun s t s' h ↦ ?_
  obtain ⟨equal, e, -⟩ := compareStrings_ok h
  refine ⟨_, _, e, fun front n ↦ ?_⟩
  have hcall : Serviced env s s' n front [.made (.routine .stringEqual)] _ n :=
    .routine [left, right] (some equal) rfl
  have hrest : (if op = .notEqual then [Instr.unary t .not equal] else []).all Instr.isSilent := by
    split <;> rfl
  exact hcall.append (.silent hrest)

theorem guardDivisor (divisor : Temp) : HandsOver env (guardDivisor divisor)
    [.made (.routine .printString), .made (.routine .halt)] := by
  refine piece (.guardDivisor divisor) fun s a s' h ↦ ?_
  obtain ⟨g, -, e, -⟩ := guardDivisor_ok h
  refine ⟨_, _, e, fun front n ↦ ?_⟩
  have hprint (front : List Instr) : Serviced env s s' n front
    [.made (.routine .printString)] _ n :=
    .routine [g.message] none rfl
  have hhalt (front : List Instr) : Serviced env s s' n front [.made (.routine .halt)] _ n :=
    .routine [] none rfl
  have hend (front : List Instr) : Serviced env s s' n front [] [.label g.nonzero] n := .silent rfl
  have htest : (g.test ++ [Instr.jumpIfZero g.isZero g.nonzero]).all Instr.isSilent := rfl
  have hcode : Serviced env s s' n front
      [.made (.routine .printString), .made (.routine .halt)] _ n :=
    .skip htest ((hprint _).append ((hhalt _).append (hend _)))
  exact hcode

theorem applyOp (op : BinaryOp) (leftType rightType : DataType) (left right : Temp) :
    HandsOver env (applyOp op leftType rightType left right span)
      (operatorCalls op leftType rightType) := by
  have hequality : HandsOver env
      (if leftType = .string ∨ rightType = .string then Lowering.compareStrings op left right span
        else Lowering.operate op left right)
      (if leftType = .string ∨ rightType = .string then [.made (.routine .stringEqual)]
        else []) := by
    split
    · exact compareStrings op left right
    · exact operate op left right
  cases op with
  | divide => exact (guardDivisor right).andThen fun _ ↦ operate _ left right
  | modulo => exact (guardDivisor right).andThen fun _ ↦ operate _ left right
  | equal => exact hequality
  | notEqual => exact hequality
  | _ => exact operate _ left right

theorem copyCode_silent (object clone : Temp) (offsets : List Int32) (fields : List Temp) :
    (copyCode object clone offsets fields).all Instr.isSilent := by
  induction offsets generalizing fields with
  | nil => rfl
  | cons offset offsets ih =>
    cases fields with
    | nil => rfl
    | cons field fields => exact ih fields

theorem clone_serviced (k : Clone) (front : List Instr) :
    Serviced env s s' n front [.made (.routine .allocate)] k.code n := by
  have hcall (front : List Instr) : Serviced env s s' n front [.made (.routine .allocate)] _ n :=
    .routine [k.size] (some k.result) rfl
  have hrest (front : List Instr) : Serviced env s s' n front [] _ n :=
    .silent (copyCode_silent k.object k.result (fieldOffsets k.symbol.size) k.fields)
  have hend (front : List Instr) : Serviced env s s' n front []
      [.vtable k.vtable k.symbol.vtable, .store k.vtable k.result 0] n := .silent rfl
  have hsize : [Instr.constant k.size k.symbol.size].all Instr.isSilent := rfl
  have hcode : Serviced env s s' n front [.made (.routine .allocate)] _ n :=
    .skip hsize ((hcall _).append ((hrest _).append (hend _)))
  exact hcode

theorem cloneObject (object : Temp) (c : ClassId) :
    HandsOver env (cloneObject env object c span) [.made (.routine .allocate)] := by
  refine piece (.cloneObject object c) fun s t s' h ↦ ?_
  obtain ⟨k, -, -, -, -, e⟩ := cloneObject_ok h
  exact ⟨_, _, e, fun front _ ↦ clone_serviced k front⟩

theorem stored_serviced {type : DataType} {element stored : Temp} {ts : List Temp}
    (h : Stored env type element code ts stored) (front : List Instr) :
    Serviced env s s' n front (cloneCalls type) code n := by
  cases h with
  | plain hc =>
    rw [cloneCalls, hc]
    exact .silent rfl
  | cloned k hc hs ho hf =>
    rw [cloneCalls, hc]
    exact clone_serviced k front

theorem fillArray (element count : Temp) (type : DataType) :
    HandsOver env (fillArray env element count type span) (cloneCalls type) := by
  refine piece (.fillArray element count type) fun s t s' h ↦ ?_
  obtain ⟨f, -, -, hstored, e, -⟩ := fillArray_ok h
  refine ⟨_, _, e, fun front n ↦ ?_⟩
  have hsetup : (f.setup ++ .label f.fill :: f.test).all Instr.isSilent := rfl
  have hend (front : List Instr) :
      Serviced env s s' n front [] (f.advance ++ [.jump f.fill, .label f.filled]) n := .silent rfl
  have hcode : Serviced env s s' n front (cloneCalls type ++ []) _ n :=
    .skip hsetup ((stored_serviced hstored _).append (hend _))
  rwa [List.append_nil] at hcode

end HandsOver

end ThreeAddress.Lowering

namespace ThreeAddress.Checked

open Code Lowering

variable {s s₁ s₂ s' : State} {env : Env} {span : Span}

/-- The group of a call starts where its operands have been evaluated. -/
theorem callMethod_served {receiver : Option Expr} {m : MethodId} {args : List Expr}
    {symbol : MethodSymbol} {r result : Option Temp} {ts : List Temp}
    (hm : env.symbols.method? m = some symbol)
    (hr : Expr.lowerOption env receiver s = .ok r s₁) (ha : Expr.lowerAll env args s₁ = .ok ts s₂)
    (hc : callMethod symbol r ts s₂ = .ok result s') :
    ∃ g : CallGroup, g.before = s₂.code ∧ Emission s₂ s' g.code [] ∧
      Serves env s s' s₂.bound.length (.method receiver m args) g := by
  cases receiver with
  | none =>
    obtain ⟨rfl, rfl⟩ := pure_ok_iff.mp hr
    have e := (callMethod_static_ok hc).1.weaken
    exact ⟨⟨s₂.code, ts, .named symbol.label, result⟩, rfl, e,
      .direct hm (.refl s) ha rfl hc (.refl s')⟩
  | some receiver =>
    obtain ⟨t, _, ht, hr⟩ := bind_ok_iff.mp hr
    obtain ⟨rfl, rfl⟩ := pure_ok_iff.mp hr
    obtain ⟨vtable, method, e, -⟩ := callMethod_virtual_ok hc
    exact ⟨⟨s₂.code, t :: ts, .entry t vtable method symbol.offset, result⟩, rfl, e.weaken,
      .virtual hm (.refl s) ht ha rfl hc (.refl s')⟩

theorem call_handsOver {receiver : Option Expr} {m : MethodId} {args : List Expr}
    (hr : HandsOver env (Expr.lowerOption env receiver) (Expr.callsOption receiver))
    (ha : HandsOver env (Expr.lowerAll env args) (Expr.callsAll args)) :
    HandsOver env ((Call.mk receiver m args).lower env span) (Call.mk receiver m args).calls := by
  intro s result s' h
  rw [Call.lower] at h
  simp only [bind_ok_iff] at h
  obtain ⟨symbol, _, hm, r, s₁, hreceiver, ts, s₂, hargs, hcall⟩ := h
  obtain ⟨hsymbol, rfl⟩ := Env.findMethod_ok hm
  obtain ⟨new₁, e₁, h₁⟩ := hr hreceiver
  obtain ⟨new₂, e₂, h₂⟩ := ha hargs
  obtain ⟨g, hbefore, e₃, hg⟩ := callMethod_served hsymbol hreceiver hargs hcall
  have h₃ := Serviced.single hg
  rw [hbefore, e₂.code_eq] at h₃
  rw [e₁.code_eq] at h₂ h₃
  rw [Call.calls, Bindless.callMethod _ _ _ hcall]
  exact ⟨_, e₁.trans (e₂.trans e₃), (h₁.widen (.refl _) ⟨_, e₂.trans e₃⟩).append
    ((h₂.widen ⟨_, e₁⟩ ⟨_, e₃⟩).append h₃)⟩

mutual

theorem Expr.handsOver : (e : Expr) → HandsOver env (e.lower env) e.calls
  | .mk (.literal l) _ _ _ => .literal l
  | .mk .null _ _ _ => .constant 0
  | .mk .this _ _ _ => .findReceiver
  | .mk .readInteger _ _ _ => (HandsOver.routine rfl).andThen fun r ↦ .demand r
  | .mk .readLine _ _ _ => (HandsOver.routine rfl).andThen fun r ↦ .demand r
  | .mk (.ident owner symbol) _ .memberVar span => by
    rw [Expr.lower, Expr.calls]
    refine (Expr.handsOverOwner owner).andThen fun object ↦ ?_
    rw [Env.findVar_eq]
    exact (HandsOver.lookUp _ _).before fun _ ↦ .load _ _
  | .mk (.ident _ symbol) _ .localVar _ => .findTemp symbol
  | .mk (.ident _ symbol) _ .paramVar _ => .findTemp symbol
  | .mk (.ident _ symbol) _ .notLValue _ => .findTemp symbol
  | .mk (.ident _ _) _ .arrayElement _ => .reject _
  | .mk (.indexed array index) _ _ _ =>
    array.handsOver.bind fun a ↦ index.handsOver.andThen fun i ↦
      (HandsOver.checkedAddress a i).before fun _ ↦ .load _ _
  | .mk (.call c) _ _ _ => c.handsOver.andThen fun r ↦ .demand r
  | .mk (.arrayLength array) _ _ _ => array.handsOver.andThen fun a ↦ .load a _
  | .mk (.binary op left right) _ _ _ =>
    left.handsOver.bind fun l ↦ right.handsOver.bind fun r ↦ .applyOp op _ _ l r
  | .mk (.unary _ operand) _ _ _ =>
    operand.handsOver.andThen fun _ ↦ .compute (fun _ ↦ rfl) fun _ ↦ rfl
  | .mk (.newClass c) _ _ _ => by
    rw [Expr.lower, Expr.calls]
    intro s t s' h
    simp only [bind_ok_iff] at h
    obtain ⟨symbol, _, hc, r, s₁, hr, hd⟩ := h
    obtain ⟨hsymbol, rfl⟩ := Env.findClass_ok hc
    obtain ⟨rfl, rfl⟩ := demand_ok hd
    rw [Bindless.step _ hr]
    exact ⟨_, (call_ok (fun _ ↦ rfl) hr).1.weaken,
      .single (g := ⟨_, [], .named symbol.allocator, some t⟩) (.allocator hsymbol)⟩
  | .mk (.newArray _ length) _ _ _ =>
    length.handsOver.andThen fun _ ↦ .compute (fun _ ↦ rfl) fun _ ↦ rfl
  | .mk (.instanceOf object c) _ _ _ => by
    rw [Expr.lower, Expr.calls, Env.findClass_eq]
    exact object.handsOver.andThen fun _ ↦ (HandsOver.lookUp _ _).before fun _ ↦
      .compute (fun _ ↦ rfl) fun _ ↦ rfl
  | .mk (.cast object c) _ _ _ => by
    rw [Expr.lower, Expr.calls, Env.findClass_eq]
    refine object.handsOver.andThen fun t ↦ (HandsOver.lookUp _ _).before fun _ ↦ ?_
    split
    · exact (HandsOver.append rfl rfl).before fun _ ↦ .pure t
    · exact .pure t
  | .mk (.shallowCopy source) _ _ _ => by
    rw [Expr.lower, Expr.calls, cloneCalls]
    cases source.type.class? with
    | none => exact .reject _
    | some c => exact source.handsOver.bind fun t ↦ .cloneObject t c
  | .mk (.newSameArray element count) _ _ _ =>
    element.handsOver.bind fun t ↦ count.handsOver.bind fun n ↦ .fillArray t n _
  | .mk (.defaultIndex array index fallback) _ _ _ =>
    array.handsOver.bind fun a ↦ index.handsOver.bind fun i ↦ fallback.handsOver.andThen fun d ↦
      .readOr a i d
  | .mk (.varBinding symbol) _ _ _ => .declare symbol

theorem Expr.handsOverOwner {span : Span} : (owner : Option Expr) →
    HandsOver env (Expr.lowerOwner env span owner) (Expr.callsOption owner)
  | some owner => owner.handsOver
  | none => .findReceiver

theorem Call.handsOver {span : Span} : (c : Call) → HandsOver env (c.lower env span) c.calls
  | .mk receiver _ args => call_handsOver (Expr.handsOverOption receiver) (Expr.handsOverAll args)

theorem Expr.handsOverOption : (e : Option Expr) →
    HandsOver env (Expr.lowerOption env e) (Expr.callsOption e)
  | some e => e.handsOver.andThen fun t ↦ .pure (some t)
  | none => .pure none

theorem Expr.handsOverAll : (es : List Expr) →
    HandsOver env (Expr.lowerAll env es) (Expr.callsAll es)
  | [] => .pure []
  | e :: es => e.handsOver.bind fun t ↦ (Expr.handsOverAll es).andThen fun ts ↦ .pure (t :: ts)

end

end ThreeAddress.Checked
