import Mathlib.Data.List.DropRight
import ThreeAddress.Generator.Request
import ThreeAddress.Proofs.Lowering.Emission

namespace ThreeAddress.Generator

open Code

def Reply.temp? : Reply → Option Temp
  | .temp t => some t
  | _ => none

@[simp] theorem Reply.temp?_ofTemp? (dst : Option Temp) : (Reply.ofTemp? dst).temp? = dst := by
  cases dst <;> rfl

namespace Request

def yields : Request → Bool
  | .freshTemp | .binary .. | .unary .. | .constant _ | .string _ | .vtable _ | .load ..
  | .newArray _ | .instanceOf .. => true
  | .call _ type | .callTemp _ type => !type.isVoid
  | .callRoutine r => !r.result.isVoid
  | _ => false

def passes : Request → Bool
  | .pass _ => true
  | _ => false

/-- Requests after which no parameter waits for a call. -/
def settles : Request → Bool
  | .call .. | .callTemp .. | .callRoutine _ | .openFunction .. => true
  | _ => false

/-- Requests after which the function at hand is another one. -/
def delimits : Request → Bool
  | .openFunction .. | .closeFunction => true
  | _ => false

def started : Request → Function
  | .openFunction name params => { name := name, params := params }
  | _ => {}

def instr? (dst : Option Temp) : Request → Option Instr
  | .freshTemp | .freshLabel _ | .openFunction .. | .closeFunction => none
  | .copy dst src => some (.copy dst src)
  | .binary op left right => dst.map (.binary · op left right)
  | .unary op src => dst.map (.unary · op src)
  | .constant value => dst.map (.constant · value)
  | .string value => dst.map (.string · value)
  | .vtable name => dst.map (.vtable · name)
  | .load base offset => dst.map (.load · base offset)
  | .store src base offset => some (.store src base offset)
  | .pass value => some (.param value)
  | .call callee _ => some (.call dst callee)
  | .callTemp callee _ => some (.callTemp dst callee)
  | .callRoutine r => some (.call dst r.name)
  | .jump target => some (.jump target)
  | .jumpIfZero value target => some (.jumpIfZero value target)
  | .place l => some (.label l)
  | .ret value => some (.ret value)
  | .newArray length => dst.map (.newArray · length)
  | .instanceOf object table => dst.map (.instanceOf · object table)
  | .checkClass object table => some (.checkClass object table)
  | .checkBounds array index => some (.checkBounds array index)

end Request

/-- A request that was carried out, and the reply to it. -/
structure Exchange where
  request : Request
  reply : Reply
deriving DecidableEq

def Exchange.instr? (e : Exchange) : Option Instr :=
  e.request.instr? e.reply.temp?

/-- How many parameters were passed since the last call or the last opening of a function. -/
def passed (past : List Request) : Nat :=
  (past.rtakeWhile fun r ↦ !r.settles).countP Request.passes

/-- The code that was appended since a function was last opened or closed, as part of the function
that was started there. -/
def atHand (past : List Exchange) : Function :=
  let start := (past.filter (·.request.delimits)).getLast?
  { (start.map (·.request.started)).getD {} with
    body := ((past.rtakeWhile fun e ↦ !e.request.delimits).filterMap Exchange.instr?).toArray }

/-- The reply to a request. Temporaries are numbered in the order of the requests for them, and
labels in the order of the requests for labels of that stem. -/
def due (past : List Exchange) : Request → Reply
  | .freshLabel stem => .label ⟨stem, past.countP (·.request = .freshLabel stem) + 1⟩
  | .closeFunction => .function (atHand past)
  | r => if r.yields then .temp ⟨past.countP (·.request.yields) + 1⟩ else .nothing

/-- The promise that a request breaks: to place no label twice, and to pass a routine as many
parameters as it takes. -/
def breach? (past : List Request) : Request → Option Fault
  | .place l => if .place l ∈ past then some (.placedTwice l) else none
  | .callRoutine r =>
    if passed past = r.arity then none else some (.wrongArity r.name r.arity (passed past))
  | _ => none

theorem passed_concat (past : List Request) (r : Request) :
    passed (past ++ [r]) = if r.settles then 0 else passed past + r.passes.toNat := by
  unfold passed
  rw [List.rtakeWhile_concat]
  cases r.settles with
  | true => rfl
  | false => cases h : r.passes <;> simp [h]

def resume (f : Function) (e : Exchange) : Function :=
  if e.request.delimits then e.request.started
  else { f with body := f.body ++ e.instr?.toList.toArray }

theorem atHand_concat (past : List Exchange) (e : Exchange) :
    atHand (past ++ [e]) = resume (atHand past) e := by
  unfold atHand resume
  rw [List.rtakeWhile_concat, List.filter_append]
  cases h : e.request.delimits with
  | true =>
    have hbody : e.request.started.body = #[] := by cases e.request <;> rfl
    simp [h, ← hbody]
  | false => cases hi : e.instr? <;> simp [h, hi]

variable {past : List Exchange} {g g' : Generator} {r : Request} {a : Reply} {f : Fault}

/-- The reply of a generator by what its state holds. -/
def answer (g : Generator) : Request → Reply
  | .freshLabel stem => .label ⟨stem, g.issued stem + 1⟩
  | .closeFunction => .function g.current
  | r => if r.yields then .temp ⟨g.temps + 1⟩ else .nothing

/-- What an exchange says of the state before it, and how it changes that state. -/
structure Advances (g : Generator) (e : Exchange) (g' : Generator) : Prop where
  reply_eq : e.reply = g.answer e.request
  temps_eq : g'.temps = g.temps + e.request.yields.toNat
  issued_eq : ∀ stem, g'.issued stem = g.issued stem + (decide (e.request = .freshLabel stem)).toNat
  placed_iff : ∀ l, l ∈ g'.placed ↔ l ∈ g.placed ∨ e.request = .place l
  pending_eq : g'.pending = if e.request.settles then 0 else g.pending + e.request.passes.toNat
  current_eq : g'.current = resume g.current e

theorem call_eq (g : Generator) (instr : Option Temp → Instr) (type : Checked.DataType) :
    g.call instr type =
      let dst : Option Temp := if type.isVoid then none else some ⟨g.temps + 1⟩
      (dst, { g with
        temps := g.temps + (!type.isVoid).toNat
        pending := 0 }.append (instr dst)) := by
  cases hv : type.isVoid <;> simp [Generator.call, resultTemp, freshTemp, hv]

section step

attribute [local simp] append note issued resume Exchange.instr?

theorem Advances.call {instr : Option Temp → Instr} {type : Checked.DataType}
    (ha : g.answer r = if r.yields then .temp ⟨g.temps + 1⟩ else .nothing)
    (hy : r.yields = !type.isVoid) (hs : r.settles = true) (hd : r.delimits = false)
    (hi : ∀ dst, r.instr? dst = some (instr dst)) :
    Advances g ⟨r, .ofTemp? (g.call instr type).1⟩ (g.call instr type).2 := by
  have hl : ∀ stem, r ≠ .freshLabel stem := by
    rintro stem rfl
    cases hs
  have hp : ∀ l, r ≠ .place l := by
    rintro l rfl
    cases hs
  rw [call_eq]
  constructor
  · rw [ha, hy]
    cases type.isVoid <;> rfl
  · rw [hy]
    rfl
  · simp [hl]
  · simp [hp]
  · simp [hs]
  · simp [hd, hi]

attribute [local simp] answer Reply.temp? Request.instr? Request.yields Request.passes
  Request.settles Request.delimits Request.started

theorem Advances.of_perform (h : g.perform r = .ok (a, g')) : Advances g ⟨r, a⟩ g' := by
  -- Labels, calls and what can fail have lemmas or branches of their own.
  cases r with
  | freshLabel stem =>
    obtain ⟨rfl, rfl⟩ : .label (g.freshLabel stem).1 = a ∧ (g.freshLabel stem).2 = g' := by
      simpa [perform] using h
    have hissued (p : String) : (g.freshLabel stem).2.issued p =
        g.issued p + (decide (Request.freshLabel stem = .freshLabel p)).toNat := by
      rw [issued_freshLabel]
      by_cases hp : p = stem
      · simp [hp]
      · simp [hp, Ne.symm hp]
    exact ⟨rfl, rfl, hissued, by simp [freshLabel], rfl, by simp [freshLabel]⟩
  | call callee type =>
    cases h
    exact Advances.call (r := .call callee type) rfl rfl rfl rfl fun _ ↦ rfl
  | callTemp callee type =>
    cases h
    exact Advances.call (r := .callTemp callee type) rfl rfl rfl rfl fun _ ↦ rfl
  | callRoutine r =>
    simp only [perform, callRoutine] at h
    split at h
    · cases h
      exact Advances.call (r := .callRoutine r) rfl rfl rfl rfl fun _ ↦ rfl
    · cases h
  | place l =>
    simp only [perform, place] at h
    split at h
    · cases h
    · cases h
      constructor <;> simp [or_comm, eq_comm]
  | _ =>
    cases h
    constructor <;> simp [openFunction, pass]

end step

/-- What is left of a generator's past in its state. -/
structure Records (past : List Exchange) (g : Generator) : Prop where
  temps_eq : g.temps = past.countP (·.request.yields)
  issued_eq : ∀ stem, g.issued stem = past.countP (·.request = .freshLabel stem)
  placed_iff : ∀ l, l ∈ g.placed ↔ .place l ∈ past.map (·.request)
  pending_eq : g.pending = passed (past.map (·.request))
  current_eq : g.current = atHand past

namespace Records

theorem fresh : Records [] {} :=
  ⟨rfl, fun _ ↦ rfl, fun _ ↦ by simp, rfl, rfl⟩

theorem concat {e : Exchange} (h : Records past g) (ha : Advances g e g') :
    Records (past ++ [e]) g' where
  temps_eq := by
    rw [ha.temps_eq, h.temps_eq, List.countP_append, List.countP_singleton]
    cases e.request.yields <;> rfl
  issued_eq stem := by
    rw [ha.issued_eq, h.issued_eq, List.countP_append, List.countP_singleton]
    cases decide (e.request = .freshLabel stem) <;> rfl
  placed_iff l := by
    rw [ha.placed_iff, h.placed_iff, List.map_append, List.mem_append, List.map_singleton,
      List.mem_singleton, eq_comm]
  pending_eq := by
    rw [ha.pending_eq, h.pending_eq, List.map_append, List.map_singleton, passed_concat]
  current_eq := by rw [ha.current_eq, h.current_eq, atHand_concat]

theorem answer_eq (h : Records past g) (r : Request) : g.answer r = due past r := by
  unfold answer due
  rw [h.temps_eq, h.current_eq]
  cases r with
  | freshLabel stem => simp only [h.issued_eq]
  | _ => rfl

theorem perform_error_iff (h : Records past g) :
    g.perform r = .error f ↔ breach? (past.map (·.request)) r = some f := by
  cases r with
  | callRoutine r =>
    simp only [perform, callRoutine, breach?, h.pending_eq]
    split <;> simp [bind, Except.bind]
  | place l =>
    simp only [perform, place, breach?, h.placed_iff]
    split <;> simp [bind, Except.bind]
  | _ => simp [perform, breach?]

end Records

end ThreeAddress.Generator
