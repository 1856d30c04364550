import ThreeAddress.Proofs.Generator.History

namespace ThreeAddress.Generator

open Code

/-- The exchanges of a run in order, and the fault that it broke off with. -/
structure Session where
  exchanges : List Exchange := []
  fault : Option Fault := none
deriving DecidableEq

def Session.requests (s : Session) : List Request :=
  s.exchanges.map (·.request)

@[simp] theorem Session.requests_nil (fault : Option Fault) :
    Session.requests ⟨[], fault⟩ = [] := rfl

@[simp] theorem Session.requests_cons (e : Exchange) (s : Session) :
    Session.requests ⟨e :: s.exchanges, s.fault⟩ = e.request :: s.requests := rfl

/-- Carries out requests in order up to the first fault, and shows nothing. -/
def session (g : Generator) : List Request → Session
  | [] => {}
  | r :: rest =>
    match g.perform r with
    | .error f => { fault := some f }
    | .ok (a, g) =>
      let later := g.session rest
      { later with exchanges := ⟨r, a⟩ :: later.exchanges }

section transcript

def Shown.function? : Shown → Option Function
  | .function f _ => some f
  | _ => none

theorem Reply.function?_of_shown {a : Reply} {shown : Shown} (h : a.shown = .ok shown) :
    a.function? = shown.function? := by
  cases a with
  | function f =>
    simp only [Reply.shown] at h
    cases hl : f.body.toList.mapM Instr.text with
    | error fault =>
      rw [hl] at h
      cases h
    | ok lines =>
      rw [hl] at h
      cases h
      rfl
  | _ =>
    cases h
    rfl

def upToError {ε α : Type} : List (Except ε α) → List (Except ε α)
  | [] => []
  | .error e :: _ => [.error e]
  | .ok a :: rest => .ok a :: upToError rest

def Session.transcript (s : Session) : Transcript :=
  let answers := upToError (s.exchanges.map (·.reply.shown) ++ s.fault.toList.map .error)
  { answers := answers
    functions := answers.filterMap fun answer ↦ answer.toOption.bind Shown.function? }

theorem transcript_eq (g : Generator) (requests : List Request) :
    g.transcript requests = (g.session requests).transcript := by
  induction requests generalizing g with
  | nil => rfl
  | cons r rest ih =>
    rw [Generator.transcript, session]
    cases g.perform r with
    | error f => rfl
    | ok next =>
      obtain ⟨a, g'⟩ := next
      cases hs : a.shown with
      | error f => simp [Session.transcript, hs, upToError, Except.toOption]
      | ok shown =>
        have hf := Reply.function?_of_shown hs
        cases hshown : shown.function? <;>
          simp [ih, hf, hs, hshown, Session.transcript, upToError, Except.toOption]

end transcript

/-- No request breaks a promise. -/
def Flawless (requests : List Request) : Prop :=
  ∀ past r later, requests = past ++ r :: later → breach? past r = none

theorem Flawless.nil : Flawless [] := by
  intro past r later h
  simp at h

theorem Flawless.concat {past : List Request} {r : Request} (h : Flawless past)
    (hr : breach? past r = none) : Flawless (past ++ [r]) := by
  intro before q later hsplit
  rcases List.eq_nil_or_concat later with rfl | ⟨later, x, rfl⟩
  · obtain ⟨rfl, hq⟩ := List.append_inj' hsplit rfl
    cases hq
    exact hr
  · have hinit : past = before ++ q :: later := by
      have h' : past ++ [r] = (before ++ q :: later) ++ [x] := by simpa using hsplit
      exact (List.append_inj' h' rfl).1
    exact h before q later hinit

/-- How a run goes on after the exchanges `past`. -/
inductive Foreseen : List Exchange → List Request → Session → Prop
  | done {past : List Exchange} : Foreseen past [] {}
  | broken {past : List Exchange} {r : Request} {rest : List Request} {f : Fault} :
      breach? (past.map (·.request)) r = some f → Foreseen past (r :: rest) { fault := some f }
  | carried {past : List Exchange} {r : Request} {rest : List Request} {s : Session} :
      breach? (past.map (·.request)) r = none → Foreseen (past ++ [⟨r, due past r⟩]) rest s →
      Foreseen past (r :: rest) { s with exchanges := ⟨r, due past r⟩ :: s.exchanges }

/-- A run goes on from a state as the history of that state says. -/
theorem Records.foreseen {past : List Exchange} {g : Generator} (h : Records past g)
    (requests : List Request) : Foreseen past requests (g.session requests) := by
  induction requests generalizing past g with
  | nil => exact .done
  | cons r rest ih =>
    rw [session]
    cases hr : g.perform r with
    | error f => exact .broken (h.perform_error_iff.mp hr)
    | ok next =>
      obtain ⟨a, g'⟩ := next
      have hadvances := Advances.of_perform hr
      obtain rfl : a = due past r := hadvances.reply_eq.trans (h.answer_eq r)
      have hkept : breach? (past.map (·.request)) r = none := by
        cases hb : breach? (past.map (·.request)) r with
        | none => rfl
        | some f =>
          rw [h.perform_error_iff.mpr hb] at hr
          cases hr
      exact .carried hkept (ih (h.concat hadvances))

namespace Foreseen

variable {past : List Exchange} {requests : List Request} {s : Session}

theorem reply_eq (h : Foreseen past requests s) {before later : List Exchange} {e : Exchange}
    (hs : s.exchanges = before ++ e :: later) : e.reply = due (past ++ before) e.request := by
  induction h generalizing before with
  | done => simp at hs
  | broken => simp at hs
  | @carried past r rest s hr hrest ih =>
    cases before with
    | nil =>
      obtain ⟨rfl, -⟩ := List.cons.inj hs
      rw [List.append_nil]
    | cons first before =>
      obtain ⟨rfl, htail⟩ := List.cons.inj hs
      have h := ih htail
      rwa [List.append_assoc] at h

theorem flawless (h : Foreseen past requests s) (hp : Flawless (past.map (·.request))) :
    Flawless (past.map (·.request) ++ s.requests) := by
  induction h with
  | done => simpa using hp
  | broken => simpa using hp
  | carried hr hrest ih =>
    have hnext := ih (by simpa using hp.concat hr)
    simpa using hnext

theorem complete (h : Foreseen past requests s) (hf : s.fault = none) : s.requests = requests := by
  induction h with
  | done => rfl
  | broken => cases hf
  | carried hr hrest ih => rw [Session.requests_cons, ih hf]

theorem breach (h : Foreseen past requests s) {f : Fault} (hf : s.fault = some f) :
    ∃ r later, requests = s.requests ++ r :: later ∧
      breach? (past.map (·.request) ++ s.requests) r = some f := by
  induction h with
  | done => cases hf
  | @broken past r rest f hr =>
    cases hf
    exact ⟨r, rest, rfl, by simpa using hr⟩
  | @carried past r rest s hr hrest ih =>
    obtain ⟨q, later, hlater, hq⟩ := ih hf
    refine ⟨q, later, by rw [Session.requests_cons, hlater, List.cons_append], ?_⟩
    simpa using hq

end Foreseen

theorem due_temp? (past : List Exchange) (r : Request) :
    (due past r).temp? =
      if r.yields then some ⟨past.countP (·.request.yields) + 1⟩ else none := by
  unfold due
  split
  · rfl
  · rfl
  · cases r.yields <;> rfl

theorem due_function? {past : List Exchange} {r : Request} (h : r ≠ .closeFunction) :
    (due past r).function? = none := by
  unfold due
  split
  · rfl
  · contradiction
  · cases r.yields <;> rfl

/-- Nothing from before a function was opened or closed is part of the function at hand. -/
theorem atHand_append (past : List Exchange) {e : Exchange} (he : e.request.delimits = true)
    (recent : List Exchange) : atHand (past ++ e :: recent) = atHand (e :: recent) := by
  induction recent using List.reverseRecOn with
  | nil =>
    have hstart (before : List Exchange) : atHand (before ++ [e]) = e.request.started := by
      rw [atHand_concat, resume, if_pos he]
    exact (hstart past).trans (hstart []).symm
  | append_singleton recent d ih =>
    have hpast := atHand_concat (past ++ e :: recent) d
    have hempty := atHand_concat (e :: recent) d
    simp only [List.append_assoc, List.cons_append] at hpast hempty
    rw [hpast, hempty, ih]

def handedOver (exchanges : List Exchange) : List Function :=
  exchanges.filterMap (·.reply.function?)

/-- Every reply is the one that is due after the exchanges before it. -/
def Consistent (exchanges : List Exchange) : Prop :=
  ∀ past e later, exchanges = past ++ e :: later → e.reply = due past e.request

namespace Consistent

variable {exchanges : List Exchange}

theorem temps_eq (h : Consistent exchanges) :
    exchanges.filterMap (·.reply.temp?) =
      (List.range' 1 (exchanges.countP (·.request.yields))).map Temp.mk := by
  induction exchanges using List.reverseRecOn with
  | nil => rfl
  | append_singleton exchanges e ih =>
    have hinit : Consistent exchanges := fun past d later hd ↦
      h past d (later ++ [e]) (by simp [hd])
    have he := due_temp? exchanges e.request
    rw [← h exchanges e [] rfl] at he
    rw [List.filterMap_append, ih hinit, List.countP_append]
    cases hy : e.request.yields with
    | true =>
      have hone : [e].countP (·.request.yields) = 1 := by simp [hy]
      rw [hone, List.range'_1_concat, List.map_append]
      simp [he, hy, Nat.add_comm]
    | false => simp [he, hy]

theorem handedOver_eq_nil (h : Consistent exchanges) {part : List Exchange}
    (hsub : part ⊆ exchanges) (hp : ∀ e ∈ part, e.request ≠ .closeFunction) :
    handedOver part = [] := by
  refine List.filterMap_eq_nil_iff.mpr fun e he ↦ ?_
  obtain ⟨past, later, hsplit⟩ := List.append_of_mem (hsub he)
  rw [h past e later hsplit, due_function? (hp e he)]

variable {past recent later : List Exchange} {e : Exchange} {a : Reply}

theorem closed_eq (h : Consistent exchanges)
    (hs : exchanges = past ++ e :: (recent ++ ⟨.closeFunction, a⟩ :: later))
    (he : e.request.delimits = true) : a = .function (atHand (e :: recent)) := by
  have ha := h (past ++ e :: recent) ⟨.closeFunction, a⟩ later (by simp [hs])
  rwa [due, atHand_append past he] at ha

theorem handedOver_unfinished (h : Consistent exchanges)
    (hs : exchanges = past ++ e :: (recent ++ later)) (he : e.request ≠ .closeFunction)
    (hr : ∀ d ∈ recent, d.request.delimits = false) :
    handedOver exchanges = handedOver past ++ handedOver later := by
  have hsplit : exchanges = past ++ ((e :: recent) ++ later) := hs
  have hsub : e :: recent ⊆ exchanges := by
    rw [hsplit]
    exact List.subset_append_of_subset_right _ (List.subset_append_left _ _)
  have hopen : ∀ d ∈ e :: recent, d.request ≠ .closeFunction := by
    refine List.forall_mem_cons.mpr ⟨he, fun d hd hc ↦ ?_⟩
    have hdelimits := hr d hd
    rw [hc] at hdelimits
    cases hdelimits
  have hnone := h.handedOver_eq_nil hsub hopen
  rw [hsplit]
  unfold handedOver at hnone ⊢
  rw [List.filterMap_append, List.filterMap_append, hnone, List.nil_append]

end Consistent

/-- What the requests alone say of a session with a new generator. -/
structure Session.Determined (s : Session) (requests : List Request) : Prop where
  /-- The temporaries issued are the first ones, in order. -/
  temps_eq : s.exchanges.filterMap (·.reply.temp?) =
    (List.range' 1 (s.exchanges.countP (·.request.yields))).map Temp.mk
  consistent : Consistent s.exchanges
  /-- Without a fault, all requests were carried out, and none of them breaks a promise. -/
  complete : s.fault = none → s.requests = requests ∧ Flawless requests
  /-- A fault is that of the first request that breaks a promise. -/
  broken : ∀ f, s.fault = some f → Flawless s.requests ∧
    ∃ r later, requests = s.requests ++ r :: later ∧ breach? s.requests r = some f
  /-- A function that was opened and not closed before the next one is not handed over, and the
  functions that are handed over later take nothing from it. -/
  unfinished : ∀ past name params a dropped later,
    s.exchanges = past ++ ⟨.openFunction name params, a⟩ :: (dropped ++ later) →
    (∀ e ∈ dropped, e.request.delimits = false) →
    (∀ e ∈ later.head?, ∃ name params, e.request = .openFunction name params) →
    handedOver s.exchanges = handedOver past ++ handedOver later ∧
    ∀ before b after, later = before ++ ⟨.closeFunction, b⟩ :: after → b = .function (atHand before)

/-- The requests to a new generator decide how it replies to them, which of them it does not carry
out, and which functions it hands over; what is shown of them is decided with that. -/
theorem session_determined (requests : List Request) :
    (session {} requests).Determined requests ∧
    transcript {} requests = (session {} requests).transcript := by
  have h := Records.fresh.foreseen requests
  have hc : Consistent (session {} requests).exchanges := fun _ _ _ hs ↦ h.reply_eq hs
  have hflawless : Flawless (session {} requests).requests := h.flawless .nil
  refine ⟨⟨hc.temps_eq, hc, fun hf ↦ ?_, fun f hf ↦ ⟨hflawless, h.breach hf⟩, ?_⟩,
    transcript_eq {} requests⟩
  · have hall := h.complete hf
    exact ⟨hall, hall ▸ hflawless⟩
  · intro past name params a dropped later hs hd hopen
    refine ⟨hc.handedOver_unfinished hs nofun hd, fun before b after hb ↦ ?_⟩
    cases before with
    | nil =>
      -- The next function would have to be opened and closed by one request.
      obtain ⟨_, _, hclose⟩ := hopen ⟨.closeFunction, b⟩ (by simp [hb])
      cases hclose
    | cons e before =>
      obtain ⟨name', params', he⟩ := hopen e (by simp [hb])
      have hsplit : (session {} requests).exchanges =
          (past ++ ⟨.openFunction name params, a⟩ :: dropped) ++
            e :: (before ++ ⟨.closeFunction, b⟩ :: after) := by
        simp [hs, hb]
      exact hc.closed_eq hsplit (by rw [he, Request.delimits])

/-- A parameter that is passed before a function is closed still counts, one that is passed before a
function is opened does not. The function that is left open keeps its temporary. -/
example : session {} [.pass ⟨7⟩, .closeFunction, .callRoutine .printInt, .openFunction "f" [⟨7⟩],
    .constant 5, .pass ⟨1⟩, .openFunction "g" [], .freshTemp, .closeFunction,
    .callRoutine .printInt, .freshTemp] = {
      exchanges := [⟨.pass ⟨7⟩, .nothing⟩,
        ⟨.closeFunction, .function { body := #[.param ⟨7⟩] }⟩,
        ⟨.callRoutine .printInt, .nothing⟩,
        ⟨.openFunction "f" [⟨7⟩], .nothing⟩,
        ⟨.constant 5, .temp ⟨1⟩⟩,
        ⟨.pass ⟨1⟩, .nothing⟩,
        ⟨.openFunction "g" [], .nothing⟩,
        ⟨.freshTemp, .temp ⟨2⟩⟩,
        ⟨.closeFunction, .function { name := "g" }⟩]
      fault := some (.wrongArity "_PrintInt" 1 0) } := rfl

end ThreeAddress.Generator
