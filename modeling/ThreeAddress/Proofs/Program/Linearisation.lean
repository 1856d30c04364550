import ThreeAddress.Proofs.Control.Rounds
import ThreeAddress.Proofs.Program.Labels

namespace ThreeAddress.Lowering

open Checked Code Control Machine

variable {symbols : SymbolTable} {m : MethodDef} {f : Function} {g : Generator} {s' : State}

/-- Outside of the temporaries of its loops the body of a method stays within one set of
temporaries. -/
theorem Opened.fits {receiver : Option Temp} {s s' : State} {o : Outline} (h : Opened g receiver s)
    (hl : LaidOut ⟨symbols, receiver⟩ none s o s') : o.Fits (· ∉ o.scratch) none := by
  have hf : Footprint (· ∉ o.scratch) _ s o.scratch s' _ := hl.footprint
  have hold (t : Temp) (ht : t.index ≤ s.temps) : t ∉ o.scratch := by
    intro hm
    have hi := (hf.ascending.mem hm).1
    omega
  refine (hf.fits ⟨?_, ?_⟩ fun _ _ ↦ Iff.rfl).1
  · exact fun t ht ↦ hold t (h.receiver_le t ht)
  · exact fun d hd ↦ hold d.2 (h.bound_le d hd)

/-- Whenever the structured body of a method comes to an end, its listing ends in the same way, with
the same memory, input and output. -/
theorem lowerMethod_linearises (h : lowerMethod symbols m { generator := g } = .ok f s') :
    ∃ o, outlineMethod symbols m { generator := g } = .ok (o, f) s' ∧
      ∀ {ι : Type} (P : Platform ι) (regs : Registers) (w : World ι) (out : Outcome ι),
        Executes P (.whole o) ⟨regs, [], w⟩ out →
        ∃ e w', out.ending? = some (e, w') ∧
          Reaches P f.body.toList (.running f.body.toList ⟨regs, [], w⟩) (.ended e w') := by
  obtain ⟨⟨o, _⟩, ho, rfl⟩ := (outlineMethod_refines symbols m).ok h
  refine ⟨o, ho, fun P regs w out hx ↦ ?_⟩
  obtain ⟨receiver, s₁, s₂, hopen, hl, hbody, -⟩ := outlineMethod_ok ho
  have hsuffix : o.flatten ++ [] <:+ o.flatten := by simp
  have hlands := hx.simulated hl.emission.labels_nodup (hopen.fits hl) hsuffix (by simp)
    (Agree.refl _ _)
  rw [List.append_nil] at hlands
  rw [hbody]
  cases out with
  | normal σ =>
    obtain ⟨τ, hr, ha, -⟩ := hlands
    rw [Outcome.ending?, ← ha.world_eq]
    exact ⟨_, _, rfl, hr.trans .fellOff⟩
  | broke σ =>
    obtain ⟨l, hl, -⟩ := hlands
    cases hl
  | ended e w' => exact ⟨e, w', rfl, hlands⟩

end ThreeAddress.Lowering

namespace ThreeAddress.Checked

open Code Control Lowering Machine

def scanLoop : Each where
  element := ⟨2⟩
  word := ⟨3⟩
  one := ⟨4⟩
  cursor := ⟨5⟩
  length := ⟨6⟩
  index := ⟨7⟩
  more := ⟨8⟩
  nextIndex := ⟨9⟩
  current := ⟨10⟩
  nextCursor := ⟨11⟩
  again := ⟨"loop", 1⟩
  leave := ⟨"loop_exit", 1⟩

def scanBody : Outline :=
  .when ⟨[.constant ⟨12⟩ 10, .binary ⟨13⟩ .less ⟨2⟩ ⟨12⟩], ⟨13⟩⟩ ⟨"if_end", 1⟩
    (.leave ⟨"loop_exit", 1⟩)

def scanOutline : Outline :=
  .seq (.forEach scanLoop ⟨[], ⟨1⟩⟩ (some ⟨[], ⟨2⟩⟩) scanBody) (.seq (.ret (some ⟨[], ⟨2⟩⟩)) .skip)

def scanStore : Store (List Word) where
  regs t := if t = ⟨1⟩ then 100 else 0
  params := []
  world.heap a := if a = 96 then 3 else if a = 100 then 20 else if a = 104 then 5 else 1
  world.io := []

theorem scan_executes : Executes notebook (.whole scanOutline) scanStore
    (.ended (.returned (some 5)) scanStore.world) := by
  -- the first element is not below ten, the second one is
  let σ₁ : Store (List Word) := ((scanStore.set ⟨2⟩ 20).set ⟨12⟩ 10).set ⟨13⟩ 0
  let σ₂ : Store (List Word) := ((σ₁.set ⟨2⟩ 5).set ⟨12⟩ 10).set ⟨13⟩ 1
  have hfirst : Executes notebook (.whole scanBody) (scanLoop.bind 100 0 scanStore) (.normal σ₁) :=
    .whenFails (.of_exec rfl) (by decide)
  have hsecond : Executes notebook (.whole scanBody) (scanLoop.bind 100 1 σ₁) (.broke σ₂) :=
    .whenHolds (.of_exec rfl) (by decide) .leave
  have hlast : Executes notebook (.rounds scanLoop (some ⟨[], ⟨2⟩⟩) scanBody 100 3 1) σ₁
      (Outcome.broke σ₂).ofLoop :=
    .roundsAbrupt (by decide) ⟨.of_exec rfl, by decide⟩ hsecond trivial
  have hloop : Executes notebook (.rounds scanLoop (some ⟨[], ⟨2⟩⟩) scanBody 100 3 0) scanStore
      (.normal σ₂) :=
    .roundsAgain (by decide) ⟨.of_exec rfl, by decide⟩ hfirst hlast
  have hret : Executes notebook (.whole (.ret (some ⟨[], ⟨2⟩⟩))) σ₂
      (.ended (.returned (some (σ₂.regs ⟨2⟩))) σ₂.world) := .retValue (.of_exec rfl)
  exact .seq (.forEach (.of_exec rfl) hloop) (.seqAbrupt hret trivial)

theorem scan_returns :
    ∃ f s', lowerMethod scanSymbols scan {} = .ok f s' ∧
      Reaches notebook f.body.toList (.running f.body.toList scanStore)
        (.ended (.returned (some 5)) scanStore.world) := by
  have houtline : (resultOf (outlineMethod scanSymbols scan) {}).map Prod.fst =
    some scanOutline := by
    decide +kernel
  obtain ⟨⟨o, f⟩, hr, rfl⟩ := Option.map_eq_some_iff.mp houtline
  obtain ⟨s', ho⟩ := exists_of_resultOf hr
  have h := (outlineMethod_refines scanSymbols scan).of_ok ho
  obtain ⟨_, ho', hrun⟩ := lowerMethod_linearises h
  cases ho.symm.trans ho'
  obtain ⟨e, w, he, hreaches⟩ := hrun notebook _ _ _ scan_executes
  cases he
  exact ⟨f, s', h, hreaches⟩

end ThreeAddress.Checked
