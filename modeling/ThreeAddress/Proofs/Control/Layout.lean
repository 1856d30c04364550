import ThreeAddress.Proofs.Control.Outline

namespace ThreeAddress.Control

open Checked Code Lowering

structure SegmentOf (env : Env) (s : State) (segment : Segment) (s' : State) : Prop where
  source : ∃ e : Expr, e.lower env s = .ok segment.value s'
  emission : Emission s s' segment.code []

/-- What is lowered for a statement without parts. -/
inductive LeafAction (env : Env) : Lower Unit → Prop
  | effects (e : Expr) : LeafAction env (e.lowerEffects env)
  | assign (target source : Expr) : LeafAction env (do
      let t ← source.lower env
      target.lowerTarget env t)
  | print (args : List Expr) : LeafAction env (args.forM (·.lowerPrint env))

structure LeafOf (env : Env) (s : State) (code : List Instr) (s' : State) : Prop where
  source : ∃ x, LeafAction env x ∧ x s = .ok () s'
  emission : Emission s s' code []

inductive GuardOf (env : Env) (l : Label) : State → Option Segment → State → Prop
  | absent {s : State} : GuardOf env l s none s
  | present {s s₁ s' : State} {guard : Segment} (hg : SegmentOf env s guard s₁)
      (ej : Emission s₁ s' [.jumpIfZero guard.value l] []) : GuardOf env l s (some guard) s'

inductive LaidOut (env : Env) : Option Label → State → Outline → State → Prop
  | skip {exit : Option Label} {s s' : State}
      (e : Emission s s' [] []) : LaidOut env exit s .skip s'
  | leaf {exit : Option Label} {s s' : State} {code : List Instr} (h : LeafOf env s code s') :
      LaidOut env exit s (.leaf code) s'
  | seq {exit : Option Label} {s s₁ s' : State} {first rest : Outline}
      (hf : LaidOut env exit s first s₁) (hr : LaidOut env exit s₁ rest s') :
      LaidOut env exit s (.seq first rest) s'
  | when {exit : Option Label} {s s₁ s₂ s₃ s' : State} {test : Segment} {done : Label}
      {body : Outline} (ht : SegmentOf env s test s₁)
      (ej : Emission s₁ s₂ [.jumpIfZero test.value done] []) (hd : IssuedLabel s₁ done s₂)
      (hb : LaidOut env exit s₂ body s₃) (ed : Emission s₃ s' [.label done] []) :
      LaidOut env exit s (.when test done body) s'
  | choose {exit : Option Label} {s s₁ s₂ s₃ s₄ s₅ s' : State} {test : Segment}
      {otherwise done : Label} {yes no : Outline} (ht : SegmentOf env s test s₁)
      (ej : Emission s₁ s₂ [.jumpIfZero test.value otherwise] [])
      (ho : IssuedLabel s₁ otherwise s₂) (hd : IssuedLabel s₁ done s₂)
      (hy : LaidOut env exit s₂ yes s₃) (eo : Emission s₃ s₄ [.jump done, .label otherwise] [])
      (hn : LaidOut env exit s₄ no s₅) (ed : Emission s₅ s' [.label done] []) :
      LaidOut env exit s (.choose test otherwise done yes no) s'
  | whileLoop {exit : Option Label} {s s₁ s₂ s₃ s₄ s' : State} {again leave : Label}
      {test : Segment} {body : Outline} (ea : Emission s s₁ [.label again] [])
      (ha : IssuedLabel s again s₁) (ht : SegmentOf env s₁ test s₂)
      (ej : Emission s₂ s₃ [.jumpIfZero test.value leave] []) (hl : IssuedLabel s₂ leave s₃)
      (hb : LaidOut env (some leave) s₃ body s₄)
      (el : Emission s₄ s' [.jump again, .label leave] []) :
      LaidOut env exit s (.whileLoop again leave test body) s'
  | forLoop {exit : Option Label} {s s₁ s₂ s₃ s₄ s₅ s₆ s' : State} {check again leave : Label}
      {test : Segment} {update body : Outline} (ea : Emission s s₁ [.jump check, .label again] [])
      (hc : IssuedLabel s check s₁) (ha : IssuedLabel s again s₁)
      (hu : LaidOut env exit s₁ update s₂) (ec : Emission s₂ s₃ [.label check] [])
      (ht : SegmentOf env s₃ test s₄) (ej : Emission s₄ s₅ [.jumpIfZero test.value leave] [])
      (hl : IssuedLabel s₄ leave s₅) (hb : LaidOut env (some leave) s₅ body s₆)
      (el : Emission s₆ s' [.jump again, .label leave] []) :
      LaidOut env exit s (.forLoop check again leave test update body) s'
  | forEach {exit : Option Label} {s s₁ s₂ s₃ s₄ s₅ s₆ s' : State} {e : Each} {v : VarId}
      {array : Segment} {guard : Option Segment} {body : Outline} (ed : Emission s s₁ [] [])
      (hd : IssuedTemp s e.element s₁) (hv : s₁.bound = (v, e.element) :: s.bound)
      (ha : SegmentOf env s₁ array s₂)
      (es : Emission s₂ s₃ (e.head array.value) e.temps)
      (hg : IssuedLabel s₂ e.again s₃) (hl : IssuedLabel s₂ e.leave s₃)
      (hw : GuardOf env e.leave s₃ guard s₄) (en : Emission s₄ s₅ e.advance [e.nextCursor])
      (hb : LaidOut env (some e.leave) s₅ body s₆)
      (el : Emission s₆ s' [.jump e.again, .label e.leave] []) :
      LaidOut env exit s (.forEach e array guard body) s'
  | ret {exit : Option Label} {s s' : State} (e : Emission s s' [.ret none] []) :
      LaidOut env exit s (.ret none) s'
  | retValue {exit : Option Label} {s s₁ s' : State} {value : Segment}
      (hv : SegmentOf env s value s₁)
      (e : Emission s₁ s' [.ret (some value.value)] []) : LaidOut env exit s (.ret (some value)) s'
  | leave {s s' : State} {target : Label} (e : Emission s s' [.jump target] []) :
      LaidOut env (some target) s (.leave target) s'

variable {α : Type} {env : Env} {exit : Option Label} {s s' : State}

theorem LeafAction.tracks {P : {α : Type} → List Temp → Lower α → (α → List Temp) → Prop}
    (T : Tracking P) (hcopy : ∀ {known : List Temp} {place t : Temp}, place ∈ known → t ∈ known →
      P known (append (.copy place t)) fun _ ↦ []) {x : Lower Unit} (h : LeafAction env x) :
    P env.receiver.toList x fun _ ↦ [] := by
  have hk : ∀ t ∈ env.receiver, t ∈ env.receiver.toList := fun _ ↦ Option.mem_toList.mpr
  cases h with
  | effects e => exact e.tracksEffects T hk
  | assign target source =>
    exact T.bind (source.tracks T hk) fun t ↦ target.tracksTarget T
      (fun u hu ↦ List.mem_cons_of_mem t (hk u hu)) List.mem_cons_self hcopy
  | print args => exact T.forM args fun e _ ↦ e.tracksPrint T hk

theorem LeafAction.closes {x : Lower Unit} (h : LeafAction env x) : Closes none x :=
  h.tracks Closes.tracking fun _ _ ↦ .append rfl rfl

theorem recorded_ok {x : Lower α} {r : List Instr × α} (hx : Closes none x)
    (h : recorded x s = .ok r s') : x s = .ok r.2 s' ∧ Emission s s' r.1 [] := by
  unfold recorded at h
  cases ha : x s with
  | error e t =>
    rw [ha] at h
    cases h
  | ok a t =>
    rw [ha] at h
    cases h
    obtain ⟨new, ts, e, -⟩ := hx ha
    refine ⟨rfl, ?_⟩
    have hn : s'.code.drop s.code.length = new := by rw [e.code_eq, List.drop_left]
    rw [hn]
    exact e.weaken

theorem segment_ok {e : Expr} {segment : Segment} (h : e.segment env s = .ok segment s') :
    SegmentOf env s segment s' := by
  obtain ⟨r, t, hr, hp⟩ := bind_ok_iff.mp h
  obtain ⟨rfl, rfl⟩ := pure_ok_iff.mp hp
  obtain ⟨he, hemission⟩ := recorded_ok (Expr.closes env e) hr
  exact ⟨⟨e, he⟩, hemission⟩

theorem leaf_ok {x : Lower Unit} {r : List Instr × Unit} (hx : LeafAction env x)
    (h : recorded x s = .ok r s') : LeafOf env s r.1 s' := by
  obtain ⟨ha, he⟩ := recorded_ok hx.closes h
  exact ⟨⟨x, hx, ha⟩, he⟩

theorem segmentGuard_ok {l : Label} {guard : Option Expr} {segment : Option Segment}
    (h : Expr.segmentGuard env l guard s = .ok segment s') : GuardOf env l s segment s' := by
  cases guard with
  | none =>
    obtain ⟨rfl, rfl⟩ := pure_ok_iff.mp h
    exact .absent
  | some guard =>
    unfold Expr.segmentGuard Expr.segmentOption at h
    rw [bind_assoc] at h
    obtain ⟨g, s₁, hg, h⟩ := bind_ok_iff.mp h
    rw [pure_bind] at h
    obtain ⟨_, s₂, hj, h⟩ := bind_ok_iff.mp h
    obtain ⟨rfl, rfl⟩ := pure_ok_iff.mp h
    exact .present (segment_ok hg) (append_ok rfl hj)

end ThreeAddress.Control

namespace ThreeAddress.Checked

open Code Control Lowering

variable {env : Env}

mutual

theorem Stmt.laidOut (exit : Option Label) : (stmt : Stmt) → {s s' : State} → {o : Outline} →
    stmt.outline env exit s = .ok o s' → LaidOut env exit s o s'
  | .mk (.varDef v) _, _, _, _, h => by
    obtain ⟨t, s₁, hd, h⟩ := bind_ok_iff.mp h
    obtain ⟨rfl, rfl⟩ := pure_ok_iff.mp h
    exact .skip (declare_ok hd).1
  | .mk (.block statements) _, _, _, _, h => Stmt.laidOutAll exit statements h
  | .mk (.exec e) _, _, _, _, h => by
    obtain ⟨r, s₁, hr, h⟩ := bind_ok_iff.mp h
    obtain ⟨rfl, rfl⟩ := pure_ok_iff.mp h
    exact .leaf (leaf_ok (.effects e) hr)
  | .mk (.assign target source) _, _, _, _, h => by
    obtain ⟨r, s₁, hr, h⟩ := bind_ok_iff.mp h
    obtain ⟨rfl, rfl⟩ := pure_ok_iff.mp h
    exact .leaf (leaf_ok (.assign target source) hr)
  | .mk (.cond condition thenBranch (some elseBranch)) _, _, _, _, h => by
    rw [Stmt.outline] at h
    simp only [bind_ok_iff, pure_ok_iff] at h
    obtain ⟨test, s₁, ht, done, s₂, hd, otherwise, s₃, ho, _, s₄, hj, yes, s₅, hy, h⟩ := h
    obtain ⟨_, s₆, hjd, _, s₇, hpo, no, s₈, hn, _, s₉, hpd, rfl, rfl⟩ := h
    obtain ⟨ed, hd, -⟩ := freshLabel_ok hd
    obtain ⟨eo, ho, -⟩ := freshLabel_ok ho
    have ej := append_ok rfl hj
    exact .choose (segment_ok ht) (ed.trans (eo.trans ej)) (ho.widen ed ej)
      (hd.widen (.refl _) (eo.trans ej)) (thenBranch.laidOut exit hy)
      ((append_ok rfl hjd).trans (place_ok hpo)) (elseBranch.laidOut exit hn) (place_ok hpd)
  | .mk (.cond condition thenBranch none) _, _, _, _, h => by
    rw [Stmt.outline] at h
    simp only [bind_ok_iff, pure_ok_iff] at h
    obtain ⟨test, s₁, ht, done, s₂, hd, _, s₃, hj, yes, s₄, hy, _, s₅, hp, rfl, rfl⟩ := h
    obtain ⟨ed, hd, -⟩ := freshLabel_ok hd
    have ej := append_ok rfl hj
    exact .when (segment_ok ht) (ed.trans ej) (hd.widen (.refl _) ej) (thenBranch.laidOut exit hy)
      (place_ok hp)
  | .mk (.whileLoop condition body) _, _, _, _, h => by
    rw [Stmt.outline] at h
    simp only [bind_ok_iff, pure_ok_iff] at h
    obtain ⟨again, s₁, ha, _, s₂, hp, test, s₃, ht, leave, s₄, hl, _, s₅, hj, h⟩ := h
    obtain ⟨o, s₆, hb, _, s₇, hend, rfl, rfl⟩ := h
    obtain ⟨ea, ha, -⟩ := freshLabel_ok ha
    obtain ⟨el, hl, -⟩ := freshLabel_ok hl
    have ep := place_ok hp
    have ej := append_ok rfl hj
    exact .whileLoop (ea.trans ep) (ha.widen (.refl _) ep) (segment_ok ht) (el.trans ej)
      (hl.widen (.refl _) ej) (body.laidOut (some leave) hb) (closeLoop_ok hend)
  | .mk (.forLoop init condition update body) _, _, _, _, h => by
    rw [Stmt.outline] at h
    simp only [bind_ok_iff, pure_ok_iff] at h
    obtain ⟨first, s₁, hi, check, s₂, hc, again, s₃, ha, _, s₄, hjc, _, s₅, hpa, h⟩ := h
    obtain ⟨o, s₆, hu, _, s₇, hpc, test, s₈, ht, leave, s₉, hl, _, s₁₀, hj, h⟩ := h
    obtain ⟨o', s₁₁, hb, _, s₁₂, hend, rfl, rfl⟩ := h
    obtain ⟨ec, hc, -⟩ := freshLabel_ok hc
    obtain ⟨ea, ha, -⟩ := freshLabel_ok ha
    obtain ⟨el, hl, -⟩ := freshLabel_ok hl
    have ep := (append_ok rfl hjc).trans (place_ok hpa)
    have ej := append_ok rfl hj
    exact .seq (Stmt.laidOutOption exit init hi) (.forLoop (ec.trans (ea.trans ep))
      (hc.widen (.refl _) (ea.trans ep)) (ha.widen ec ep) (Stmt.laidOutOption exit update hu)
      (place_ok hpc) (segment_ok ht) (el.trans ej) (hl.widen (.refl _) ej)
      (body.laidOut (some leave) hb) (closeLoop_ok hend))
  | .mk (.forEach v array guard body) _, _, _, _, h => by
    rw [Stmt.outline] at h
    simp only [bind_ok_iff, pure_ok_iff] at h
    obtain ⟨element, s₁, hd, array, s₂, ha, loop, s₃, hloop, segment, s₄, hg, h⟩ := h
    obtain ⟨next, s₅, hn, o, s₆, hb, _, s₇, hend, rfl, rfl⟩ := h
    obtain ⟨ed, hd, hv⟩ := declare_ok hd
    obtain ⟨rfl, es, hagain, hleave⟩ := openEach_ok hloop
    exact .forEach ed hd hv (segment_ok ha) es hagain hleave (segmentGuard_ok hg) (advance_ok hn)
      (body.laidOut (some loop.leave) hb) (closeLoop_ok hend)
  | .mk (.ret e) _, _, _, _, h => by
    rw [Stmt.outline] at h
    simp only [bind_ok_iff, pure_ok_iff] at h
    obtain ⟨value, s₁, hv, _, s₂, hr, rfl, rfl⟩ := h
    cases e with
    | none =>
      obtain ⟨rfl, rfl⟩ := pure_ok_iff.mp hv
      exact .ret (append_ok rfl hr)
    | some e =>
      obtain ⟨segment, s₃, hs, hp⟩ := bind_ok_iff.mp hv
      obtain ⟨rfl, rfl⟩ := pure_ok_iff.mp hp
      exact .retValue (segment_ok hs) (append_ok rfl hr)
  | .mk .leave _, _, _, _, h => by
    cases exit with
    | none => cases h
    | some l =>
      obtain ⟨_, s₁, hj, h⟩ := bind_ok_iff.mp h
      obtain ⟨rfl, rfl⟩ := pure_ok_iff.mp h
      exact .leave (append_ok rfl hj)
  | .mk (.print args) _, _, _, _, h => by
    obtain ⟨r, s₁, hr, h⟩ := bind_ok_iff.mp h
    obtain ⟨rfl, rfl⟩ := pure_ok_iff.mp h
    exact .leaf (leaf_ok (.print args) hr)
  | .mk (.guarded alternatives last) _, _, _, _, h => by
    rw [Stmt.outline] at h
    simp only [bind_ok_iff, pure_ok_iff] at h
    obtain ⟨first, s₁, hf, rest, s₂, hr, rfl, rfl⟩ := h
    exact .seq (Branch.laidOutAll exit alternatives hf) (last.laidOut exit _ hr)

theorem Stmt.laidOutOption (exit : Option Label) : (stmt : Option Stmt) → {s s' : State} →
    {o : Outline} → Stmt.outlineOption env exit stmt s = .ok o s' → LaidOut env exit s o s'
  | none, _, _, _, h => by
    obtain ⟨rfl, rfl⟩ := pure_ok_iff.mp h
    exact .skip (.refl _)
  | some stmt, _, _, _, h => stmt.laidOut exit h

theorem Stmt.laidOutAll (exit : Option Label) : (statements : List Stmt) → {s s' : State} →
    {o : Outline} → Stmt.outlineAll env exit statements s = .ok o s' → LaidOut env exit s o s'
  | [], _, _, _, h => by
    obtain ⟨rfl, rfl⟩ := pure_ok_iff.mp h
    exact .skip (.refl _)
  | stmt :: rest, _, _, _, h => by
    rw [Stmt.outlineAll] at h
    simp only [bind_ok_iff, pure_ok_iff] at h
    obtain ⟨first, s₁, hf, o, s₂, hr, rfl, rfl⟩ := h
    exact .seq (stmt.laidOut exit hf) (Stmt.laidOutAll exit rest hr)

theorem Branch.laidOut (exit : Option Label) (stem : String) : (b : Branch) → {s s' : State} →
    {o : Outline} → b.outline env exit stem s = .ok o s' → LaidOut env exit s o s'
  | .mk guard body, _, _, _, h => by
    rw [Branch.outline] at h
    simp only [bind_ok_iff, pure_ok_iff] at h
    obtain ⟨test, s₁, ht, done, s₂, hd, _, s₃, hj, yes, s₄, hy, _, s₅, hp, rfl, rfl⟩ := h
    obtain ⟨ed, hd, -⟩ := freshLabel_ok hd
    have ej := append_ok rfl hj
    exact .when (segment_ok ht) (ed.trans ej) (hd.widen (.refl _) ej) (body.laidOut exit hy)
      (place_ok hp)

theorem Branch.laidOutAll (exit : Option Label) : (bs : List Branch) → {s s' : State} →
    {o : Outline} → Branch.outlineAll env exit bs s = .ok o s' → LaidOut env exit s o s'
  | [], _, _, _, h => by
    obtain ⟨rfl, rfl⟩ := pure_ok_iff.mp h
    exact .skip (.refl _)
  | b :: rest, _, _, _, h => by
    rw [Branch.outlineAll] at h
    simp only [bind_ok_iff, pure_ok_iff] at h
    obtain ⟨first, s₁, hf, o, s₂, hr, rfl, rfl⟩ := h
    exact .seq (b.laidOut exit _ hf) (Branch.laidOutAll exit rest hr)

end

end ThreeAddress.Checked

namespace ThreeAddress.Control

open Checked Code Lowering

variable {env : Env} {exit : Option Label} {s s' : State} {o : Outline}

theorem GuardOf.emission {e : Each} {guard : Option Segment} (h : GuardOf env e.leave s guard s') :
    Emission s s' (e.guardCode guard) [] := by
  cases h with
  | absent => exact .refl s
  | present hg ej => exact hg.emission.trans ej

theorem LaidOut.emission (h : LaidOut env exit s o s') : Emission s s' o.flatten [] := by
  induction h with
  | skip e => exact e
  | leaf h => exact h.emission
  | seq _ _ ihf ihr => exact ihf.trans ihr
  | when ht ej _ _ ed ihb => exact ht.emission.trans (ej.trans (ihb.trans ed))
  | choose ht ej _ _ _ eo _ ed ihy ihn =>
    exact ht.emission.trans (ej.trans (ihy.trans (eo.trans (ihn.trans ed))))
  | whileLoop ea _ ht ej _ _ el ihb => exact ea.trans (ht.emission.trans (ej.trans (ihb.trans el)))
  | forLoop ea _ _ _ ec ht ej _ _ el ihu ihb =>
    exact ea.trans (ihu.trans (ec.trans (ht.emission.trans (ej.trans (ihb.trans el)))))
  | forEach ed _ _ ha es _ _ hw en _ el ihb =>
    have h := ed.trans (ha.emission.trans (es.weaken.trans (hw.emission.trans
      (en.weaken.trans (ihb.trans el)))))
    simpa only [Outline.flatten, ArrayLoop.head, List.nil_append, List.append_assoc,
      List.cons_append] using h
  | ret e => exact e
  | retValue hv e => exact hv.emission.trans e
  | leave e => exact e

theorem SegmentOf.closed {segment : Segment} (h : SegmentOf env s segment s') :
    Closed exit s s' segment.code := by
  obtain ⟨e, he⟩ := h.source
  obtain ⟨new, ts, hn, hc⟩ := Expr.closes env e he
  rw [h.emission.code_unique hn]
  exact hc.exits

theorem LeafOf.closed {code : List Instr} (h : LeafOf env s code s') : Closed exit s s' code := by
  obtain ⟨x, hx, ha⟩ := h.source
  obtain ⟨new, ts, hn, hc⟩ := hx.closes ha
  rw [h.emission.code_unique hn]
  exact hc.exits

theorem GuardOf.closed {e : Each} {guard : Option Segment} (h : GuardOf env e.leave s guard s') :
    Closed (some e.leave) s s' (e.guardCode guard) := by
  cases h with
  | absent => exact .straight rfl rfl
  | present hg ej =>
    refine hg.closed.append ⟨?_, ?_, ?_⟩ hg.emission ej <;> simp [Instr.label?, Instr.target?]

/-- The code of a statement places the labels that it jumps to, apart from the exit of the loop
around it. A construct places and targets the labels of its parts and its own. -/
theorem LaidOut.closed (h : LaidOut env exit s o s') : Closed exit s s' o.flatten := by
  induction h with
  | skip e => exact .straight rfl rfl
  | leaf h => exact h.closed
  | seq hf hr ihf ihr => exact ihf.append ihr hf.emission hr.emission
  | @when exit _ _ _ _ _ test done body ht ej hd hb ed ihb =>
    have m₁ := ht.emission.issued_le
    have m₂ := ej.issued_le
    have m₃ := hb.emission.issued_le
    have m₄ := ed.issued_le
    have ct : Closed exit _ _ test.code := ht.closed
    constructor <;> simp <;> grind [Closed, IssuedLabel]
  | @choose exit _ _ _ _ _ _ _ test _ _ _ _ ht ej ho hd hy eo hn ed ihy ihn =>
    have m₁ := ht.emission.issued_le
    have m₂ := ej.issued_le
    have m₃ := hy.emission.issued_le
    have m₄ := eo.issued_le
    have m₅ := hn.emission.issued_le
    have m₆ := ed.issued_le
    have ct : Closed exit _ _ test.code := ht.closed
    constructor <;> simp <;> grind [Closed, IssuedLabel]
  | @whileLoop exit _ _ _ _ _ _ _ _ test _ ea ha ht ej hl hb el ihb =>
    have m₁ := ea.issued_le
    have m₂ := ht.emission.issued_le
    have m₃ := ej.issued_le
    have m₄ := hb.emission.issued_le
    have m₅ := el.issued_le
    have ct : Closed exit _ _ test.code := ht.closed
    constructor <;> simp <;> grind [Closed, IssuedLabel]
  | @forLoop exit _ _ _ _ _ _ _ _ _ _ _ test _ _ ea hc ha hu ec ht ej hl hb el ihu ihb =>
    have m₁ := ea.issued_le
    have m₂ := hu.emission.issued_le
    have m₃ := ec.issued_le
    have m₄ := ht.emission.issued_le
    have m₅ := ej.issued_le
    have m₆ := hb.emission.issued_le
    have m₇ := el.issued_le
    have ct : Closed exit _ _ test.code := ht.closed
    constructor <;> simp <;> grind [Closed, IssuedLabel]
  | @forEach exit _ _ _ _ _ _ _ _ e _ array guard body ed _ _ ha es hg hl hw en hb el ihb =>
    have m₁ := ed.issued_le
    have m₂ := ha.emission.issued_le
    have m₃ := es.issued_le
    have m₄ := hw.emission.issued_le
    have m₅ := en.issued_le
    have m₆ := hb.emission.issued_le
    have m₇ := el.issued_le
    have ca : Closed exit _ _ array.code := ha.closed
    have cg := hw.closed
    constructor <;> simp <;> grind [Closed, IssuedLabel]
  | ret e => exact .straight rfl rfl
  | retValue hv e => exact hv.closed.append (.straight rfl rfl) hv.emission e
  | leave e =>
    constructor <;> simp [Outline.flatten, Instr.label?, Instr.target?]

end ThreeAddress.Control
