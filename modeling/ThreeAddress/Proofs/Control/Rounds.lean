import ThreeAddress.Proofs.Control.Simulation

namespace ThreeAddress.Control

open Code Lowering Machine

variable {ι : Type} {P : Platform ι} {W : Temp → Prop} {e : Each} {base length : Word} {i c k : Nat}
variable {regs regs' : Registers} {σ σ₁ σ₂ τ τ' : Store ι} {body : Outline}

/-- What the temporaries of a loop hold: `i` elements have been counted and `c` have been passed. -/
structure Counting (e : Each) (base length : Word) (i c : Nat) (regs : Registers) : Prop where
  word : regs e.word = wordSize
  one : regs e.one = 1
  cursor : regs e.cursor = Eval.elementAt base (.ofNat c)
  length : regs e.length = length
  index : regs e.index = .ofNat i

namespace Counting

variable {n m : Nat} {t : Temp} {v : Word}

theorem keep (h : Counting e base length i c regs) (hr : ∀ t ∈ e.scratch, regs' t = regs t) :
    Counting e base length i c regs' := by
  constructor
  · rw [hr _ (by simp [Each.scratch]), h.word]
  · rw [hr _ (by simp [Each.scratch]), h.one]
  · rw [hr _ (by simp [Each.scratch]), h.cursor]
  · rw [hr _ (by simp [Each.scratch]), h.length]
  · rw [hr _ (by simp [Each.scratch]), h.index]

theorem set_above (h : Counting e base length i c regs) (hasc : Ascending n e.scratch m)
    (ht : e.index.index < t.index) (v : Word) :
    Counting e base length i c (Function.update regs t v) := by
  simp only [Each.scratch, Ascending] at hasc
  constructor
  · rw [update_of_index_ne (by omega), h.word]
  · rw [update_of_index_ne (by omega), h.one]
  · rw [update_of_index_ne (by omega), h.cursor]
  · rw [update_of_index_ne (by omega), h.length]
  · rw [update_of_index_ne (by omega), h.index]

theorem set_index (h : Counting e base length i c regs) (hasc : Ascending n e.scratch m)
    (hv : v = .ofNat k) : Counting e base length k c (Function.update regs e.index v) := by
  simp only [Each.scratch, Ascending] at hasc
  constructor
  · rw [update_of_index_ne (by omega), h.word]
  · rw [update_of_index_ne (by omega), h.one]
  · rw [update_of_index_ne (by omega), h.cursor]
  · rw [update_of_index_ne (by omega), h.length]
  · rw [Function.update_self, hv]

theorem set_cursor (h : Counting e base length i c regs) (hasc : Ascending n e.scratch m)
    (hv : v = Eval.elementAt base (.ofNat k)) :
    Counting e base length i k (Function.update regs e.cursor v) := by
  simp only [Each.scratch, Ascending] at hasc
  constructor
  · rw [update_of_index_ne (by omega), h.word]
  · rw [update_of_index_ne (by omega), h.one]
  · rw [Function.update_self, hv]
  · rw [update_of_index_ne (by omega), h.length]
  · rw [update_of_index_ne (by omega), h.index]

end Counting

namespace Each

variable {n m : Nat}

abbrev Counts (e : Each) (τ τ' : Store ι) : Prop := Agree (· ∉ e.scratch) τ τ'

theorem exec_setup {array : Temp} (hasc : Ascending n e.scratch m) (ha : array ∉ e.scratch)
    (τ : Store ι) : ∃ τ', exec P τ (e.setup array) = .next τ' ∧ e.Counts τ τ' ∧
      Counting e (τ.regs array) (τ.world.heap (τ.regs array + lengthOffset)) 0 0 τ'.regs := by
  have hne : array ≠ e.word ∧ array ≠ e.one ∧ array ≠ e.cursor := by
    simp only [scratch, List.mem_cons, not_or] at ha
    exact ⟨ha.1, ha.2.1, ha.2.2.1⟩
  simp only [scratch, Ascending] at hasc
  refine ⟨_, rfl, ?_, ⟨?_, ?_, ?_, ?_, ?_⟩⟩
  · exact (((((Agree.refl _ τ).set_outside (by simp [scratch]) _).set_outside
      (by simp [scratch]) _).set_outside (by simp [scratch]) _).set_outside
      (by simp [scratch]) _).set_outside (by simp [scratch]) _
  · simp (disch := omega) only [Store.set, Function.update_self, update_of_index_ne]
  · simp (disch := omega) only [Store.set, Function.update_self, update_of_index_ne]
  · simp (disch := omega) only [Store.set, Function.update_self, update_of_index_ne]
    rw [Function.update_of_ne hne.2.1, Function.update_of_ne hne.1]
    simp [Eval.elementAt]
  · simp (disch := omega) only [Store.set, Function.update_self, update_of_index_ne]
    rw [Function.update_of_ne hne.2.2, Function.update_of_ne hne.2.1, Function.update_of_ne hne.1]
  · simp only [Store.set, Function.update_self]
    rfl

/-- The index is counted up before the jump, also in front of the jump out of the loop. -/
theorem exec_test (hasc : Ascending n e.scratch m) (h : Counting e base length k k τ.regs) :
    ∃ τ', exec P τ e.test = (if .ofNat k < length then .next τ' else .jump e.leave τ') ∧
      e.Counts τ τ' ∧ Counting e base length (k + 1) k τ'.regs := by
  have horder := hasc
  simp only [scratch, Ascending] at horder
  obtain ⟨τ', he, hc, hn, hm⟩ : ∃ τ', exec P τ e.test = exec P τ' [.jumpIfZero e.more e.leave] ∧
      e.Counts τ τ' ∧ Counting e base length (k + 1) k τ'.regs ∧
      τ'.regs e.more = truth (.ofNat k < length) := by
    refine ⟨_, rfl, ?_, ?_, ?_⟩
    · exact (((Agree.refl _ τ).set_outside (by simp [scratch]) _).set_outside
        (by simp [scratch]) _).set_outside (by simp [scratch]) _
    · refine ((h.set_above hasc (by omega) _).set_above hasc (by omega) _).set_index hasc ?_
      simp (disch := omega) only [Store.set, Function.update_self, update_of_index_ne, binary,
        h.index, h.one, Int32.ofNat_add]
      rfl
    · simp (disch := omega) only [Store.set, Function.update_self, update_of_index_ne, binary,
        h.index, h.length]
  refine ⟨τ', ?_, hc, hn⟩
  rw [he, exec_singleton, effect, hm]
  by_cases hk : Int32.ofNat k < length
  · simp [truth, hk]
  · simp [truth, hk]

theorem exec_fetch (hap : e.Apart W body) (h : Counting e base length i k τ.regs)
    (ha : Agree W σ τ) : ∃ τ', exec P τ e.fetch = .next τ' ∧ Agree W (e.bind base k σ) τ' ∧
      Spares (fun t ↦ W t ∨ t ∈ e.scratch) τ τ' ∧ Counting e base length i k τ'.regs := by
  obtain ⟨n, m, hasc⟩ := hap.ascending
  have hcurrent : e.current ∈ e.scratch := by simp [scratch]
  obtain ⟨v, hv⟩ : ∃ v, v = τ.world.heap (τ.regs e.cursor + 0) := ⟨_, rfl⟩
  have hvalue : v = σ.world.heap (Eval.elementAt base (.ofNat k)) := by
    rw [hv, h.cursor, ha.world_eq, Int32.add_zero]
  refine ⟨(τ.set e.current v).set e.element v, ?_, ?_, ?_, ?_⟩
  · rw [ArrayLoop.fetch, exec_cons rfl, exec_singleton]
    simp only [effect, Store.set, Function.update_self, hv]
  · rw [Each.bind, ← hvalue]
    exact (ha.set_outside (hap.outside _ hcurrent) v).set e.element v
  · exact (Spares.set (.inr hcurrent) τ v).trans (Spares.set (.inl hap.element) _ v)
  · have helement (t : Temp) (ht : t ∈ e.scratch) : t ≠ e.element := by
      rintro rfl
      exact hap.outside _ ht hap.element
    have horder := hasc
    simp only [scratch, Ascending] at horder
    have hkeep := h.set_above hasc (t := e.current) (by omega) v
    exact hkeep.keep fun t ht ↦ Function.update_of_ne (helement t ht) _ _

theorem exec_advance (hasc : Ascending n e.scratch m) (h : Counting e base length i k τ.regs) :
    ∃ τ', exec P τ e.advance = .next τ' ∧ e.Counts τ τ' ∧
      Counting e base length i (k + 1) τ'.regs := by
  have horder := hasc
  simp only [scratch, Ascending] at horder
  refine ⟨_, rfl, ?_, (h.set_above hasc (by omega) _).set_cursor hasc ?_⟩
  · exact ((Agree.refl _ τ).set_outside (by simp [scratch]) _).set_outside (by simp [scratch]) _
  · simp only [Store.set, Function.update_self, binary, h.cursor, h.word, Realises.elementAt_succ]

end Each

def Each.roundCode (e : Each) (guard : Option Segment) (body : Outline) (rest : List Instr) :
    List Instr :=
  e.test ++ (e.fetch ++ (e.guardCode guard ++ (e.advance ++
    (body.flatten ++ .jump e.again :: .label e.leave :: rest))))

/-- A loop over an array in a listing. -/
structure EachIn (W : Temp → Prop) (listing : List Instr) (e : Each) (guard : Option Segment)
    (body : Outline) (rest : List Instr) : Prop where
  guard_within : ∀ g ∈ guard, g.Within W
  apart : e.Apart W body
  body_fits : body.Fits W (some e.leave)
  suffix : .label e.again :: e.roundCode guard body rest <:+ listing

def SimulatedRounds (P : Platform ι) (listing : List Instr) (W : Temp → Prop) (e : Each)
    (guard : Option Segment) (body : Outline) (base length : Word) (k : Nat) (σ : Store ι)
    (out : Outcome ι) : Prop :=
  ∀ ⦃exit rest τ⦄, EachIn W listing e guard body rest → Agree W σ τ →
    Counting e base length k k τ.regs → k ≤ length.toInt.toNat →
    Lands P listing W (e.scratch ++ body.scratch) exit (e.roundCode guard body rest) rest τ out

section rounds

variable {listing rest : List Instr} {guard : Option Segment} {g : Segment} {out : Outcome ι}
variable {exit : Option Label} {w : World ι}

abbrev Each.Free (W : Temp → Prop) (e : Each) (body : Outline) (t : Temp) : Prop :=
  W t ∨ t ∈ e.scratch ++ body.scratch

theorem Each.Apart.agree (hap : e.Apart W body) (ha : Agree W σ τ) (hc : e.Counts τ τ') :
    Agree W σ τ' := ha.trans hc fun t ht hm ↦ hap.outside t hm ht

theorem Each.Counts.spares (hc : e.Counts τ τ') : Spares (e.Free W body) τ τ' := by
  intro t ht
  simp only [List.mem_append, not_or] at ht
  exact hc.regs_eq t ht.2.1

/-- Neither code within `W` nor the loops in the body upset the count. -/
theorem Counting.spared (h : Counting e base length i c τ.regs) (hap : e.Apart W body)
    (hs : Spares (fun t ↦ W t ∨ t ∈ body.scratch) τ τ') : Counting e base length i c τ'.regs :=
  h.keep fun t ht ↦ hs t fun hw ↦ hw.elim (hap.outside t ht) (hap.unshared t ht)

namespace EachIn

theorem leave_eq (h : EachIn W listing e guard body rest) (hd : (labels listing).Nodup) :
    behind e.leave listing = some rest := by
  have hs := suffix_of_append (suffix_of_append (suffix_of_append (suffix_of_append
    (suffix_of_append (suffix_of_cons h.suffix)))))
  exact behind_eq_some hd (suffix_of_cons hs)

/-- While there are elements left, the next one is put into its variable. -/
theorem reach_guard (h : EachIn W listing e guard body rest) (hk : k < length.toInt)
    (ha : Agree W σ τ) (hc : Counting e base length k k τ.regs) :
    ∃ τ', Reaches P listing (.running (e.roundCode guard body rest) τ)
        (.running (e.guardCode guard ++ (e.advance ++
          (body.flatten ++ .jump e.again :: .label e.leave :: rest))) τ') ∧
      Agree W (e.bind base k σ) τ' ∧ Spares (e.Free W body) τ τ' ∧
      Counting e base length (k + 1) k τ'.regs := by
  obtain ⟨n, m, hasc⟩ := h.apart.ascending
  obtain ⟨τ₁, htest, hcounts, hc₁⟩ := Each.exec_test (P := P) hasc hc
  rw [if_pos (Realises.ofNat_lt (by omega))] at htest
  obtain ⟨τ₂, hfetch, ha₂, hs₂, hc₂⟩ :=
    Each.exec_fetch (P := P) h.apart hc₁ (h.apart.agree ha hcounts)
  refine ⟨τ₂, (Reaches.of_exec_next htest _).trans (.of_exec_next hfetch _), ha₂, ?_, hc₂⟩
  refine hcounts.spares.trans (hs₂.mono fun t ht ↦ ?_)
  exact ht.imp_right (List.mem_append_left _)

theorem reach_body (h : EachIn W listing e guard body rest) (hd : (labels listing).Nodup)
    (hk : k < length.toInt) (hg : Passes P (e.bind base k σ) σ₁ guard) (ha : Agree W σ τ)
    (hc : Counting e base length k k τ.regs) :
    ∃ τ', Reaches P listing (.running (e.roundCode guard body rest) τ)
        (.running (body.flatten ++ .jump e.again :: .label e.leave :: rest) τ') ∧
      Agree W σ₁ τ' ∧ Spares (e.Free W body) τ τ' ∧
      Counting e base length (k + 1) (k + 1) τ'.regs := by
  obtain ⟨n, m, hasc⟩ := h.apart.ascending
  obtain ⟨τ₁, hr₁, ha₁, hs₁, hc₁⟩ := h.reach_guard (P := P) hk ha hc
  have hguard := suffix_of_append (suffix_of_append (suffix_of_cons h.suffix))
  obtain ⟨τ₂, hr₂, ha₂, hs₂⟩ : ∃ τ₂, Reaches P listing (.running (e.guardCode guard ++ (e.advance ++
      (body.flatten ++ .jump e.again :: .label e.leave :: rest))) τ₁) (.running (e.advance ++
      (body.flatten ++ .jump e.again :: .label e.leave :: rest)) τ₂) ∧ Agree W σ₁ τ₂ ∧
      Spares (fun t ↦ W t ∨ t ∈ body.scratch) τ₁ τ₂ := by
    cases guard with
    | none =>
      cases hg
      exact ⟨τ₁, .refl _, ha₁, .refl _ τ₁⟩
    | some g =>
      rw [Each.guardCode, List.append_assoc] at hguard ⊢
      exact hg.1.holds hg.2 (h.guard_within g rfl) hd hguard ha₁
  obtain ⟨τ₃, hadvance, hcounts, hc₃⟩ := Each.exec_advance (P := P) hasc (hc₁.spared h.apart hs₂)
  refine ⟨τ₃, hr₁.trans (hr₂.trans (.of_exec_next hadvance _)), h.apart.agree ha₂ hcounts, ?_, hc₃⟩
  refine hs₁.trans ((hs₂.mono fun t ht ↦ ?_).trans hcounts.spares)
  exact ht.imp_right (List.mem_append_right _)

theorem body_lands (h : EachIn W listing e guard body rest) (hd : (labels listing).Nodup)
    {τ : Store ι} (hb : Simulated P listing W body σ out) (ha : Agree W σ τ) :
    Lands P listing W body.scratch (some e.leave)
      (body.flatten ++ .jump e.again :: .label e.leave :: rest)
      (.jump e.again :: .label e.leave :: rest) τ out := by
  have hbody := suffix_of_append (suffix_of_append (suffix_of_append (suffix_of_append
    (suffix_of_cons h.suffix))))
  refine hb h.body_fits hbody ?_ ha
  simp [h.leave_eq hd]

end EachIn

namespace SimulatedRounds

theorem done (hd : (labels listing).Nodup) (hk : length.toInt ≤ k) :
    SimulatedRounds P listing W e guard body base length k σ (.normal σ) := by
  intro exit rest τ h ha hc hle
  obtain ⟨n, m, hasc⟩ := h.apart.ascending
  obtain rfl : k = length.toInt.toNat := by omega
  obtain ⟨τ₁, htest, hcounts, -⟩ := Each.exec_test (P := P) hasc hc
  rw [if_neg (Realises.not_ofNat_lt length)] at htest
  exact ⟨τ₁, .of_exec_jump htest (h.leave_eq hd) _, h.apart.agree ha hcounts, hcounts.spares⟩

theorem another (hd : (labels listing).Nodup) (hk : k < length.toInt)
    (hg : Passes P (e.bind base k σ) σ₁ guard) (hb : Simulated P listing W body σ₁ (.normal σ₂))
    (hr : SimulatedRounds P listing W e guard body base length (k + 1) σ₂ out) :
    SimulatedRounds P listing W e guard body base length k σ out := by
  intro exit rest τ h ha hc hle
  obtain ⟨τ₁, hr₁, ha₁, hs₁, hc₁⟩ := h.reach_body hd hk hg ha hc
  obtain ⟨τ₂, hr₂, ha₂, hs₂⟩ := h.body_lands hd hb ha₁
  have hagain := behind_eq_some hd h.suffix
  refine (hr h ha₂ (hc₁.spared h.apart hs₂) (by omega)).after
    (hr₁.trans (hr₂.trans (.jump rfl hagain (.refl _)))) (hs₁.trans (hs₂.mono fun t ht ↦ ?_))
  exact ht.imp_right (List.mem_append_right _)

theorem abrupt (hd : (labels listing).Nodup) (hk : k < length.toInt)
    (hg : Passes P (e.bind base k σ) σ₁ guard) (hb : Simulated P listing W body σ₁ out)
    (ho : out.Abrupt) : SimulatedRounds P listing W e guard body base length k σ out.ofLoop := by
  intro exit rest τ h ha hc hle
  obtain ⟨τ₁, hr₁, ha₁, hs₁, -⟩ := h.reach_body hd hk hg ha hc
  have hbody := (h.body_lands hd hb ha₁).mono fun t ht ↦ List.mem_append_right e.scratch ht
  exact (hbody.ofLoop ho (h.leave_eq hd)).after hr₁ hs₁

theorem fail (hd : (labels listing).Nodup) (hk : k < length.toInt)
    (hg : RunsThrough P g.code (e.bind base k σ) σ₁) (hv : σ₁.regs g.value = 0) :
    SimulatedRounds P listing W e (some g) body base length k σ (.normal σ₁) := by
  intro exit rest τ h ha hc hle
  obtain ⟨τ₁, hr₁, ha₁, hs₁, -⟩ := h.reach_guard (P := P) hk ha hc
  have hguard := suffix_of_append (suffix_of_append (suffix_of_cons h.suffix))
  rw [Each.guardCode, List.append_assoc] at hguard hr₁
  obtain ⟨τ₂, hr₂, ha₂, hs₂⟩ :=
    hg.fails hv (h.guard_within g rfl) hd hguard (h.leave_eq hd) ha₁
  exact ⟨τ₂, hr₁.trans hr₂, ha₂, hs₁.trans hs₂⟩

theorem halt (hd : (labels listing).Nodup) (hk : k < length.toInt)
    (hg : HaltsIn P g.code (e.bind base k σ) w) :
    SimulatedRounds P listing W e (some g) body base length k σ (.ended .halted w) := by
  intro exit rest τ h ha hc hle
  obtain ⟨τ₁, hr₁, ha₁, -, -⟩ := h.reach_guard (P := P) hk ha hc
  have hguard := suffix_of_append (suffix_of_append (suffix_of_cons h.suffix))
  rw [Each.guardCode, List.append_assoc] at hguard hr₁
  exact hr₁.trans (Placed.halts ⟨hd, hguard, (h.guard_within g rfl).mentions⟩ ha₁ hg)

end SimulatedRounds

namespace Simulated

variable {array : Segment}

theorem forEach (hd : (labels listing).Nodup) (ha : RunsThrough P array.code σ σ₁)
    (hr : SimulatedRounds P listing W e guard body (σ₁.regs array.value)
      (σ₁.world.heap (σ₁.regs array.value + lengthOffset)) 0 σ₁ out) :
    Simulated P listing W (.forEach e array guard body) σ out := by
  intro exit rest τ hfit hp he hτ
  obtain ⟨hap, harray, hguard, hbody⟩ := hfit
  obtain ⟨n, m, hasc⟩ := hap.ascending
  simp only [Outline.flatten, List.append_assoc, List.cons_append, List.nil_append] at hp ⊢
  have hloop : EachIn W listing e guard body rest :=
    ⟨hguard, hap, hbody, suffix_of_append (suffix_of_append hp)⟩
  obtain ⟨τ₁, hr₁, hτ₁, (hs₁ : Spares (e.Free W body) τ τ₁)⟩ :=
    ha.placed ⟨hd, hp, harray.mentions⟩ hτ
  have hvalue : array.value ∉ e.scratch := fun hm ↦ hap.outside _ hm harray.value
  obtain ⟨τ₂, hsetup, hcounts, hc⟩ := Each.exec_setup (P := P) hasc hvalue τ₁
  rw [hτ₁.world_eq, hτ₁.regs_eq _ harray.value] at hc
  refine (hr hloop (hap.agree hτ₁ hcounts) hc (Nat.zero_le _)).after ?_ (hs₁.trans hcounts.spares)
  exact hr₁.trans ((Reaches.of_exec_next hsetup _).trans (.next rfl (.refl _)))

theorem forEachHalts (hd : (labels listing).Nodup) (ha : HaltsIn P array.code σ w) :
    Simulated P listing W (.forEach e array guard body) σ (.ended .halted w) := by
  intro exit rest τ hfit hp he hτ
  rw [Outline.flatten, List.append_assoc] at hp ⊢
  exact Placed.halts ⟨hd, hp, hfit.2.1.mentions⟩ hτ ha

end Simulated

end rounds

/-- What a task comes to when it is executed, the listing comes to when it is run. -/
def Task.Simulated (P : Platform ι) (listing : List Instr) (W : Temp → Prop) (σ : Store ι)
    (out : Outcome ι) : Task → Prop
  | whole o => Control.Simulated P listing W o σ out
  | turns test update body => SimulatedTurns P listing W test update body σ out
  | rounds loop guard body base length k =>
    SimulatedRounds P listing W loop guard body base length k σ out

theorem Executes.simulated {task : Task} {out : Outcome ι} {listing : List Instr}
    (hd : (labels listing).Nodup) (h : Executes P task σ out) :
    task.Simulated P listing W σ out := by
  induction h with
  | skip => exact .skip
  | leaf h => exact .leaf hd h
  | leafHalts h => exact .leafHalts hd h
  | seq _ _ ihf ihr => exact .seq ihf ihr
  | seqAbrupt _ ho ihf => exact .seqAbrupt ihf ho
  | whenHolds ht hv _ ihb => exact .whenHolds hd ht hv ihb
  | whenFails ht hv => exact .whenFails hd ht hv
  | whenHalts ht => exact .whenHalts hd ht
  | chooseYes ht hv _ ihy => exact .chooseYes hd ht hv ihy
  | chooseNo ht hv _ ihn => exact .chooseNo hd ht hv ihn
  | chooseHalts ht => exact .chooseHalts hd ht
  | whileLoop _ ih => exact .whileLoop hd ih
  | forLoop _ ih => exact .forLoop hd ih
  | turnsAgain ht hv _ _ _ ihb ihu ihl => exact .another hd ht hv ihb ihu ihl
  | turnsFail ht hv => exact .fail hd ht hv
  | turnsAbrupt ht hv _ ho ihb => exact .abrupt hd ht hv ihb ho
  | updateAbrupt ht hv _ _ ho ihb ihu => exact .updateAbrupt hd ht hv ihb ihu ho
  | turnsHalt ht => exact .halt hd ht
  | forEach ha _ ihr => exact .forEach hd ha ihr
  | forEachHalts ha => exact .forEachHalts hd ha
  | roundsDone hk => exact .done hd hk
  | roundsAgain hk hg _ _ ihb ihr => exact .another hd hk hg ihb ihr
  | roundsAbrupt hk hg _ ho ihb => exact .abrupt hd hk hg ihb ho
  | roundsFail hk hg hv => exact .fail hd hk hg hv
  | roundsHalt hk hg => exact .halt hd hk hg
  | ret => exact .ret
  | retValue hv => exact .retValue hd hv
  | retHalts hv => exact .retHalts hd hv
  | leave => exact .leave

end ThreeAddress.Control
