import ThreeAddress.Proofs.Control.Bounds

namespace ThreeAddress.Control

open Code Lowering Machine

variable {ι : Type} {P : Platform ι} {e : Each} {array : Temp} {guard body c c' : List Instr}
variable {listing before rest : List Instr} {σ σ' σ₁ σ₂ : Store ι} {i : Instr} {l : Label} {k : Nat}

theorem mem_targets {code : List Instr} (hi : i ∈ code) (ht : i.target? = some l) :
    l ∈ targets code := List.mem_filterMap.mpr ⟨i, hi, ht⟩

theorem eq_append_of_mem_labels {code : List Instr} (h : l ∈ labels code) :
    ∃ x y, code = x ++ .label l :: y := by
  obtain ⟨i, hi, hl⟩ := List.mem_filterMap.mp h
  have hlabel : i = .label l := by
    cases i <;> cases hl
    rfl
  exact List.append_of_mem (hlabel ▸ hi)

namespace Each

def close (e : Each) : List Instr := [.jump e.again, .label e.leave]

def onward (e : Each) (body : List Instr) : List Instr := e.advance ++ (body ++ e.close)

def access (e : Each) (guard body : List Instr) : List Instr :=
  e.fetch ++ (guard ++ e.onward body)

def block (e : Each) (array : Temp) (guard body : List Instr) : List Instr :=
  e.setup array ++ .label e.again :: (e.test ++ e.access guard body)

/-- The temporaries of the loop are in order and nobody else writes them, and the code in the loop
jumps to labels of its own or out of the loop. -/
structure Alone (e : Each) (array : Temp) (guard body : List Instr) : Prop where
  ascending : ∃ n m, Ascending n e.scratch m
  array : array ∉ e.scratch
  element : e.element ∉ e.scratch
  guard_dst : ∀ i ∈ guard, ∀ t ∈ e.scratch, i.dst? ≠ some t
  body_dst : ∀ i ∈ body, ∀ t ∈ e.scratch, i.dst? ≠ some t
  guard_targets : ∀ l ∈ targets guard, l ∈ labels guard ∨ l = e.leave
  body_targets : ∀ l ∈ targets body, l ∈ labels body ∨ l = e.leave

def size (array : Temp) (σ₁ : Store ι) : Word := σ₁.world.heap (σ₁.regs array + lengthOffset)

/-- `i` elements have been counted and `c` have been passed, and there are at least `c`. -/
structure Within (e : Each) (array : Temp) (σ₁ : Store ι) (i c : Nat) (σ : Store ι) : Prop where
  counting : Counting e (σ₁.regs array) (size array σ₁) i c σ.regs
  le : i ≤ (size array σ₁).toInt.toNat

variable (P) in
/-- What holds in a loop over an array, by what is left of its code. -/
inductive At (e : Each) (array : Temp) (guard body : List Instr) (σ₁ : Store ι) :
    List Instr → Store ι → Prop
  | setup (done todo : List Instr) {σ : Store ι} (h : e.setup array = done ++ todo)
      (he : exec P σ₁ done = .next σ) :
      At e array guard body σ₁ (todo ++ .label e.again :: (e.test ++ e.access guard body)) σ
  | head (done todo : List Instr) {k : Nat} {σ σ₂ : Store ι} (h : e.test ++ e.fetch = done ++ todo)
      (hk : e.Within array σ₁ k k σ₂) (he : exec P σ₂ done = .next σ) :
      At e array guard body σ₁ (todo ++ (guard ++ e.onward body)) σ
  | guard {g : List Instr} {k : Nat} {σ : Store ι} (h : g <:+ guard)
      (hk : e.Within array σ₁ (k + 1) k σ) : At e array guard body σ₁ (g ++ e.onward body) σ
  | advance (done todo : List Instr) {k : Nat} {σ σ₂ : Store ι} (h : e.advance = done ++ todo)
      (hk : e.Within array σ₁ (k + 1) k σ₂) (he : exec P σ₂ done = .next σ) :
      At e array guard body σ₁ (todo ++ (body ++ e.close)) σ
  | body {b : List Instr} {k : Nat} {σ : Store ι} (h : b <:+ body)
      (hk : e.Within array σ₁ (k + 1) (k + 1) σ) : At e array guard body σ₁ (b ++ e.close) σ

namespace Within

variable {n m : Nat}

theorem keep {i c : Nat} (h : e.Within array σ₁ i c σ)
    (hr : ∀ t ∈ e.scratch, σ'.regs t = σ.regs t) : e.Within array σ₁ i c σ' :=
  ⟨h.counting.keep hr, h.le⟩

theorem start (ha : e.Alone array guard body) (he : exec P σ₁ (e.setup array) = .next σ) :
    e.Within array σ₁ 0 0 σ := by
  obtain ⟨n, m, hasc⟩ := ha.ascending
  obtain ⟨σ', he', -, hc⟩ := exec_setup (P := P) hasc ha.array σ₁
  cases he.symm.trans he'
  exact ⟨hc, Nat.zero_le _⟩

theorem test (ha : e.Alone array guard body) (h : e.Within array σ₁ k k σ)
    (he : exec P σ e.test = .next σ') : e.Within array σ₁ (k + 1) k σ' := by
  obtain ⟨n, m, hasc⟩ := ha.ascending
  obtain ⟨τ, he', -, hc⟩ := exec_test (P := P) hasc h.counting
  rw [he] at he'
  split at he'
  · rename_i hlt
    cases he'
    refine ⟨hc, ?_⟩
    have hle := h.le
    have hsize := (size array σ₁).toInt_lt
    rw [Int32.lt_iff_toInt_lt, Int32.toInt_ofNat_of_lt (by omega)] at hlt
    omega
  · cases he'

theorem fetch (ha : e.Alone array guard body) (h : e.Within array σ₁ (k + 1) k σ)
    (he : exec P σ e.fetch = .next σ') : e.Within array σ₁ (k + 1) k σ' := by
  obtain ⟨n, m, hasc⟩ := ha.ascending
  cases he
  refine ⟨?_, h.le⟩
  have horder := hasc
  simp only [scratch, Ascending] at horder
  have hcurrent := h.counting.set_above hasc (t := e.current) (by omega)
    (σ.world.heap (σ.regs e.cursor + 0))
  refine hcurrent.keep fun t ht ↦ ?_
  have hne : t ≠ e.element := by
    rintro rfl
    exact ha.element ht
  exact Function.update_of_ne hne _ _

theorem head (ha : e.Alone array guard body) (h : e.Within array σ₁ k k σ)
    (he : exec P σ (e.test ++ e.fetch) = .next σ') : e.Within array σ₁ (k + 1) k σ' := by
  obtain ⟨σ₂, ht, hf⟩ := exec_append_next he
  exact (h.test ha ht).fetch ha hf

theorem advance (ha : e.Alone array guard body) (h : e.Within array σ₁ (k + 1) k σ)
    (he : exec P σ e.advance = .next σ') : e.Within array σ₁ (k + 1) (k + 1) σ' := by
  obtain ⟨n, m, hasc⟩ := ha.ascending
  obtain ⟨τ, he', -, hc⟩ := exec_advance (P := P) hasc h.counting
  cases he.symm.trans he'
  exact ⟨hc, h.le⟩

end Within

theorem block_eq_leave (e : Each) (array : Temp) (guard body : List Instr) :
    e.block array guard body = e.setup array ++ .label e.again ::
      (e.test ++ (e.fetch ++ (guard ++ (e.advance ++ (body ++ [.jump e.again]))))) ++
      .label e.leave :: [] := by
  simp [block, access, onward, close]

theorem exec_snoc {done : List Instr} (he : exec P σ done = .next σ₁)
    (hi : effect P σ₁ i = .next σ₂) : exec P σ (done ++ [i]) = .next σ₂ := by
  rw [exec_append he, exec_cons hi]
  rfl

namespace At

theorem next_body (ha : e.Alone array guard body) {b : List Instr} (hb : b <:+ body)
    (hk : e.Within array σ₁ (k + 1) (k + 1) σ) (hc : i :: c = b ++ e.close)
    (he : effect P σ i = .next σ') : At P e array guard body σ₁ c σ' := by
  cases b with
  | nil =>
    obtain ⟨rfl, -⟩ := List.cons.inj hc
    cases he
  | cons j b =>
    obtain ⟨rfl, rfl⟩ := List.cons.inj hc
    have hi := ha.body_dst i (hb.mem List.mem_cons_self)
    exact .body ((List.suffix_cons i b).trans hb) (hk.keep fun t ht ↦ effect_regs he (hi t ht))

theorem next_advance (ha : e.Alone array guard body) {done todo : List Instr}
    (h : e.advance = done ++ todo) (hk : e.Within array σ₁ (k + 1) k σ₂)
    (hd : exec P σ₂ done = .next σ) (hc : i :: c = todo ++ (body ++ e.close))
    (he : effect P σ i = .next σ') : At P e array guard body σ₁ c σ' := by
  cases todo with
  | nil =>
    rw [List.append_nil] at h
    exact next_body ha List.suffix_rfl (hk.advance ha (h ▸ hd)) hc he
  | cons j todo =>
    obtain ⟨rfl, rfl⟩ := List.cons.inj hc
    exact .advance (done ++ [i]) _ (by simpa using h) hk (exec_snoc hd he)

theorem next_guard (ha : e.Alone array guard body) {g : List Instr} (hg : g <:+ guard)
    (hk : e.Within array σ₁ (k + 1) k σ) (hc : i :: c = g ++ e.onward body)
    (he : effect P σ i = .next σ') : At P e array guard body σ₁ c σ' := by
  cases g with
  | nil => exact next_advance ha (List.nil_append _).symm hk rfl hc he
  | cons j g =>
    obtain ⟨rfl, rfl⟩ := List.cons.inj hc
    have hi := ha.guard_dst i (hg.mem List.mem_cons_self)
    exact .guard ((List.suffix_cons i g).trans hg) (hk.keep fun t ht ↦ effect_regs he (hi t ht))

theorem next (ha : e.Alone array guard body) (h : At P e array guard body σ₁ (i :: c) σ)
    (he : effect P σ i = .next σ') : At P e array guard body σ₁ c σ' := by
  generalize hc : i :: c = d at h
  cases h with
  | setup done todo h hd =>
    cases todo with
    | nil =>
      obtain ⟨rfl, rfl⟩ := List.cons.inj hc
      cases he
      rw [List.append_nil] at h
      have hstart := Within.start (P := P) ha (h ▸ hd)
      rw [access, ← List.append_assoc]
      exact .head [] _ (List.nil_append _).symm hstart rfl
    | cons j todo =>
      obtain ⟨rfl, rfl⟩ := List.cons.inj hc
      exact .setup (done ++ [i]) _ (by simpa using h) (exec_snoc hd he)
  | head done todo h hk hd =>
    cases todo with
    | nil =>
      rw [List.append_nil] at h
      exact next_guard ha List.suffix_rfl (hk.head ha (h ▸ hd)) hc he
    | cons j todo =>
      obtain ⟨rfl, rfl⟩ := List.cons.inj hc
      exact .head (done ++ [i]) _ (by simpa using h) hk (exec_snoc hd he)
  | guard hg hk => exact next_guard ha hg hk hc he
  | advance done todo h hk hd => exact next_advance ha h hk hd hc he
  | body hb hk => exact next_body ha hb hk hc he

theorem jump_body (ha : e.Alone array guard body) {b : List Instr} (hb : b <:+ body)
    (hk : e.Within array σ₁ (k + 1) (k + 1) σ) (hc : i :: c = b ++ e.close)
    (ht : i.target? = some l) (hd : (labels (e.block array guard body)).Nodup)
    (hl : .label l :: c' <:+ e.block array guard body) (hne : c' ≠ []) :
    At P e array guard body σ₁ c' σ := by
  cases b with
  | nil =>
    obtain ⟨rfl, -⟩ := List.cons.inj hc
    cases ht
    obtain rfl := behind_unique hd hl (rfl : _ = e.setup array ++ _)
    rw [access, ← List.append_assoc]
    exact .head [] _ (List.nil_append _).symm hk rfl
  | cons j b =>
    obtain ⟨rfl, -⟩ := List.cons.inj hc
    rcases ha.body_targets l (mem_targets (hb.mem List.mem_cons_self) ht) with hin | rfl
    · obtain ⟨x, y, rfl⟩ := eq_append_of_mem_labels hin
      have hblock : e.block array guard (x ++ .label l :: y) = e.setup array ++ .label e.again ::
          (e.test ++ (e.fetch ++ (guard ++ (e.advance ++ x)))) ++ .label l :: (y ++ e.close) := by
        simp [block, access, onward]
      obtain rfl := behind_unique hd hl hblock
      exact .body ((List.suffix_cons _ y).trans (List.suffix_append x _)) hk
    · exact absurd (behind_unique hd hl (e.block_eq_leave array guard body)) hne

theorem jump_advance (ha : e.Alone array guard body) {done todo : List Instr}
    (h : e.advance = done ++ todo) (hk : e.Within array σ₁ (k + 1) k σ₂)
    (hd : exec P σ₂ done = .next σ) (hc : i :: c = todo ++ (body ++ e.close))
    (ht : i.target? = some l) (hn : (labels (e.block array guard body)).Nodup)
    (hl : .label l :: c' <:+ e.block array guard body) (hne : c' ≠ []) :
    At P e array guard body σ₁ c' σ := by
  cases todo with
  | nil =>
    rw [List.append_nil] at h
    exact jump_body ha List.suffix_rfl (hk.advance ha (h ▸ hd)) hc ht hn hl hne
  | cons j todo =>
    obtain ⟨rfl, -⟩ := List.cons.inj hc
    have htarget : l ∈ targets e.advance := mem_targets (by simp [h]) ht
    cases htarget

theorem jump_guard (ha : e.Alone array guard body) {g : List Instr} (hg : g <:+ guard)
    (hk : e.Within array σ₁ (k + 1) k σ) (hc : i :: c = g ++ e.onward body)
    (ht : i.target? = some l) (hd : (labels (e.block array guard body)).Nodup)
    (hl : .label l :: c' <:+ e.block array guard body) (hne : c' ≠ []) :
    At P e array guard body σ₁ c' σ := by
  cases g with
  | nil => exact jump_advance ha (List.nil_append _).symm hk rfl hc ht hd hl hne
  | cons j g =>
    obtain ⟨rfl, -⟩ := List.cons.inj hc
    rcases ha.guard_targets l (mem_targets (hg.mem List.mem_cons_self) ht) with hin | rfl
    · obtain ⟨x, y, rfl⟩ := eq_append_of_mem_labels hin
      have hblock : e.block array (x ++ .label l :: y) body = e.setup array ++ .label e.again ::
          (e.test ++ (e.fetch ++ x)) ++ .label l :: (y ++ e.onward body) := by
        simp [block, access]
      obtain rfl := behind_unique hd hl hblock
      exact .guard ((List.suffix_cons _ y).trans (List.suffix_append x _)) hk
    · exact absurd (behind_unique hd hl (e.block_eq_leave array guard body)) hne

/-- Jumps go from the guard and the body to places of their own, back to the head of the loop, or
out of the loop. -/
theorem jump (ha : e.Alone array guard body) (h : At P e array guard body σ₁ (i :: c) σ)
    (ht : i.target? = some l) (hd : (labels (e.block array guard body)).Nodup)
    (hl : .label l :: c' <:+ e.block array guard body) (hne : c' ≠ []) :
    At P e array guard body σ₁ c' σ := by
  generalize hc : i :: c = d at h
  cases h with
  | setup done todo h he =>
    have htarget : l ∈ targets (e.setup array ++ [.label e.again]) := by
      refine mem_targets (i := i) ?_ ht
      cases todo with
      | nil => simp [(List.cons.inj hc).1]
      | cons j todo => simp [h, (List.cons.inj hc).1]
    cases htarget
  | head done todo h hk he =>
    cases todo with
    | nil =>
      rw [List.append_nil] at h
      exact jump_guard ha List.suffix_rfl (hk.head ha (h ▸ he)) hc ht hd hl hne
    | cons j todo =>
      obtain ⟨rfl, -⟩ := List.cons.inj hc
      have htarget : l ∈ targets (e.test ++ e.fetch) := mem_targets (by simp [h]) ht
      obtain rfl : l = e.leave := List.mem_singleton.mp htarget
      exact absurd (behind_unique hd hl (e.block_eq_leave array guard body)) hne
  | guard hg hk => exact jump_guard ha hg hk hc ht hd hl hne
  | advance done todo h hk he => exact jump_advance ha h hk he hc ht hd hl hne
  | body hb hk => exact jump_body ha hb hk hc ht hd hl hne

/-- At the access the test has just found one more element. -/
theorem cursor (ha : e.Alone array guard body)
    (h : At P e array guard body σ₁ (e.access guard body) σ) :
    ∃ k : Nat, σ.regs e.cursor = Eval.elementAt (σ₁.regs array) (.ofNat k) ∧
      (k : Int) < (size array σ₁).toInt := by
  have hlen : (e.access guard body).length = guard.length + body.length + 6 := by
    simp [access, onward, ArrayLoop.fetch, Each.advance, close]
    omega
  generalize hc : e.access guard body = d at h
  -- the other places are too far from the end of the loop or too close to it
  have hd := congrArg List.length hc
  rw [hlen] at hd
  cases h with
  | setup done todo h he =>
    simp only [List.length_append, List.length_cons, hlen] at hd
    omega
  | @head done todo k _ _ h hk he =>
    obtain rfl := List.append_cancel_right hc
    obtain rfl := List.append_cancel_right h
    have hmid := hk.test ha he
    have hle := hmid.le
    exact ⟨k, hmid.counting.cursor, by omega⟩
  | guard hg hk =>
    have hle := hg.length_le
    simp [onward, Each.advance, close] at hd
    omega
  | advance done todo h hk he =>
    have hle := congrArg List.length h
    simp [Each.advance, close] at hle hd
    omega
  | body hb hk =>
    have hle := hb.length_le
    simp [close] at hd
    omega

end At

end Each

theorem each_addresses (ha : e.Alone array guard body)
    (hs : Sealed listing before (e.block array guard body) rest) :
    Addresses P listing (e.block array guard body ++ rest) (e.access guard body ++ rest) array
      .stored e.cursor := by
  intro σ₀ σ h
  obtain ⟨σ₁, hr, ho, hat⟩ := hs.invariant (A := fun c σ₁ σ ↦ Each.At P e array guard body σ₁ c σ)
    (fun σ ↦ .setup [] _ (List.nil_append _).symm rfl)
    (fun i c σ₁ σ σ' _ _ hat he ↦ hat.next ha he)
    (fun i c l c' σ₁ σ _ hat he hl hne ↦ hat.jump ha (target_of_jump he).1 hs.labels_nodup hl hne)
    h ⟨e.setup array ++ .label e.again :: e.test, by simp [Each.block]⟩ (List.cons_ne_nil _ _)
  obtain ⟨k, hk, hlt⟩ := hat.cursor ha
  exact ⟨σ₁, k, hr, ho, hlt, hk⟩

end ThreeAddress.Control
