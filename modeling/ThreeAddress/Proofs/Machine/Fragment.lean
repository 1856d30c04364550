import ThreeAddress.Proofs.Machine.Realise

namespace ThreeAddress.Machine

open Checked Code Lowering

variable {ι : Type} {P : Platform ι} {n m : Nat} {regs : Registers} {w : World ι} {t : Temp}

namespace Realises

theorem constant (v : Word) (ht : n < t.index) :
    Realises P n [.constant t v] regs w (pure v) (Holds t) := assign ht rfl rfl

theorem load {base : Temp} {offset : Int32} (ht : n < t.index) :
    Realises P n [.load t base offset] regs w (Eval.read (regs base + offset)) (Holds t) :=
  assign ht rfl rfl

theorem call (args : List Temp) (dst : Option Temp) (callee : String) {values : List Word}
    (hv : args.map regs = values) (hd : ∀ t ∈ dst, n < t.index) :
    Realises P n (args.map .param ++ [.call dst callee]) regs w
      (Eval.request P (.call callee) values) fun v regs' ↦ ∀ t ∈ dst, Holds t v regs' := by
  refine request regs values dst ?_ (.refl n regs) hd
  rw [exec_params, exec_singleton, hv]
  rfl

theorem callValue (args : List Temp) (callee : String) {values : List Word}
    (hv : args.map regs = values) (ht : n < t.index) :
    Realises P n (args.map .param ++ [.call (some t) callee]) regs w
      (Eval.request P (.call callee) values) (Holds t) :=
  (call args (some t) callee hv (by simpa using ht)).imp fun _ _ _ h ↦ h t rfl

theorem service {i : Instr} {s : Service} {args : List Word} (ht : n < t.index)
    (he : effect P ⟨regs, [], w⟩ i =
      (⟨regs, [], w⟩ : Store ι).receive [] (some t) (P.serve s args w)) :
    Realises P n [i] regs w (Eval.request P s args) (Holds t) := by
  refine (request regs [] (some t) ?_ (.refl n regs) (by simpa using ht)).imp
    fun v regs' _ h ↦ h t rfl
  rw [exec_singleton]
  exact he

theorem address {array index word offset : Temp}
    (hts : Ascending n [word, offset, t] m) (ha : array.index ≤ n) (hi : index.index ≤ n) :
    Realises P n (addressCode array index word offset t) regs w
      (pure (Eval.elementAt (regs array) (regs index))) (Holds t) := by
  simp only [Ascending] at hts
  refine of_exec rfl rfl ?_ ?_
  · exact (((Keeps.refl n regs).update (by omega)).update (by omega)).update (by omega)
  · simp (disch := omega) only [Holds, Store.set, Function.update_self, update_of_index_ne]
    rfl

theorem check {array index : Temp} :
    Realises P n [.checkBounds array index] regs w (Eval.checkRange P (regs array) (regs index))
      fun _ _ ↦ True := by
  by_cases h : InRange w (regs array) (regs index)
  · exact of_exec (if_pos h) ((exec_singleton ..).trans (if_pos h)) (.refl n regs) trivial
  · exact of_exec_halted (if_neg h) ((exec_singleton ..).trans (if_neg h))

theorem compare {op : BinaryOp} {left right equal : Temp} (he : n < equal.index)
    (ht : n < t.index) (hop : op ≠ .notEqual → equal = t) :
    Realises P n (compareCode op left right equal t) regs w
      (Eval.compareStrings P op (regs left) (regs right)) (Holds t) := by
  unfold compareCode Eval.compareStrings
  refine (callValue [left, right] _ rfl he).bind le_rfl fun v regs₁ w₁ hk hv ↦ ?_
  obtain rfl : regs₁ equal = v := hv
  split
  · exact assign ht rfl rfl
  · rename_i hne
    exact done (hop hne ▸ rfl)

theorem callVirtual {method : MethodSymbol} {receiver vtable callee : Temp} {args : List Temp}
    {result : Option Temp} (hts : Ascending n ([vtable, callee] ++ result.toList) m) :
    Realises P n ((receiver :: args).map .param ++ [.load vtable receiver 0,
        .load callee vtable method.offset, .callTemp result callee]) regs w
      (Eval.callMethod P method (some (regs receiver)) (args.map regs))
      fun v regs' ↦ ∀ t ∈ result, Holds t v regs' := by
  have hresult : ∀ t ∈ result, callee.index < t.index := by
    intro t ht
    exact (hts.2.2.mem (by simpa using ht)).1
  obtain ⟨hv, hc, -⟩ := hts
  -- the table and the callee are read first, in the world as it was
  have hx : Eval.callMethod P method (some (regs receiver)) (args.map regs) w =
      Eval.request P (.callAt (w.heap (w.heap (regs receiver) + method.offset)))
        (regs receiver :: args.map regs) w := rfl
  refine of_eq hx (request
    (Function.update (Function.update regs vtable (w.heap (regs receiver))) callee
      (w.heap (w.heap (regs receiver) + method.offset)))
    ((receiver :: args).map regs) result ?_ ?_ ?_)
  · have hload : exec P ⟨regs, (receiver :: args).map regs, w⟩ [.load vtable receiver 0,
        .load callee vtable method.offset, .callTemp result callee] = _ := exec_cons rfl
    rw [exec_params, List.nil_append, hload, exec_cons rfl, exec_singleton]
    simp [effect, Store.set]
  · exact ((Keeps.refl n regs).update hv).update (by omega)
  · intro t ht
    have := hresult t ht
    omega

theorem guard {g : Guard} (hts : Ascending n g.temps m) (hd : g.divisor.index ≤ n) :
    Realises P n g.code regs w (Eval.guardDivisor P (regs g.divisor)) fun _ _ ↦ True := by
  simp only [Guard.temps, Ascending] at hts
  obtain ⟨regs₁, he, hk, hmessage, hzero⟩ : ∃ regs₁,
      exec P ⟨regs, [], w⟩ g.test = .next ⟨regs₁, [], w⟩ ∧ Keeps n regs regs₁ ∧
        regs₁ g.message = P.stringAt divisionMessage ∧
        regs₁ g.isZero = truth (regs g.divisor = 0) := by
    refine ⟨_, rfl, ?_, ?_, ?_⟩
    · exact (((Keeps.refl n regs).update (by omega)).update (by omega)).update (by omega)
    · simp (disch := omega) only [Store.set, Function.update_self, update_of_index_ne]
    · simp (disch := omega) only [Store.set, Function.update_self, update_of_index_ne, binary]
  unfold Eval.guardDivisor
  refine prepared _ hk le_rfl he ?_
  by_cases hb : regs g.divisor = 0
  · have hfall : exec P ⟨regs₁, [], w⟩ [.jumpIfZero g.isZero g.nonzero] = .next ⟨regs₁, [], w⟩ := by
      rw [exec_singleton, effect, if_neg]
      simp [hzero, truth, hb]
    rw [if_pos hb]
    refine prepared [_] (.refl n regs₁) le_rfl hfall ?_
    refine (call [g.message] none _ (by simp [hmessage]) (by simp)).bind le_rfl fun _ _ _ _ _ ↦ ?_
    refine (call [] none _ rfl (by simp)).bind le_rfl fun _ _ _ _ _ ↦ ?_
    exact of_exec rfl rfl (.refl n _) trivial
  · have hjump : effect P ⟨regs₁, [], w⟩ (.jumpIfZero g.isZero g.nonzero) =
        .jump g.nonzero ⟨regs₁, [], w⟩ := by
      rw [effect, if_pos]
      simp [hzero, truth, hb]
    rw [if_neg hb]
    intro listing rest hd hs
    have hl : behind g.nonzero listing = some rest :=
      behind_eq_some hd (List.IsSuffix.trans (List.suffix_append [_, _, _, _] _) hs)
    exact .of_ok rfl (.jump hjump hl (.refl _)) (.refl n regs₁) trivial

theorem exec_less (regs : Registers) (a b more : Temp) (l : Label) :
    exec P ⟨regs, [], w⟩ [.binary more .less a b, .jumpIfZero more l] =
      if regs a < regs b then .next ⟨Function.update regs more 1, [], w⟩
      else .jump l ⟨Function.update regs more 0, [], w⟩ := by
  rw [exec_cons rfl, exec_singleton]
  by_cases h : regs a < regs b <;> simp [effect, Store.set, binary, truth, h]

theorem copies {object clone : Temp} {offsets : List Int32} {fields : List Temp}
    (hl : fields.length = offsets.length) (hts : Ascending n fields m) (ho : object.index ≤ n)
    (hc : clone.index ≤ n) :
    Realises P n (copyCode object clone offsets fields) regs w
      (offsets.forM fun offset ↦ do
        let field ← Eval.read (regs object + offset)
        Eval.write (regs clone + offset) field) fun _ _ ↦ True := by
  induction offsets generalizing n regs w fields with
  | nil =>
    cases fields with
    | nil => exact done trivial
    | cons field fields => cases hl
  | cons offset offsets ih =>
    cases fields with
    | nil => cases hl
    | cons field fields =>
      obtain ⟨hf, hts⟩ := hts
      have hcopy : exec P ⟨regs, [], w⟩ [.load field object offset, .store field clone offset] =
          .next ⟨Function.update regs field (w.heap (regs object + offset)), [],
            w.write (regs clone + offset) (w.heap (regs object + offset))⟩ := by
        simp (disch := omega) only [exec, effect, Store.set, Function.update_self,
          update_of_index_ne]
      have hfield : Realises P n [.load field object offset, .store field clone offset] regs w
          (do
            let field ← Eval.read (regs object + offset)
            Eval.write (regs clone + offset) field) fun _ _ ↦ True :=
        of_exec rfl hcopy ((Keeps.refl n regs).update hf) trivial
      refine hfield.bind hf.le fun a regs₁ w₁ hk _ ↦ ?_
      rw [← hk object ho, ← hk clone hc]
      exact ih (Nat.succ.inj hl) hts (by omega) (by omega)

theorem clone {k : Clone} (hts : Ascending n k.temps m) (ho : k.object.index ≤ n)
    (hf : k.fields.length = (fieldOffsets k.symbol.size).length) :
    Realises P n k.code regs w (Eval.clone P k.symbol (regs k.object)) (Holds k.result) := by
  obtain ⟨hsize, hresult, hts⟩ := hts
  obtain ⟨j, hfields, hvtable, -⟩ := Ascending.of_append k.fields hts
  have hj := hfields.le
  have hallocate : Realises P n [.constant k.size k.symbol.size, .param k.size,
      .call (some k.result) Routine.allocate.name] regs w
      (Eval.routine P .allocate [k.symbol.size]) (Holds k.result) := by
    have hsized := (Keeps.refl n regs).update hsize (v := k.symbol.size)
    exact prepared [_] hsized hsize.le rfl (callValue [k.size] _ (by simp) hresult)
  refine hallocate.bind (m := k.result.index) (by omega) fun v regs₁ w₁ hk₁ hv ↦ ?_
  obtain rfl : regs₁ k.result = v := hv
  rw [← hk₁ k.object ho]
  refine (copies hf hfields (by omega) le_rfl).bind (m := k.result.index) le_rfl
    fun _ regs₂ w₂ hk₂ _ ↦ ?_
  rw [← hk₂ k.result le_rfl]
  have hstore : exec P ⟨regs₂, [], w₂⟩ [.vtable k.vtable k.symbol.vtable,
      .store k.vtable k.result 0] = .next ⟨Function.update regs₂ k.vtable
        (P.tableAt k.symbol.vtable), [],
        w₂.write (regs₂ k.result) (P.tableAt k.symbol.vtable)⟩ := by
    simp (disch := omega) only [exec, effect, Store.set, Function.update_self, update_of_index_ne,
      Int32.add_zero]
  refine of_exec rfl hstore ((Keeps.refl _ regs₂).update (by omega)) ?_
  exact update_of_index_ne (by omega)

variable {env : Env} {type : DataType} {element : Temp}

theorem stored {code : List Instr} {ts : List Temp} (h : Stored env type element code ts t)
    (hts : Ascending n ts m) (he : element.index ≤ n) :
    Realises P n code regs w (Eval.cloneIfObject P env.symbols type (regs element)) (Holds t) := by
  unfold Eval.cloneIfObject
  cases h with
  | plain h =>
    rw [h]
    exact done rfl
  | cloned k h hs ho hf =>
    rw [h]
    subst ho
    simp only [hs, Eval.known, pure_bind]
    exact clone hts he hf

theorem ofNat_lt {k : Nat} {count : Word} (h : k < count.toInt.toNat) : Int32.ofNat k < count := by
  have hc := count.toInt_lt
  rw [Int32.lt_iff_toInt_lt, Int32.toInt_ofNat_of_lt (by omega)]
  omega

theorem not_ofNat_lt (count : Word) : ¬ Int32.ofNat count.toInt.toNat < count := by
  have hc := count.toInt_lt
  rw [Int32.lt_iff_toInt_lt, Int32.toInt_ofNat_of_lt (by omega)]
  omega

theorem elementAt_succ (array : Word) (k : Nat) :
    Eval.elementAt array (.ofNat k) + wordSize = Eval.elementAt array (.ofNat (k + 1)) := by
  simp only [Eval.elementAt, Int32.ofNat_add]
  grind

/-- What the loop keeps in its registers when `k` elements have been stored. -/
structure Filled (f : Fill) (array : Word) (k : Nat) (regs : Registers) : Prop where
  word : regs f.word = wordSize
  one : regs f.one = 1
  index : regs f.index = .ofNat k
  cursor : regs f.cursor = Eval.elementAt array (.ofNat k)

theorem Filled.keep {f : Fill} {array : Word} {k : Nat} {regs' : Registers}
    (h : Filled f array k regs) (hk : Keeps n regs regs') (hw : f.word.index ≤ n)
    (ho : f.one.index ≤ n) (hi : f.index.index ≤ n) (hc : f.cursor.index ≤ n) :
    Filled f array k regs' :=
  ⟨(hk _ hw).trans h.word, (hk _ ho).trans h.one, (hk _ hi).trans h.index,
    (hk _ hc).trans h.cursor⟩

theorem advance {f : Fill} {array : Word} {k j : Nat} (h : Filled f array k regs)
    (hts : Ascending f.one.index [f.index, f.cursor] j) (hw : f.word.index ≤ f.one.index)
    (hnext : Ascending j [f.nextCursor, f.nextIndex] m) :
    ∃ regs₁, exec P ⟨regs, [], w⟩ f.advance =
        .next ⟨regs₁, [], w.write (Eval.elementAt array (.ofNat k)) (regs f.stored)⟩ ∧
      Keeps f.one.index regs regs₁ ∧ Filled f array (k + 1) regs₁ := by
  simp only [Ascending] at hts hnext
  have hcursor : regs f.cursor + 0 = Eval.elementAt array (.ofNat k) := by
    rw [Int32.add_zero, h.cursor]
  rw [← hcursor]
  refine ⟨_, rfl, ?_, ⟨?_, ?_, ?_, ?_⟩⟩
  · exact ((((Keeps.refl _ regs).update (by omega)).update (by omega)).update (by omega)).update
      (by omega)
  · simp (disch := omega) only [Store.set, update_of_index_ne, h.word]
  · simp (disch := omega) only [Store.set, update_of_index_ne, h.one]
  · simp (disch := omega) only [Store.set, Function.update_self, update_of_index_ne, binary,
      h.index, h.one, Int32.ofNat_add]
    rfl
  · simp (disch := omega) only [Store.set, Function.update_self, update_of_index_ne, binary,
      h.cursor, h.word, elementAt_succ]

/-- The loop from behind its label on, by induction on the elements that are left. -/
theorem fill_loop {f : Fill} {array : Word} {k count : Nat} {listing rest : List Instr}
    (hs : Stored env type element f.store f.storeTemps f.stored)
    (hts : Ascending f.one.index ([f.index, f.cursor, f.more] ++ (f.storeTemps ++
      [f.nextCursor, f.nextIndex])) m)
    (hw : f.word.index ≤ f.one.index) (hc : f.count.index ≤ f.one.index)
    (he : element.index ≤ f.one.index) (hd : (labels listing).Nodup)
    (hl : .label f.fill :: (f.loop ++ rest) <:+ listing) (hf : Filled f array k regs)
    (hcount : k + count = (regs f.count).toInt.toNat) :
    Arrives P listing (f.loop ++ rest) rest f.one.index regs w
      (Eval.fill P env.symbols type (regs element) array k count) fun _ _ ↦ True := by
  obtain ⟨hindex, hcursor, hmore, hts⟩ := hts
  obtain ⟨j, hstore, hnext⟩ := Ascending.of_append f.storeTemps hts
  have hj := hstore.le
  have hloop : f.loop ++ rest =
      f.test ++ (f.store ++ (f.advance ++ (.jump f.fill :: .label f.filled :: rest))) := by
    simp [Fill.loop]
  have hsuffix : f.loop ++ rest <:+ listing := (List.suffix_cons _ _).trans hl
  rw [hloop] at hsuffix
  induction count generalizing k regs w with
  | zero =>
    have hend : ¬ regs f.index < regs f.count := by
      rw [hf.index, show k = (regs f.count).toInt.toNat from hcount]
      exact not_ofNat_lt _
    have htest : exec P ⟨regs, [], w⟩ f.test = _ := (exec_less ..).trans (if_neg hend)
    have hfilled : behind f.filled listing = some rest := by
      refine behind_eq_some hd (List.IsSuffix.trans ?_ hsuffix)
      exact ⟨f.test ++ (f.store ++ (f.advance ++ [.jump f.fill])), by simp⟩
    rw [hloop]
    exact .of_ok rfl (.of_exec_jump htest hfilled _) ((Keeps.refl _ regs).update (by omega)) trivial
  | succ count ih =>
    have hmore' : regs f.index < regs f.count := by
      rw [hf.index]
      exact ofNat_lt (by omega)
    have htest : exec P ⟨regs, [], w⟩ f.test = _ := (exec_less ..).trans (if_pos hmore')
    have hk₁ : Keeps f.cursor.index regs (Function.update regs f.more 1) :=
      (Keeps.refl _ regs).update hmore
    have hf₁ := hf.keep hk₁ (by omega) (by omega) (by omega) le_rfl
    have hfill : behind f.fill listing = some (f.loop ++ rest) := behind_eq_some hd hl
    rw [hloop, Eval.fill, ← hk₁ element (by omega)]
    refine .after rfl (.of_exec_next htest _) (hk₁.mono (by omega)) le_rfl ?_
    have hrest := List.IsSuffix.trans (List.suffix_append _ _) hsuffix
    refine (stored hs hstore (by omega) hd hrest).bind (by omega) le_rfl fun v regs₂ w₂ hk₂ hv ↦ ?_
    obtain rfl : regs₂ f.stored = v := hv
    have hf₂ := hf₁.keep hk₂ (by omega) (by omega) (by omega) (by omega)
    obtain ⟨_, hadvance, hk₃, hf₃⟩ := advance (P := P) (w := w₂) hf₂
      ⟨hindex, hcursor, hmore.le.trans hj⟩ hw hnext
    have hagain (σ : Store ι) : Reaches P listing
        (.running (.jump f.fill :: .label f.filled :: rest) σ) (.running (f.loop ++ rest) σ) :=
      .jump rfl hfill (.refl _)
    have hwrite : Arrives P listing _ (f.loop ++ rest) f.one.index regs₂ w₂
        (Eval.write (Eval.elementAt array (.ofNat k)) (regs₂ f.stored))
        fun _ regs' ↦ Filled f array (k + 1) regs' :=
      .of_ok rfl ((Reaches.of_exec_next hadvance _).trans (hagain _)) hk₃ hf₃
    refine hwrite.bind le_rfl le_rfl fun _ regs₃ w₃ hk₃ hf₃ ↦ ?_
    have hkeep : Keeps f.one.index (Function.update regs f.more 1) regs₃ :=
      (hk₂.mono (by omega)).trans hk₃ le_rfl
    have hcount₃ : regs₃ f.count = regs f.count := (hkeep _ hc).trans (hk₁ _ (by omega))
    rw [← hkeep element he]
    exact ih hf₃ (by rw [hcount₃]; omega)

theorem fill {f : Fill} (hs : Stored env type element f.store f.storeTemps f.stored)
    (hts : Ascending n f.temps m) (hc : f.count.index ≤ n) (he : element.index ≤ n) :
    Realises P n f.code regs w (do
      let array ← Eval.request P .newArray [regs f.count]
      Eval.fill P env.symbols type (regs element) array 0 (regs f.count).toInt.toNat
      return array) (Holds f.array) := by
  obtain ⟨harray, hword, hone, hts⟩ := hts
  have hindex := hts.1
  have hcursor := hts.2.1
  have hfirst : Realises P n [.newArray f.array f.count] regs w
      (Eval.request P .newArray [regs f.count]) (Holds f.array) := service harray rfl
  refine hfirst.bind harray.le fun v regs₁ w₁ hk₁ hv ↦ ?_
  obtain rfl : regs₁ f.array = v := hv
  rw [← hk₁ f.count hc, ← hk₁ element he]
  refine map (Q := fun _ _ ↦ True) ?_ fun _ regs' hk _ ↦ hk f.array le_rfl
  intro listing rest hd hl
  obtain ⟨regs₂, he₂, hk₂, hf₂⟩ : ∃ regs₂, exec P ⟨regs₁, [], w₁⟩ [.constant f.word wordSize,
      .constant f.one 1, .constant f.index 0, .copy f.cursor f.array, .label f.fill] =
        .next ⟨regs₂, [], w₁⟩ ∧ Keeps f.array.index regs₁ regs₂ ∧
        Filled f (regs₁ f.array) 0 regs₂ := by
    refine ⟨_, rfl, ?_, ⟨?_, ?_, ?_, ?_⟩⟩
    · exact ((((Keeps.refl _ regs₁).update hword).update (by omega)).update (by omega)).update
        (by omega)
    · simp (disch := omega) only [Store.set, Function.update_self, update_of_index_ne]
    · simp (disch := omega) only [Store.set, Function.update_self, update_of_index_ne]
    · simp (disch := omega) only [Store.set, Function.update_self, update_of_index_ne]
      rfl
    · simp (disch := omega) only [Store.set, Function.update_self, update_of_index_ne]
      simp [Eval.elementAt]
  have hloop := List.IsSuffix.trans (List.suffix_append [_, _, _, _] _) hl
  refine .after (m := f.one.index) rfl (.of_exec_next he₂ _) hk₂ (by omega) ?_
  rw [← hk₂ element (by omega), ← hk₂ f.count (by omega)]
  exact fill_loop hs hts hone.le (by omega) (by omega) hd hloop hf₂ (Nat.zero_add _)

/-- The two tests find out whether the index is in range. -/
theorem readOr_test {r : ReadOr} {listing found tail : List Instr}
    (hts : Ascending n [r.length, r.below, r.zero, r.negative] m) (hi : r.index.index ≤ n)
      (hu : behind r.useDefault listing = some tail)
    (hb : behind r.inBounds listing = some found) :
    ∃ regs₁, Keeps n regs regs₁ ∧
      Reaches P listing (.running (r.test ++ .label r.useDefault :: tail) ⟨regs, [], w⟩)
        (.running (if InRange w (regs r.array) (regs r.index) then found else tail)
          ⟨regs₁, [], w⟩) := by
  simp only [Ascending] at hts
  obtain ⟨regs₁, he₁, hk₁, hlength⟩ : ∃ regs₁,
      effect P ⟨regs, [], w⟩ (.load r.length r.array lengthOffset) = .next ⟨regs₁, [], w⟩ ∧
        Keeps n regs regs₁ ∧ regs₁ r.length = w.heap (regs r.array + lengthOffset) :=
    ⟨_, rfl, (Keeps.refl n regs).update (by omega), Function.update_self ..⟩
  have hbelow := exec_less (P := P) (w := w) regs₁ r.index r.length r.below r.useDefault
  rw [hlength, hk₁ _ hi] at hbelow
  by_cases hlt : regs r.index < w.heap (regs r.array + lengthOffset)
  · rw [if_pos hlt] at hbelow
    obtain ⟨regs₂, he₂, hk₂, hzero⟩ : ∃ regs₂,
        effect P ⟨Function.update regs₁ r.below 1, [], w⟩ (.constant r.zero 0) =
          .next ⟨regs₂, [], w⟩ ∧ Keeps n regs regs₂ ∧ regs₂ r.zero = 0 :=
      ⟨_, rfl, (hk₁.update (by omega)).update (by omega), Function.update_self ..⟩
    have hnegative := exec_less (P := P) (w := w) regs₂ r.index r.zero r.negative r.inBounds
    rw [hzero, hk₂ _ hi] at hnegative
    have htests (rest : List Instr) : Reaches P listing (.running (r.test ++ rest) ⟨regs, [], w⟩)
        (.running ([.binary r.negative .less r.index r.zero, .jumpIfZero r.negative r.inBounds] ++
          rest) ⟨regs₂, [], w⟩) :=
      .next he₁ ((Reaches.of_exec_next hbelow _).trans (.next he₂ (.refl _)))
    by_cases hn : regs r.index < 0
    · rw [if_pos hn] at hnegative
      rw [if_neg fun h ↦ Int32.not_lt.mpr h.1 hn]
      exact ⟨_, hk₂.update (by omega),
        (htests _).trans ((Reaches.of_exec_next hnegative _).trans (.next rfl (.refl _)))⟩
    · rw [if_neg hn] at hnegative
      rw [if_pos ⟨Int32.not_lt.mp hn, hlt⟩]
      exact ⟨_, hk₂.update (by omega), (htests _).trans (.of_exec_jump hnegative hb _)⟩
  · rw [if_neg hlt] at hbelow
    rw [if_neg fun h ↦ hlt h.2]
    exact ⟨_, hk₁.update (by omega), .next he₁ (.of_exec_jump hbelow hu _)⟩

theorem readOr {r : ReadOr} (hts : Ascending n r.temps m) (ha : r.array.index ≤ n)
    (hi : r.index.index ≤ n) (hf : r.fallback.index ≤ n) :
    Realises P n r.code regs w
      (Eval.readOr (regs r.array) (regs r.index) (regs r.fallback)) (Holds r.result) := by
  simp only [ReadOr.temps, Ascending] at hts
  intro listing rest hd hs
  have hcode : r.code ++ rest = r.test ++ .label r.useDefault :: .copy r.result r.fallback ::
      .jump r.done :: .label r.inBounds :: (r.read ++ .label r.done :: rest) := by
    simp [ReadOr.code]
  rw [hcode] at hs ⊢
  replace hs := List.IsSuffix.trans (List.suffix_append _ _) hs
  have hu := behind_eq_some hd hs
  replace hs := List.IsSuffix.trans (List.suffix_append [_, _, _] _) hs
  have hb := behind_eq_some hd hs
  replace hs := List.IsSuffix.trans (List.suffix_append (_ :: r.read) _) hs
  have hdone := behind_eq_some hd hs
  obtain ⟨regs₁, hk₁, htest⟩ := readOr_test (P := P) (w := w)
    (show Ascending n [r.length, r.below, r.zero, r.negative] m by simp only [Ascending]; omega)
    hi hu hb
  by_cases hin : InRange w (regs r.array) (regs r.index)
  · rw [if_pos hin] at htest
    have hx : Eval.readOr (regs r.array) (regs r.index) (regs r.fallback) w =
        .ok (w.heap (Eval.elementAt (regs r.array) (regs r.index))) w := if_pos hin
    obtain ⟨regs₂, hread, hk₂, hresult⟩ : ∃ regs₂,
        exec P ⟨regs₁, [], w⟩ r.read = .next ⟨regs₂, [], w⟩ ∧ Keeps n regs₁ regs₂ ∧
          regs₂ r.result = w.heap (Eval.elementAt (regs₁ r.array) (regs₁ r.index)) := by
      refine ⟨_, rfl, ?_, ?_⟩
      · exact (((((Keeps.refl n regs₁).update (by omega)).update (by omega)).update
          (by omega)).update (by omega)).update (by omega)
      · simp (disch := omega) only [Store.set, Function.update_self, update_of_index_ne,
          Int32.add_zero]
        rfl
    rw [hk₁ _ ha, hk₁ _ hi] at hresult
    refine .of_ok hx (htest.trans ?_) (hk₁.trans hk₂ le_rfl) hresult
    exact (Reaches.of_exec_next hread _).trans (.next rfl (.refl _))
  · rw [if_neg hin] at htest
    have hx : Eval.readOr (regs r.array) (regs r.index) (regs r.fallback) w =
        .ok (regs r.fallback) w := if_neg hin
    refine .of_ok hx (htest.trans (.next rfl (.jump rfl hdone (.refl _))))
      (hk₁.update (by omega)) ?_
    exact (Function.update_self ..).trans (hk₁ _ hf)

end Realises

end ThreeAddress.Machine
