import ThreeAddress.Proofs.Lowering.Mechanical

namespace ThreeAddress.Lowering

open Checked Code

variable {s s' : State} {t : Temp} {env : Env} {span : Span}

def addressCode (array index word offset address : Temp) : List Instr :=
  [.constant word wordSize, .binary offset .multiply index word, .binary address .add array offset]

theorem addressOf_ok {array index : Temp} (h : addressOf array index s = .ok t s') :
    ∃ word offset,
      Emission s s' (addressCode array index word offset t) [word, offset, t] := by
  simp only [addressOf, bind_ok_iff] at h
  obtain ⟨word, s₁, hw, offset, s₂, ho, ht⟩ := h
  have ew := compute_ok (fun _ ↦ rfl) hw
  have eo := compute_ok (fun _ ↦ rfl) ho
  have et := compute_ok (fun _ ↦ rfl) ht
  exact ⟨word, offset, ew.trans (eo.trans et)⟩

theorem checkedAddress_ok {array index : Temp} (h : checkedAddress array index s = .ok t s') :
    ∃ word offset,
      Emission s s' (.checkBounds array index :: addressCode array index word offset t)
        [word, offset, t] := by
  simp only [checkedAddress, bind_ok_iff] at h
  obtain ⟨_, s₁, hc, ht⟩ := h
  obtain ⟨word, offset, et⟩ := addressOf_ok ht
  exact ⟨word, offset, (append_ok rfl hc).trans et⟩

/-- The result of the routine is `equal`; it is the result of the comparison, too, unless that asks
for a difference. -/
def compareCode (op : BinaryOp) (left right equal result : Temp) : List Instr :=
  [.param left, .param right, .call (some equal) Routine.stringEqual.name] ++
    if op = .notEqual then [.unary result .not equal] else []

theorem compareStrings_ok {op : BinaryOp} {left right : Temp}
    (h : compareStrings op left right span s = .ok t s') :
    ∃ equal, Emission s s' (compareCode op left right equal t)
      (if op = .notEqual then [equal, t] else [t]) ∧ (op ≠ .notEqual → equal = t) := by
  simp only [compareStrings, bind_ok_iff] at h
  obtain ⟨_, s₁, hl, _, s₂, hr, r, s₃, hc, equal, s₄, hd, h⟩ := h
  obtain ⟨rfl, rfl⟩ := demand_ok hd
  have e := (pass_ok hl).trans ((pass_ok hr).trans (callRoutine_ok hc).1)
  by_cases hop : op = .notEqual
  · simp only [if_pos hop] at h
    have et := compute_ok (fun _ ↦ rfl) h
    refine ⟨equal, ?_, fun hne ↦ absurd hop hne⟩
    simp only [compareCode, if_pos hop]
    exact e.trans et
  · simp only [if_neg hop, pure_ok_iff] at h
    obtain ⟨rfl, rfl⟩ := h
    refine ⟨equal, ?_, fun _ ↦ rfl⟩
    simp only [compareCode, if_neg hop]
    exact e

theorem forM_pass_ok {ts : List Temp} {a : Unit} (h : ts.forM pass s = .ok a s') :
    Emission s s' (ts.map .param) [] := by
  induction ts generalizing s with
  | nil =>
    obtain ⟨-, rfl⟩ := pure_ok_iff.mp h
    exact .refl s
  | cons t ts ih =>
    obtain ⟨_, s₁, ht, h⟩ := bind_ok_iff.mp h
    exact (pass_ok ht).trans (ih h)

theorem callMethod_static_ok {method : MethodSymbol} {args : List Temp} {result : Option Temp}
    (h : callMethod method none args s = .ok result s') :
    Emission s s' (args.map .param ++ [.call result method.label]) result.toList ∧
      (result = none ↔ method.returnType.isVoid) := by
  simp only [callMethod, bind_ok_iff] at h
  obtain ⟨_, s₁, hp, h⟩ := h
  obtain ⟨ec, hv⟩ := call_ok (fun _ ↦ rfl) h
  exact ⟨(forM_pass_ok hp).trans ec, hv⟩

theorem callMethod_virtual_ok {method : MethodSymbol} {receiver : Temp} {args : List Temp}
    {result : Option Temp} (h : callMethod method (some receiver) args s = .ok result s') :
    ∃ vtable callee,
      Emission s s' ((receiver :: args).map .param ++ [.load vtable receiver 0,
        .load callee vtable method.offset, .callTemp result callee])
        ([vtable, callee] ++ result.toList) ∧
      (result = none ↔ method.returnType.isVoid) := by
  simp only [callMethod, bind_ok_iff] at h
  obtain ⟨_, s₁, hp, vtable, s₂, hv, callee, s₃, hc, h⟩ := h
  obtain ⟨ec, hn⟩ := call_ok (fun _ ↦ rfl) h
  have el := (compute_ok (fun _ ↦ rfl) hv).trans ((compute_ok (fun _ ↦ rfl) hc).trans ec)
  exact ⟨vtable, callee, (forM_pass_ok hp).trans el, hn⟩

structure Guard where
  divisor : Temp
  message : Temp
  zero : Temp
  isZero : Temp
  nonzero : Label

namespace Guard

def test (g : Guard) : List Instr :=
  [.string g.message divisionMessage, .constant g.zero 0, .binary g.isZero .equal g.divisor g.zero]

def code (g : Guard) : List Instr :=
  g.test ++ [.jumpIfZero g.isZero g.nonzero, .param g.message,
    .call none Routine.printString.name, .call none Routine.halt.name, .label g.nonzero]

def temps (g : Guard) : List Temp := [g.message, g.zero, g.isZero]

end Guard

theorem guardDivisor_ok {divisor : Temp} {a : Unit} (h : guardDivisor divisor s = .ok a s') :
    ∃ g : Guard, g.divisor = divisor ∧ Emission s s' g.code g.temps ∧
      IssuedLabel s g.nonzero s' := by
  simp only [guardDivisor, bind_ok_iff] at h
  obtain ⟨message, s₁, hm, nonzero, s₂, hn, zero, s₃, hz, isZero, s₄, hq, _, s₅, hj, _, s₆, hp,
    r, s₇, hr, r', s₈, hr', hl⟩ := h
  have em := compute_ok (fun _ ↦ rfl) hm
  obtain ⟨en, inz, -⟩ := freshLabel_ok hn
  have ez := compute_ok (fun _ ↦ rfl) hz
  have eq := compute_ok (fun _ ↦ rfl) hq
  have ej := append_ok rfl hj
  have ep := pass_ok hp
  obtain ⟨er, hnone⟩ := callRoutine_ok hr
  obtain ⟨er', hnone'⟩ := callRoutine_ok hr'
  obtain rfl := hnone.mpr rfl
  obtain rfl := hnone'.mpr rfl
  have el := place_ok hl
  have rest := ez.trans (eq.trans (ej.trans (ep.trans (er.trans (er'.trans el)))))
  exact ⟨⟨divisor, message, zero, isZero, nonzero⟩, rfl, em.trans (en.trans rest),
    inz.widen em rest⟩

/-- One temporary per field carries the field over. -/
def copyCode (object clone : Temp) : List Int32 → List Temp → List Instr
  | offset :: offsets, field :: fields =>
    .load field object offset :: .store field clone offset :: copyCode object clone offsets fields
  | _, _ => []

structure Clone where
  symbol : ClassSymbol
  object : Temp
  size : Temp
  result : Temp
  fields : List Temp
  vtable : Temp

namespace Clone

def code (c : Clone) : List Instr :=
  [.constant c.size c.symbol.size, .param c.size, .call (some c.result) Routine.allocate.name] ++
    (copyCode c.object c.result (fieldOffsets c.symbol.size) c.fields ++
    [.vtable c.vtable c.symbol.vtable, .store c.vtable c.result 0])

def temps (c : Clone) : List Temp := [c.size, c.result] ++ (c.fields ++ [c.vtable])

end Clone

theorem forM_copyField_ok {object clone : Temp} {offsets : List Int32} {a : Unit}
    (h : offsets.forM (copyField object clone) s = .ok a s') :
    ∃ fields : List Temp, fields.length = offsets.length ∧
      Emission s s' (copyCode object clone offsets fields) fields := by
  induction offsets generalizing s with
  | nil =>
    obtain ⟨-, rfl⟩ := pure_ok_iff.mp h
    exact ⟨[], rfl, .refl s⟩
  | cons offset offsets ih =>
    obtain ⟨_, s₁, hf, h⟩ := bind_ok_iff.mp h
    simp only [copyField, bind_ok_iff] at hf
    obtain ⟨field, s₂, hl, hs⟩ := hf
    obtain ⟨fields, hlen, e⟩ := ih h
    have ef := (compute_ok (fun _ ↦ rfl) hl).trans (append_ok rfl hs)
    exact ⟨field :: fields, by simp [hlen], ef.trans e⟩

theorem cloneObject_ok {object : Temp} {c : ClassId}
    (h : cloneObject env object c span s = .ok t s') :
    ∃ k : Clone, env.symbols.class? c = some k.symbol ∧ k.object = object ∧ k.result = t ∧
      k.fields.length = (fieldOffsets k.symbol.size).length ∧ Emission s s' k.code k.temps := by
  simp only [cloneObject, bind_ok_iff, pure_ok_iff] at h
  obtain ⟨symbol, s₁, hc, size, s₂, hz, _, s₃, hp, r, s₄, hr, clone, s₅, hd, _, s₆, hf, vtable, s₇,
    hv, _, s₈, hs, rfl, rfl⟩ := h
  obtain ⟨hsymbol, rfl⟩ := Env.findClass_ok hc
  obtain ⟨rfl, rfl⟩ := demand_ok hd
  obtain ⟨fields, hlen, ef⟩ := forM_copyField_ok hf
  have ea := (compute_ok (fun _ ↦ rfl) hz).trans ((pass_ok hp).trans (callRoutine_ok hr).1)
  have ev := (compute_ok (fun _ ↦ rfl) hv).trans (append_ok rfl hs)
  exact ⟨⟨symbol, object, size, clone, fields, vtable⟩, hsymbol, rfl, rfl, hlen,
    ea.trans (ef.trans ev)⟩

/-- The value to be stored: the element itself, or a copy of it where it is an object. -/
inductive Stored (env : Env) (type : DataType) (element : Temp) :
    List Instr → List Temp → Temp → Prop
  | plain (h : type.class? = none) : Stored env type element [] [] element
  | cloned {c : ClassId} (k : Clone) (h : type.class? = some c)
      (hs : env.symbols.class? c = some k.symbol) (ho : k.object = element)
      (hf : k.fields.length = (fieldOffsets k.symbol.size).length) :
      Stored env type element k.code k.temps k.result

theorem cloneIfObject_ok {element : Temp} {type : DataType}
    (h : cloneIfObject env element type span s = .ok t s') :
    ∃ code ts, Stored env type element code ts t ∧ Emission s s' code ts := by
  unfold cloneIfObject at h
  cases hc : type.class? with
  | none =>
    rw [hc] at h
    obtain ⟨rfl, rfl⟩ := pure_ok_iff.mp h
    exact ⟨[], [], .plain hc, .refl s⟩
  | some c =>
    rw [hc] at h
    obtain ⟨k, hs, ho, rfl, hf, e⟩ := cloneObject_ok h
    exact ⟨k.code, k.temps, .cloned k hc hs ho hf, e⟩

structure Fill where
  count : Temp
  array : Temp
  word : Temp
  one : Temp
  index : Temp
  cursor : Temp
  more : Temp
  stored : Temp
  nextCursor : Temp
  nextIndex : Temp
  fill : Label
  filled : Label
  store : List Instr
  storeTemps : List Temp

namespace Fill

def setup (f : Fill) : List Instr :=
  [.newArray f.array f.count, .constant f.word wordSize, .constant f.one 1, .constant f.index 0,
    .copy f.cursor f.array]

def test (f : Fill) : List Instr :=
  [.binary f.more .less f.index f.count, .jumpIfZero f.more f.filled]

def advance (f : Fill) : List Instr :=
  [.store f.stored f.cursor 0, .binary f.nextCursor .add f.cursor f.word,
    .copy f.cursor f.nextCursor, .binary f.nextIndex .add f.index f.one, .copy f.index f.nextIndex]

def loop (f : Fill) : List Instr :=
  f.test ++ (f.store ++ (f.advance ++ [.jump f.fill, .label f.filled]))

def code (f : Fill) : List Instr := f.setup ++ .label f.fill :: f.loop

def temps (f : Fill) : List Temp :=
  [f.array, f.word, f.one, f.index, f.cursor, f.more] ++ (f.storeTemps ++
    [f.nextCursor, f.nextIndex])

end Fill

theorem fillArray_ok {element count : Temp} {type : DataType}
    (h : fillArray env element count type span s = .ok t s') :
    ∃ f : Fill, f.count = count ∧ f.array = t ∧
      Stored env type element f.store f.storeTemps f.stored ∧ Emission s s' f.code f.temps ∧
      IssuedLabel s f.fill s' ∧ IssuedLabel s f.filled s' := by
  simp only [fillArray, openFill, FillLoop.store, closeLoop, bind_ok_iff, pure_ok_iff] at h
  obtain ⟨loop, s₁₁, hopen, stored, s₁₂, hs, _, s₁₉, hstore, rfl, rfl⟩ := h
  obtain ⟨array, s₁, ha, fill, s₂, hfill, filled, s₃, hfilled, word, s₄, hw, hopen⟩ := hopen
  obtain ⟨one, s₅, ho, index, s₆, hi, cursor, s₇, hc, _, s₈, hcopy, _, s₉, hplace, hopen⟩ := hopen
  obtain ⟨more, s₁₀, hm, _, _, hj, rfl, rfl⟩ := hopen
  obtain ⟨_, s₁₃, hst, nextCursor, s₁₄, hnc, _, s₁₅, hcc, nextIndex, s₁₆, hni, hstore⟩ := hstore
  obtain ⟨_, s₁₇, hci, _, s₁₈, hjump, hend⟩ := hstore
  have ea := compute_ok (fun _ ↦ rfl) ha
  obtain ⟨efill, ifill, -⟩ := freshLabel_ok hfill
  obtain ⟨efilled, ifilled, -⟩ := freshLabel_ok hfilled
  obtain ⟨store, storeTemps, hstored, es⟩ := cloneIfObject_ok hs
  have esetup := (compute_ok (fun _ ↦ rfl) hw).trans ((compute_ok (fun _ ↦ rfl) ho).trans
    ((compute_ok (fun _ ↦ rfl) hi).trans ((freshTemp_ok hc).trans (append_ok rfl hcopy))))
  have etest := (place_ok hplace).trans ((compute_ok (fun _ ↦ rfl) hm).trans (append_ok rfl hj))
  have eadvance := (append_ok rfl hst).trans ((compute_ok (fun _ ↦ rfl) hnc).trans
    ((append_ok rfl hcc).trans ((compute_ok (fun _ ↦ rfl) hni).trans (append_ok rfl hci))))
  have eend := (append_ok rfl hjump).trans (place_ok hend)
  have eloop := esetup.trans (etest.trans (es.trans (eadvance.trans eend)))
  exact ⟨⟨count, array, word, one, index, cursor, more, stored, nextCursor, nextIndex, fill, filled,
    store, storeTemps⟩, rfl, rfl, hstored, ea.trans (efill.trans (efilled.trans eloop)),
    ifill.widen ea (efilled.trans eloop), ifilled.widen (ea.trans efill) eloop⟩

structure ReadOr where
  array : Temp
  index : Temp
  fallback : Temp
  length : Temp
  result : Temp
  below : Temp
  zero : Temp
  negative : Temp
  word : Temp
  offset : Temp
  address : Temp
  element : Temp
  useDefault : Label
  inBounds : Label
  done : Label

namespace ReadOr

def test (r : ReadOr) : List Instr :=
  [.load r.length r.array lengthOffset, .binary r.below .less r.index r.length,
    .jumpIfZero r.below r.useDefault, .constant r.zero 0, .binary r.negative .less r.index r.zero,
    .jumpIfZero r.negative r.inBounds]

def read (r : ReadOr) : List Instr :=
  addressCode r.array r.index r.word r.offset r.address ++
    [.load r.element r.address 0, .copy r.result r.element]

def code (r : ReadOr) : List Instr :=
  r.test ++ (.label r.useDefault :: .copy r.result r.fallback :: .jump r.done ::
    .label r.inBounds :: (r.read ++ [.label r.done]))

def temps (r : ReadOr) : List Temp :=
  [r.length, r.result, r.below, r.zero, r.negative, r.word, r.offset, r.address, r.element]

end ReadOr

theorem readOr_ok {array index fallback : Temp} (h : readOr array index fallback s = .ok t s') :
    ∃ r : ReadOr, r.array = array ∧ r.index = index ∧ r.fallback = fallback ∧ r.result = t ∧
      Emission s s' r.code r.temps ∧ IssuedLabel s r.useDefault s' ∧
      IssuedLabel s r.inBounds s' ∧ IssuedLabel s r.done s' := by
  simp only [readOr, loadLength, bind_ok_iff, pure_ok_iff] at h
  obtain ⟨length, s₁, hlen, result, s₂, hr, useDefault, s₃, hu, inBounds, s₄, hi, h⟩ := h
  obtain ⟨done, s₅, hd, below, s₆, hb, _, s₇, hj, zero, s₈, hz, negative, s₉, hn, h⟩ := h
  obtain ⟨_, s₁₀, hj', _, s₁₁, hpu, _, s₁₂, hcf, _, s₁₃, hjd, _, s₁₄, hpi, h⟩ := h
  obtain ⟨address, s₁₅, ha, element, s₁₆, he, _, s₁₇, hce, _, s₁₈, hpd, rfl, rfl⟩ := h
  have elen := (compute_ok (fun _ ↦ rfl) hlen).trans (freshTemp_ok hr)
  obtain ⟨eu, iu, -⟩ := freshLabel_ok hu
  obtain ⟨ei, ii, -⟩ := freshLabel_ok hi
  obtain ⟨ed, id, -⟩ := freshLabel_ok hd
  obtain ⟨word, offset, eaddress⟩ := addressOf_ok ha
  have etest := (compute_ok (fun _ ↦ rfl) hb).trans ((append_ok rfl hj).trans
    ((compute_ok (fun _ ↦ rfl) hz).trans ((compute_ok (fun _ ↦ rfl) hn).trans (append_ok rfl hj'))))
  have edefault := (place_ok hpu).trans ((append_ok rfl hcf).trans (append_ok rfl hjd))
  have eread := eaddress.trans ((compute_ok (fun _ ↦ rfl) he).trans (append_ok rfl hce))
  have rest := etest.trans (edefault.trans ((place_ok hpi).trans (eread.trans (place_ok hpd))))
  exact ⟨⟨array, index, fallback, length, result, below, zero, negative, word, offset, address,
    element, useDefault, inBounds, done⟩, rfl, rfl, rfl, rfl,
    elen.trans (eu.trans (ei.trans (ed.trans rest))), iu.widen elen (ei.trans (ed.trans rest)),
    ii.widen (elen.trans eu) (ed.trans rest), id.widen (elen.trans (eu.trans ei)) rest⟩

namespace ArrayLoop

def setup (e : ArrayLoop) (array : Temp) : List Instr :=
  [.constant e.word wordSize, .constant e.one 1, .copy e.cursor array,
    .load e.length array lengthOffset, .constant e.index 0]

def test (e : ArrayLoop) : List Instr :=
  [.binary e.more .less e.index e.length, .binary e.nextIndex .add e.index e.one,
    .copy e.index e.nextIndex, .jumpIfZero e.more e.leave]

def fetch (e : ArrayLoop) : List Instr :=
  [.load e.current e.cursor 0, .copy e.element e.current]

def head (e : ArrayLoop) (array : Temp) : List Instr :=
  e.setup array ++ .label e.again :: (e.test ++ e.fetch)

def temps (e : ArrayLoop) : List Temp :=
  [e.word, e.one, e.cursor, e.length, e.index, e.more, e.nextIndex, e.current]

end ArrayLoop

theorem openEach_ok {element array : Temp} {e : ArrayLoop}
    (h : openEach element array s = .ok e s') :
    e.element = element ∧ Emission s s' (e.head array) e.temps ∧ IssuedLabel s e.again s' ∧
      IssuedLabel s e.leave s' := by
  simp only [openEach, loadLength, bind_ok_iff, pure_ok_iff] at h
  obtain ⟨again, s₁, hg, leave, s₂, hl, word, s₃, hw, one, s₄, ho, cursor, s₅, hc, h⟩ := h
  obtain ⟨_, s₆, hcopy, length, s₇, hlen, index, s₈, hi, _, s₉, hp, more, s₁₀, hm, h⟩ := h
  obtain ⟨nextIndex, s₁₁, hn, _, s₁₂, hci, _, s₁₃, hj, current, s₁₄, hcur, _, s₁₅, hce, rfl,
    rfl⟩ := h
  obtain ⟨eg, hg, -⟩ := freshLabel_ok hg
  obtain ⟨el, hl, -⟩ := freshLabel_ok hl
  have esetup := (compute_ok (fun _ ↦ rfl) hw).trans ((compute_ok (fun _ ↦ rfl) ho).trans
    ((freshTemp_ok hc).trans ((append_ok rfl hcopy).trans ((compute_ok (fun _ ↦ rfl) hlen).trans
    (compute_ok (fun _ ↦ rfl) hi)))))
  have etest := (place_ok hp).trans ((compute_ok (fun _ ↦ rfl) hm).trans
    ((compute_ok (fun _ ↦ rfl) hn).trans ((append_ok rfl hci).trans (append_ok rfl hj))))
  have efetch := (compute_ok (fun _ ↦ rfl) hcur).trans (append_ok rfl hce)
  have eloop := esetup.trans (etest.trans efetch)
  exact ⟨rfl, eg.trans (el.trans eloop), hg.widen (.refl _) (el.trans eloop), hl.widen eg eloop⟩

theorem advance_ok {e : ArrayLoop} (h : e.advance s = .ok t s') :
    Emission s s' [.binary t .add e.cursor e.word, .copy e.cursor t] [t] := by
  simp only [ArrayLoop.advance, bind_ok_iff, pure_ok_iff] at h
  obtain ⟨next, s₁, hn, _, s₂, hc, rfl, rfl⟩ := h
  exact (compute_ok (fun _ ↦ rfl) hn).trans (append_ok rfl hc)

theorem closeLoop_ok {again leave : Label} {a : Unit} (h : closeLoop again leave s = .ok a s') :
    Emission s s' [.jump again, .label leave] [] := by
  obtain ⟨_, s₁, hj, hl⟩ := bind_ok_iff.mp h
  exact (append_ok rfl hj).trans (place_ok hl)

end ThreeAddress.Lowering
