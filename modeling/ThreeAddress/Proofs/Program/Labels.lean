import ThreeAddress.Proofs.Program.Method

namespace ThreeAddress.Code

/-- A label occurs in a function where it is placed and where it is jumped to. -/
def Function.Names (f : Function) (l : Label) : Prop :=
  l ∈ labels f.body.toList ∨ l ∈ targets f.body.toList

end ThreeAddress.Code

namespace ThreeAddress.Lowering

open Checked Code Control

variable {symbols : SymbolTable} {m : MethodDef} {f : Function} {g : Generator} {s s' : State}

theorem lowerMethod_labels (h : lowerMethod symbols m { generator := g } = .ok f s') :
    Closed none { generator := g } s' f.body.toList ∧ (labels f.body.toList).Nodup := by
  obtain ⟨⟨o, _⟩, ho, rfl⟩ := (outlineMethod_refines symbols m).ok h
  obtain ⟨receiver, s₁, s₂, hopen, hl, hbody, -, hissued⟩ := outlineMethod_ok ho
  rw [hbody]
  refine ⟨⟨fun l hm ↦ ?_, hl.closed.placed, hl.closed.targeted⟩, hl.emission.labels_nodup⟩
  obtain ⟨hlow, hhigh⟩ := hl.closed.issued l hm
  exact ⟨(hopen.issued_le l.stem).trans_lt hlow, hissued ▸ hhigh⟩

theorem lowerMethod_issued_le (h : lowerMethod symbols m { generator := g } = .ok f s')
    (stem : String) : g.issued stem ≤ s'.issued stem := by
  obtain ⟨⟨o, _⟩, ho, rfl⟩ := (outlineMethod_refines symbols m).ok h
  obtain ⟨receiver, s₁, s₂, hopen, hl, -, -, hissued⟩ := outlineMethod_ok ho
  rw [hissued]
  exact (hopen.issued_le stem).trans (hl.emission.issued_le stem)

/-- What holds of the functions of a run without defects. The counts of the generator bound their
labels, so that those of the next function are new. -/
structure Labelled (done : Progress) : Prop where
  named : ∀ f ∈ done.functions, ∀ l, l ∈ targets f.body.toList ↔ l ∈ labels f.body.toList
  nodup : ∀ f ∈ done.functions, (labels f.body.toList).Nodup
  issued : ∀ f ∈ done.functions, ∀ l ∈ labels f.body.toList,
    l.number ≤ done.generator.issued l.stem
  apart : done.functions.Pairwise fun f f' ↦ ∀ l ∈ labels f.body.toList, l ∉ labels f'.body.toList

theorem Labelled.add {done : Progress} (h : Labelled done)
    (hm : lowerMethod symbols m { generator := done.generator } = .ok f s') :
    Labelled { done with generator := s'.generator, functions := done.functions ++ [f] } := by
  obtain ⟨hc, hd⟩ := lowerMethod_labels hm
  have hle := lowerMethod_issued_le hm
  have hnew (l : Label) (hl : l ∈ labels f.body.toList) :
      done.generator.issued l.stem < l.number ∧ l.number ≤ s'.generator.issued l.stem :=
    hc.issued l hl
  constructor
  · intro f' hf l
    rcases List.mem_append.mp hf with hf | hf
    · exact h.named f' hf l
    · obtain rfl := List.mem_singleton.mp hf
      exact ⟨fun hl ↦ (hc.placed l hl).resolve_right (by simp), hc.targeted l⟩
  · intro f' hf
    rcases List.mem_append.mp hf with hf | hf
    · exact h.nodup f' hf
    · obtain rfl := List.mem_singleton.mp hf
      exact hd
  · intro f' hf l hl
    rcases List.mem_append.mp hf with hf | hf
    · exact (h.issued f' hf l hl).trans (hle l.stem)
    · obtain rfl := List.mem_singleton.mp hf
      exact (hnew l hl).2
  · refine List.pairwise_append.mpr ⟨h.apart, List.pairwise_singleton _ f, ?_⟩
    intro f' hf f'' hf'' l hl hl'
    obtain rfl := List.mem_singleton.mp hf''
    have hold := h.issued f' hf l hl
    have hlow := (hnew l hl').1
    omega

theorem reached_labelled {ms : List MethodDef} {done : Progress} (h : Reached symbols ms done) :
    done.defects = [] → Labelled done := by
  induction h with
  | start => exact fun _ ↦ ⟨by simp, by simp, by simp, .nil⟩
  | noted event h ih => exact fun hd ↦ ⟨(ih hd).named, (ih hd).nodup, (ih hd).issued, (ih hd).apart⟩
  | added c h ha ih =>
    intro hd
    obtain ⟨hdefects, f, s, hm, rfl⟩ := added_function ha hd
    exact (ih hdefects).add hm

end ThreeAddress.Lowering

namespace ThreeAddress.Checked

open Code Lowering

theorem CheckedUnit.lower_labelled {u : CheckedUnit} {p : Code.Program}
    (h : u.lower = .ok (.ok p)) :
    ∃ done, Labelled done ∧ done.functions = p.functions := by
  obtain ⟨done, hr, hd, hp⟩ := u.lower_reached h
  exact ⟨done, reached_labelled hr hd, hp⟩

/-- Jumps stay within their function and have one place to go to, and the listing tells labels
apart. -/
theorem CheckedUnit.lower_labels_wellFormed {u : CheckedUnit} {p : Code.Program}
    (h : u.lower = .ok (.ok p)) :
    (∀ f ∈ p.functions, (∀ l, l ∈ targets f.body.toList ↔ l ∈ labels f.body.toList) ∧
      (labels f.body.toList).Nodup) ∧
    (p.functions.Pairwise fun f f' ↦ ∀ l, f.Names l → ¬ f'.Names l) ∧
    ∀ f ∈ p.functions, ∀ f' ∈ p.functions, ∀ l l', f.Names l → f'.Names l' → l ≠ l' →
      l.text ≠ l'.text := by
  obtain ⟨done, hd, hp⟩ := CheckedUnit.lower_labelled h
  rw [← hp]
  refine ⟨fun f hf ↦ ⟨hd.named f hf, hd.nodup f hf⟩, ?_, fun _ _ _ _ _ _ _ _ hne ht ↦
    hne (Label.text_injective ht)⟩
  have hplaced (f : Function) (hf : f ∈ done.functions) (l : Label) (hl : f.Names l) :
      l ∈ labels f.body.toList := hl.elim id (hd.named f hf l).mp
  refine hd.apart.imp_of_mem fun {f f'} hf hf' hapart l hl hl' ↦ ?_
  exact hapart l (hplaced f hf l hl) (hplaced f' hf' l hl')

def scanSymbols : SymbolTable where
  methods := #[⟨"scan", ⟨0⟩, "Main.scan", 0, .int, true, none, [⟨0⟩]⟩,
    ⟨"spin", ⟨0⟩, "Main.spin", 0, .void, true, none, []⟩]
  vars := #[⟨"a", .param, .array .int, 0⟩, ⟨"x", .localVar, .int, 0⟩]

/-- Looks for an element below ten in front of the first zero. -/
def scan : MethodDef where
  name := "scan"
  method := ⟨0⟩
  body :=
    let x : Expr := .mk (.ident none ⟨1⟩) .int .localVar {}
    let ten : Expr := .mk (.literal (.int 10)) .int .notLValue {}
    let below : Expr := .mk (.binary .less x ten) .bool .notLValue {}
    [.mk (.forEach ⟨1⟩ (.mk (.ident none ⟨0⟩) (.array .int) .paramVar {}) (some x)
      (.mk (.cond below (.mk .leave {}) none) {})) {}, .mk (.ret (some x)) {}]
  span := {}

def spin : MethodDef where
  name := "spin"
  method := ⟨1⟩
  body := [.mk (.whileLoop (.mk (.literal (.bool true)) .bool .notLValue {}) (.mk .leave {})) {}]
  span := {}

def scanUnit : CheckedUnit := ⟨⟨[⟨"Main", ⟨0⟩, [scan, spin], {}⟩]⟩, scanSymbols⟩

def scanProgram : Code.Program where
  functions := [
    { name := "Main.scan"
      params := [⟨1⟩]
      body := #[.constant ⟨3⟩ 4, .constant ⟨4⟩ 1, .copy ⟨5⟩ ⟨1⟩, .load ⟨6⟩ ⟨1⟩ (-4),
        .constant ⟨7⟩ 0, .label ⟨"loop", 1⟩, .binary ⟨8⟩ .less ⟨7⟩ ⟨6⟩, .binary ⟨9⟩ .add ⟨7⟩ ⟨4⟩,
        .copy ⟨7⟩ ⟨9⟩, .jumpIfZero ⟨8⟩ ⟨"loop_exit", 1⟩, .load ⟨10⟩ ⟨5⟩ 0, .copy ⟨2⟩ ⟨10⟩,
        .jumpIfZero ⟨2⟩ ⟨"loop_exit", 1⟩, .binary ⟨11⟩ .add ⟨5⟩ ⟨3⟩, .copy ⟨5⟩ ⟨11⟩,
        .constant ⟨12⟩ 10, .binary ⟨13⟩ .less ⟨2⟩ ⟨12⟩, .jumpIfZero ⟨13⟩ ⟨"if_end", 1⟩,
        .jump ⟨"loop_exit", 1⟩, .label ⟨"if_end", 1⟩, .jump ⟨"loop", 1⟩, .label ⟨"loop_exit", 1⟩,
        .ret (some ⟨2⟩)] },
    { name := "Main.spin"
      body := #[.label ⟨"loop", 2⟩, .constant ⟨14⟩ 1, .jumpIfZero ⟨14⟩ ⟨"loop_exit", 2⟩,
        .jump ⟨"loop_exit", 2⟩, .jump ⟨"loop", 2⟩, .label ⟨"loop_exit", 2⟩] }]

theorem scanUnit_labels_wellFormed :
    scanUnit.lower = .ok (.ok scanProgram) ∧
    (∀ f ∈ scanProgram.functions, (∀ l, l ∈ targets f.body.toList ↔ l ∈ labels f.body.toList) ∧
      (labels f.body.toList).Nodup) ∧
    (scanProgram.functions.Pairwise fun f f' ↦ ∀ l, f.Names l → ¬ f'.Names l) ∧
    ∀ f ∈ scanProgram.functions, ∀ f' ∈ scanProgram.functions, ∀ l l', f.Names l → f'.Names l' →
      l ≠ l' → l.text ≠ l'.text := by
  have h : scanUnit.lower = .ok (.ok scanProgram) := by decide +kernel
  exact ⟨h, CheckedUnit.lower_labels_wellFormed h⟩

end ThreeAddress.Checked
