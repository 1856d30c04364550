import ThreeAddress.Checked.Read
import ThreeAddress.Checked.Write
import ThreeAddress.Proofs.Json.Reading

namespace ThreeAddress.Checked

open Json

variable {n : Nat}

theorem Span.reads (s : Span) : Reads n Span.reader s.value s :=
  .record (.cons (.index _) (.cons (.index _) .nil)) (by simp) rfl

theorem ClassId.reads (c : ClassId) : Reads n ClassId.reader c.value c := (Reads.index _).map _

theorem MethodId.reads (m : MethodId) : Reads n MethodId.reader m.value m := (Reads.index _).map _

theorem VarId.reads (v : VarId) : Reads n VarId.reader v.value v := (Reads.index _).map _

theorem DataType.readsIn : (t : DataType) → (n : Nat) → Reads n (DataType.readerIn n) t.value t
  | _, 0 => .zero _ _ _
  | .void, _ + 1 => .bare rfl
  | .null, _ + 1 => .bare rfl
  | .int, _ + 1 => .bare rfl
  | .bool, _ + 1 => .bare rfl
  | .string, _ + 1 => .bare rfl
  | .object c, _ + 1 => .filled rfl (.inl rfl) (c.reads.map _)
  | .array element, n + 1 => .filled_succ rfl (.inl rfl) ((element.readsIn n).map _)

theorem DataType.reads (t : DataType) : Reads n DataType.reader t.value t := .ofRounds t.readsIn

theorem Literal.reads (l : Literal) : Reads n Literal.reader l.value l := by
  cases l with
  | int k => exact .filled rfl (.inl rfl) ((Reads.word k).map _)
  | bool b => exact .filled rfl (.inl rfl) ((Reads.flag b).map _)
  | string s => exact .filled rfl (.inl rfl) ((Reads.text s).map _)

theorem BinaryOp.reads (op : BinaryOp) : Reads n BinaryOp.reader op.value op := by
  cases op <;> exact .bare rfl

theorem UnaryOp.reads (op : UnaryOp) : Reads n UnaryOp.reader op.value op := by
  cases op <;> exact .bare rfl

theorem LValue.reads (l : LValue) : Reads n LValue.reader l.value l := by
  cases l <;> exact .bare rfl

theorem recordCase_reads {α : Type} {αs : List Type} {cases : List (Case α)} {sum name : String}
    {fields : Fields αs} {build : Curried αs α} {members : List (String × Value)}
    {values : Values αs} {a : α}
    (hc : cases.find? (·.name = name) = some (recordCase sum name fields build))
    (h : Fills n fields members values) (hn : (members.map Prod.fst).Nodup)
    (ha : build.apply values = a) :
    Reads n (.sum cases) (filled name (.object members)) a :=
  .filled hc (.inr rfl) (.record h hn ha)

theorem Expr.value_ne_null (e : Expr) : e.value ≠ .null := by
  cases e
  simp [Expr.value]

mutual

theorem Expr.readsIn : (e : Expr) → (n : Nat) → Reads n (Expr.readerIn n) e.value e
  | _, 0 => .zero _ _ _
  | .mk kind type lvalue span, n + 1 =>
    .record_succ (.cons (kind.readsIn n) (.cons type.reads (.cons lvalue.reads
      (.cons span.reads .nil)))) (by simp) rfl

theorem ExprKind.readsIn : (kind : ExprKind) → (n : Nat) →
    Reads n (ExprKind.readerWith (Expr.readerIn n)) kind.value kind
  | .literal l, _ => .filled rfl (.inl rfl) (l.reads.map _)
  | .null, _ => .bare rfl
  | .this, _ => .bare rfl
  | .readInteger, _ => .bare rfl
  | .readLine, _ => .bare rfl
  | .ident owner symbol, n =>
    recordCase_reads rfl (.cons (Expr.readsOption owner n) (.cons symbol.reads .nil)) (by simp) rfl
  | .indexed array index, n =>
    recordCase_reads rfl (.cons (array.readsIn n) (.cons (index.readsIn n) .nil)) (by simp) rfl
  | .call c, n => .filled rfl (.inl rfl) ((c.readsIn n).map _)
  | .arrayLength array, n => .filled rfl (.inl rfl) ((array.readsIn n).map _)
  | .binary op left right, n =>
    recordCase_reads rfl (.cons op.reads (.cons (left.readsIn n) (.cons (right.readsIn n) .nil)))
      (by simp) rfl
  | .unary op operand, n =>
    recordCase_reads rfl (.cons op.reads (.cons (operand.readsIn n) .nil)) (by simp) rfl
  | .newClass c, _ => .filled rfl (.inl rfl) (c.reads.map _)
  | .newArray element length, n =>
    recordCase_reads rfl (.cons element.reads (.cons (length.readsIn n) .nil)) (by simp) rfl
  | .instanceOf object c, n =>
    recordCase_reads rfl (.cons (object.readsIn n) (.cons c.reads .nil)) (by simp) rfl
  | .cast object c, n =>
    recordCase_reads rfl (.cons (object.readsIn n) (.cons c.reads .nil)) (by simp) rfl
  | .shallowCopy source, n => .filled rfl (.inl rfl) ((source.readsIn n).map _)
  | .newSameArray value count, n =>
    recordCase_reads rfl (.cons (value.readsIn n) (.cons (count.readsIn n) .nil)) (by simp) rfl
  | .defaultIndex array index default, n =>
    recordCase_reads rfl (.cons (array.readsIn n) (.cons (index.readsIn n)
      (.cons (default.readsIn n) .nil))) (by simp) rfl
  | .varBinding symbol, _ => .filled rfl (.inl rfl) (symbol.reads.map _)

theorem Call.readsIn : (c : Call) → (n : Nat) →
    Reads n (Call.readerWith (Expr.readerIn n)) c.value c
  | .mk receiver method args, n =>
    .record (.cons (Expr.readsOption receiver n) (.cons method.reads
      (.cons (Reads.list (Expr.readsAll args n)) .nil))) (by simp) rfl

theorem Expr.readsOption : (e : Option Expr) → (n : Nat) →
    Reads n (Expr.readerIn n).optional (exprOptionValue e) e
  | none, _ => .absent _
  | some e, n => (e.readsIn n).present e.value_ne_null

theorem Expr.readsAll : (es : List Expr) → (n : Nat) →
    List.Forall₂ (Reads n (Expr.readerIn n)) (exprValues es) es
  | [], _ => .nil
  | e :: es, n => .cons (e.readsIn n) (Expr.readsAll es n)

end

theorem Expr.reads (e : Expr) : Reads n Expr.reader e.value e := .ofRounds e.readsIn

theorem Expr.readsEach (es : List Expr) :
    List.Forall₂ (Reads n Expr.reader) (exprValues es) es := by
  induction es with
  | nil => exact .nil
  | cons e es ih => exact .cons e.reads ih

theorem Expr.readsOptional (e : Option Expr) :
    Reads n Expr.reader.optional (exprOptionValue e) e := .ofRounds (Expr.readsOption e)

theorem Stmt.value_ne_null (s : Stmt) : s.value ≠ .null := by
  cases s
  simp [Stmt.value]

theorem blockReader_reads {r : Reader Stmt} {values : List Value} {statements : List Stmt}
    (h : List.Forall₂ (Reads n r) values statements) :
    Reads n (blockReader r) (.object [("statements", .array values)]) statements :=
  .record (.cons (Reads.list h) .nil) (by simp) rfl

mutual

theorem Stmt.readsIn : (s : Stmt) → (n : Nat) → Reads n (Stmt.readerIn n) s.value s
  | _, 0 => .zero _ _ _
  | .mk kind span, n + 1 =>
    .record_succ (.cons (kind.readsIn n)
      (.cons span.reads .nil)) (by simp) rfl

theorem StmtKind.readsIn : (kind : StmtKind) → (n : Nat) →
    Reads n (StmtKind.readerWith (Stmt.readerIn n)) kind.value kind
  | .varDef symbol, _ => .filled rfl (.inl rfl) (symbol.reads.map _)
  | .block statements, n =>
    .filled rfl (.inl rfl) ((blockReader_reads (Stmt.readsAll statements n)).map _)
  | .exec e, _ => .filled rfl (.inl rfl) (e.reads.map _)
  | .assign target value, _ =>
    recordCase_reads rfl (.cons target.reads (.cons value.reads .nil)) (by simp) rfl
  | .cond condition thenBranch elseBranch, n =>
    recordCase_reads rfl (.cons condition.reads (.cons (thenBranch.readsIn n)
      (.cons (Stmt.readsOption elseBranch n) .nil))) (by simp) rfl
  | .whileLoop condition body, n =>
    recordCase_reads rfl (.cons condition.reads (.cons (body.readsIn n) .nil)) (by simp) rfl
  | .forLoop init condition update body, n =>
    recordCase_reads rfl (.cons (Stmt.readsOption init n) (.cons condition.reads
      (.cons (Stmt.readsOption update n) (.cons (body.readsIn n) .nil)))) (by simp) rfl
  | .forEach binding array guard body, n =>
    recordCase_reads rfl (.cons binding.reads (.cons array.reads
      (.cons (Expr.readsOptional guard) (.cons (body.readsIn n) .nil)))) (by simp) rfl
  | .ret value, _ => .filled rfl (.inl rfl) ((Expr.readsOptional value).map _)
  | .leave, _ => .bare rfl
  | .print args, _ => .filled rfl (.inl rfl) ((Reads.list (Expr.readsEach args)).map _)
  | .guarded alternatives last, n =>
    recordCase_reads rfl (.cons (Reads.list (Branch.readsAll alternatives n))
      (.cons (last.readsIn n) .nil)) (by simp) rfl

theorem Branch.readsIn : (b : Branch) → (n : Nat) →
    Reads n (Branch.readerWith (Stmt.readerIn n)) b.value b
  | .mk guard body, n =>
    .record (.cons guard.reads (.cons (body.readsIn n) .nil)) (by simp) rfl

theorem Stmt.readsOption : (s : Option Stmt) → (n : Nat) →
    Reads n (Stmt.readerIn n).optional (stmtOptionValue s) s
  | none, _ => .absent _
  | some s, n => (s.readsIn n).present s.value_ne_null

theorem Stmt.readsAll : (ss : List Stmt) → (n : Nat) →
    List.Forall₂ (Reads n (Stmt.readerIn n)) (stmtValues ss) ss
  | [], _ => .nil
  | s :: ss, n => .cons (s.readsIn n) (Stmt.readsAll ss n)

theorem Branch.readsAll : (bs : List Branch) → (n : Nat) →
    List.Forall₂ (Reads n (Branch.readerWith (Stmt.readerIn n))) (branchValues bs) bs
  | [], _ => .nil
  | b :: bs, n => .cons (b.readsIn n) (Branch.readsAll bs n)

end

theorem Stmt.readsEach (ss : List Stmt) :
    List.Forall₂ (Reads n Stmt.reader) (stmtValues ss) ss := by
  induction ss with
  | nil => exact .nil
  | cons s ss ih => exact .cons (.ofRounds s.readsIn) ih

theorem reads_map {α : Type} {r : Reader α} {value : α → Value} (h : ∀ a, Reads n r (value a) a)
    (as : List α) : List.Forall₂ (Reads n r) (as.map value) as := by
  rw [List.forall₂_map_left_iff]
  exact List.forall₂_same.mpr fun a _ ↦ h a

theorem reads_option {α : Type} {r : Reader α} {value : α → Value} (h : ∀ a, Reads n r (value a) a)
    (hn : ∀ a, value a ≠ .null) (a : Option α) :
    Reads n r.optional (optionValue value a) a := by
  cases a with
  | none => exact .absent r
  | some a => exact (h a).present (hn a)

theorem MethodDef.reads (m : MethodDef) : Reads n MethodDef.reader m.value m :=
  .record (.cons (.text _) (.cons m.method.reads
    (.cons (blockReader_reads (Stmt.readsEach m.body)) (.cons m.span.reads
    .nil)))) (by simp) rfl

theorem ClassDef.reads (c : ClassDef) : Reads n ClassDef.reader c.value c :=
  .record (.cons (.text _) (.cons c.id.reads
    (.cons (Reads.list (reads_map MethodDef.reads c.methods))
    (.cons c.span.reads .nil)))) (by simp) rfl

theorem Program.reads (p : Program) : Reads n Program.reader p.value p :=
  .record (.cons (Reads.list (reads_map ClassDef.reads p.classes)) .nil) (by simp) rfl

theorem ClassSymbol.reads (c : ClassSymbol) : Reads n ClassSymbol.reader c.value c :=
  .record (.cons (.text _) (.cons (reads_option ClassId.reads nofun c.parent) (.cons (.word _)
    (.cons (.text _) (.cons (.text _) .nil))))) (by simp) rfl

theorem MethodSymbol.reads (m : MethodSymbol) : Reads n MethodSymbol.reader m.value m :=
  .record (.cons (.text _) (.cons m.owner.reads (.cons (.text _) (.cons (.word _)
    (.cons m.returnType.reads (.cons (.flag _) (.cons (reads_option VarId.reads nofun m.this)
    (.cons (Reads.list (reads_map VarId.reads m.params)) .nil)))))))) (by simp) rfl

theorem VarKind.reads (k : VarKind) : Reads n VarKind.reader k.value k := by
  cases k <;> exact .bare rfl

theorem VariableSymbol.reads (v : VariableSymbol) : Reads n VariableSymbol.reader v.value v :=
  .record (.cons (.text _) (.cons v.kind.reads (.cons v.type.reads
    (.cons (.word _) .nil)))) (by simp) rfl

theorem SymbolTable.reads (s : SymbolTable) : Reads n SymbolTable.reader s.value s :=
  .record (.cons ((Reads.list (reads_map ClassSymbol.reads s.classes.toList)).map _)
    (.cons ((Reads.list (reads_map MethodSymbol.reads s.methods.toList)).map _)
    (.cons ((Reads.list (reads_map VariableSymbol.reads s.vars.toList)).map _) .nil))) (by simp) rfl

theorem CheckedUnit.reads (u : CheckedUnit) : Reads n CheckedUnit.reader u.value u :=
  .record (.cons u.program.reads (.cons u.symbols.reads .nil)) (by simp) rfl

/-- Reading undoes writing: the text of a unit that nests at most 127 levels is read as the unit. -/
theorem CheckedUnit.ofText_text (u : CheckedUnit) (h : u.value.depth ≤ 127) :
    CheckedUnit.ofText u.text = .ok u :=
  Reader.run_text u.reads h

def DataType.nested : Nat → DataType
  | 0 => .object ⟨0xffffffffffffffff⟩
  | k + 1 => .array (nested k)

/-- A method that prints a text with characters that have to be escaped, and a variable of a type
that takes all levels that are left. -/
def deepUnit : CheckedUnit where
  program :=
    let text : Expr := .mk (.literal (.string "\"\\\n\x01\x7f/é𝄞")) .string .notLValue
      ⟨0, 0xffffffffffffffff⟩
    ⟨[⟨"Main", ⟨0⟩, [⟨"main", ⟨0⟩, [.mk (.print [text]) {}, .mk (.ret none) {}], {}⟩], {}⟩]⟩
  symbols := {
    classes := #[⟨"Main", none, Int32.minValue, "Main", "_Main_New"⟩]
    methods := #[⟨"main", ⟨0⟩, "main", -1, .void, true, none, [⟨0⟩]⟩]
    vars := #[⟨"a", .param, .nested 122, 0⟩] }

theorem deepUnit_ofText_text :
    deepUnit.value.depth = 127 ∧ CheckedUnit.ofText deepUnit.text = .ok deepUnit := by
  have h : deepUnit.value.depth = 127 := by decide +kernel
  exact ⟨h, CheckedUnit.ofText_text deepUnit h.le⟩

end ThreeAddress.Checked
