import ThreeAddress.Lowering.Program
import ThreeAddress.Proofs.Checked.RoundTrip
import ThreeAddress.Proofs.Json.Spelling

namespace ThreeAddress.Checked

open Json

/-- The formats that a unit is made of. -/
inductive Format where
  | span
  | dataType
  | literal
  | binaryOp
  | unaryOp
  | lvalue
  | expr
  | exprKind
  | call
  | stmt
  | stmtKind
  | block
  | branch
  | methodDef
  | classDef
  | program
  | classSymbol
  | methodSymbol
  | varKind
  | varSymbol
  | symbols
  | unit

namespace Format

def spanSchema : String × Presence × Schema Format :=
  ("span", .default (Span.value {}), .named .span)

def schema : Format → Schema Format
  | .span => .record [("start", .required, .scalar), ("end", .required, .scalar)]
  | .dataType =>
    .sum [("Void", none), ("Null", none), ("Int", none), ("Bool", none), ("String", none),
      ("Class", some .scalar), ("Array", some (.named .dataType))]
  | .literal => .sum [("Int", some .scalar), ("Bool", some .scalar), ("String", some .scalar)]
  | .binaryOp =>
    .sum [("Add", none), ("Subtract", none), ("Multiply", none), ("Divide", none),
      ("Modulo", none), ("LessThan", none), ("LessThanEqual", none), ("GreaterThan", none),
      ("GreaterThanEqual", none), ("Equal", none), ("NotEqual", none), ("And", none), ("Or", none)]
  | .unaryOp => .sum [("Negate", none), ("Not", none)]
  | .lvalue =>
    .sum [("NotLValue", none), ("LocalVar", none), ("ParamVar", none), ("MemberVar", none),
      ("ArrayElement", none)]
  | .expr =>
    .record [("kind", .required, .named .exprKind), ("ty", .required, .named .dataType),
      ("lvalue", .default LValue.notLValue.value, .named .lvalue), spanSchema]
  | .exprKind =>
    .sum [("Literal", some (.named .literal)), ("Null", none), ("This", none),
      ("ReadInteger", none), ("ReadLine", none),
      ("Ident", some (.record [("owner", .optional, .optional (.named .expr)),
        ("symbol", .required, .scalar)])),
      ("Indexed", some (.record [("array", .required, .named .expr),
        ("index", .required, .named .expr)])),
      ("Call", some (.named .call)), ("ArrayLength", some (.named .expr)),
      ("Binary", some (.record [("op", .required, .named .binaryOp),
        ("lhs", .required, .named .expr), ("rhs", .required, .named .expr)])),
      ("Unary", some (.record [("op", .required, .named .unaryOp),
        ("operand", .required, .named .expr)])),
      ("NewClass", some .scalar),
      ("NewArray", some (.record [("element", .required, .named .dataType),
        ("length", .required, .named .expr)])),
      ("InstanceOf", some (.record [("expr", .required, .named .expr),
        ("class", .required, .scalar)])),
      ("Cast", some (.record [("expr", .required, .named .expr), ("class", .required, .scalar)])),
      ("ShallowCopy", some (.named .expr)),
      ("NewSameArray", some (.record [("value", .required, .named .expr),
        ("count", .required, .named .expr)])),
      ("DefaultIndex", some (.record [("array", .required, .named .expr),
        ("index", .required, .named .expr), ("default", .required, .named .expr)])),
      ("VarBinding", some .scalar)]
  | .call =>
    .record [("receiver", .optional, .optional (.named .expr)), ("method", .required, .scalar),
      ("args", .required, .list (.named .expr))]
  | .stmt => .record [("kind", .required, .named .stmtKind), spanSchema]
  | .stmtKind =>
    .sum [("VarDef", some .scalar), ("Block", some (.named .block)), ("Exec", some (.named .expr)),
      ("Assign", some (.record [("target", .required, .named .expr),
        ("value", .required, .named .expr)])),
      ("If", some (.record [("condition", .required, .named .expr),
        ("then_branch", .required, .named .stmt),
        ("else_branch", .optional, .optional (.named .stmt))])),
      ("While", some (.record [("condition", .required, .named .expr),
        ("body", .required, .named .stmt)])),
      ("For", some (.record [("init", .optional, .optional (.named .stmt)),
        ("condition", .required, .named .expr), ("update", .optional, .optional (.named .stmt)),
        ("body", .required, .named .stmt)])),
      ("Foreach", some (.record [("binding", .required, .scalar),
        ("array", .required, .named .expr), ("guard", .optional, .optional (.named .expr)),
        ("body", .required, .named .stmt)])),
      ("Return", some (.optional (.named .expr))), ("Break", none),
      ("Print", some (.list (.named .expr))),
      ("Guarded", some (.record [("alternatives", .required, .list (.named .branch)),
        ("last", .required, .named .branch)]))]
  | .block => .record [("statements", .required, .list (.named .stmt))]
  | .branch => .record [("guard", .required, .named .expr), ("body", .required, .named .stmt)]
  | .methodDef =>
    .record [("name", .required, .scalar), ("method", .required, .scalar),
      ("body", .required, .named .block), spanSchema]
  | .classDef =>
    .record [("name", .required, .scalar), ("class", .required, .scalar),
      ("methods", .required, .list (.named .methodDef)), spanSchema]
  | .program => .record [("classes", .required, .list (.named .classDef))]
  | .classSymbol =>
    .record [("name", .required, .scalar), ("parent", .optional, .optional .scalar),
      ("size", .required, .scalar), ("vtable", .required, .scalar),
      ("allocator", .required, .scalar)]
  | .methodSymbol =>
    .record [("name", .required, .scalar), ("class", .required, .scalar),
      ("label", .required, .scalar), ("offset", .required, .scalar),
      ("return_type", .required, .named .dataType), ("is_static", .required, .scalar),
      ("this", .optional, .optional .scalar), ("params", .required, .list .scalar)]
  | .varKind => .sum [("Local", none), ("Param", none), ("Field", none)]
  | .varSymbol =>
    .record [("name", .required, .scalar), ("kind", .required, .named .varKind),
      ("ty", .required, .named .dataType), ("offset", .default (wordValue 0), .scalar)]
  | .symbols =>
    .record [("classes", .default (.array []), .list (.named .classSymbol)),
      ("methods", .default (.array []), .list (.named .methodSymbol)),
      ("variables", .default (.array []), .list (.named .varSymbol))]
  | .unit =>
    .record [("program", .required, .named .program), ("symbols", .required, .named .symbols)]

end Format

variable {n : Nat}

abbrev Format.Uniform {α : Type} (n : Nat) (s : Schema Format) (r r' : Reader α) : Prop :=
  Json.Uniform Format.schema n s r r'

theorem Span.uniform : Format.Uniform n (.named .span) Span.reader Span.reader :=
  .named (.record (.required _ .index <| .required _ .index .nil) (by decide))

theorem ClassId.uniform : Format.Uniform n .scalar ClassId.reader ClassId.reader := .map _ .index

theorem MethodId.uniform : Format.Uniform n .scalar MethodId.reader MethodId.reader := .map _ .index

theorem VarId.uniform : Format.Uniform n .scalar VarId.reader VarId.reader := .map _ .index

theorem DataType.uniformIn : (m n : Nat) →
    Format.Uniform n (.named .dataType) (DataType.readerIn m) (DataType.readerIn n)
  | _, 0 => .zero _ _
  | 0, _ + 1 => .refuses
  | m + 1, n + 1 =>
    .named (.sum_succ (.cons .nothing <| .cons .nothing <| .cons .nothing <| .cons .nothing <|
      .cons .nothing <| .cons (.wrapped (ClassId.uniform.map _)) <|
      .cons (.wrapped ((DataType.uniformIn m n).map _)) .nil))

theorem DataType.uniform : Format.Uniform n (.named .dataType) DataType.reader DataType.reader :=
  .ofRounds DataType.uniformIn

theorem Literal.uniform : Format.Uniform n (.named .literal) Literal.reader Literal.reader :=
  .named (.sum (.cons (.wrapped (.map _ .word)) <| .cons (.wrapped (.map _ .flag)) <|
    .cons (.wrapped (.map _ .text)) .nil))

theorem BinaryOp.uniform : Format.Uniform n (.named .binaryOp) BinaryOp.reader BinaryOp.reader :=
  .named (.sum (.cons .nothing <| .cons .nothing <| .cons .nothing <| .cons .nothing <|
    .cons .nothing <| .cons .nothing <| .cons .nothing <| .cons .nothing <| .cons .nothing <|
    .cons .nothing <| .cons .nothing <| .cons .nothing <| .cons .nothing .nil))

theorem UnaryOp.uniform : Format.Uniform n (.named .unaryOp) UnaryOp.reader UnaryOp.reader :=
  .named (.sum (.cons .nothing <| .cons .nothing .nil))

theorem LValue.uniform : Format.Uniform n (.named .lvalue) LValue.reader LValue.reader :=
  .named (.sum (.cons .nothing <| .cons .nothing <| .cons .nothing <| .cons .nothing <|
    .cons .nothing .nil))

theorem LValue.reader_default {depth : Nat} {l : LValue}
    (h : LValue.reader depth LValue.notLValue.value.document = .ok l) : l = .notLValue :=
  (Except.ok.inj h).symm

theorem Span.reader_default {depth : Nat} {s : Span}
    (h : Span.reader depth (Span.value {}).document = .ok s) : s = {} := by
  cases depth with
  | zero => cases h
  | succ depth =>
    have hread := Span.reads {} (depth + 1) (Nat.lt_succ_self _) (Nat.succ_le_succ (Nat.zero_le _))
    exact Except.ok.inj (h.symm.trans hread)

variable {αs : List Type} {rest rest' : Fields αs}
  {fields : List (String × Presence × Schema Format)}

theorem spanField_matches (hs : Matches Format.schema n rest rest' fields) :
    Matches Format.schema n (.cons spanField rest) (.cons spanField rest')
      (Format.spanSchema :: fields) :=
  .default "span" (fun _ _ ↦ Span.reader_default) Span.uniform hs

theorem recordCase_alike {α : Type} {sum name : String} {fields fields' : Fields αs}
    {build : Curried αs α} {schema : List (String × Presence × Schema Format)}
    (h : Matches Format.schema n fields fields' schema) (hn : (schema.map Prod.fst).Nodup) :
    Alike Format.schema n (recordCase sum name fields build).content
      (recordCase sum name fields' build).content (some (.record schema)) :=
  .record (.record h hn)

section

variable {part part' : Reader Expr}

theorem Call.uniform (h : Format.Uniform n (.named .expr) part part') :
    Format.Uniform n (.named .call) (Call.readerWith part) (Call.readerWith part') :=
  .named (.record (.optional _ h <| .required _ MethodId.uniform <| .required _ h.list .nil)
    (by decide))

theorem ExprKind.uniform (h : Format.Uniform n (.named .expr) part part') :
    Format.Uniform n (.named .exprKind) (ExprKind.readerWith part) (ExprKind.readerWith part') :=
  .named (.sum (.cons (.wrapped (Literal.uniform.map _)) <| .cons .nothing <| .cons .nothing <|
    .cons .nothing <| .cons .nothing <|
    .cons (recordCase_alike (.optional _ h <| .required _ VarId.uniform .nil) (by decide)) <|
    .cons (recordCase_alike (.required _ h <| .required _ h .nil) (by decide)) <|
    .cons (.wrapped ((Call.uniform h).map _)) <|
    .cons (.wrapped (h.map _)) <|
    .cons (recordCase_alike (.required _ BinaryOp.uniform <| .required _ h <| .required _ h .nil)
      (by decide)) <|
    .cons (recordCase_alike (.required _ UnaryOp.uniform <| .required _ h .nil) (by decide)) <|
    .cons (.wrapped (ClassId.uniform.map _)) <|
    .cons (recordCase_alike (.required _ DataType.uniform <| .required _ h .nil) (by decide)) <|
    .cons (recordCase_alike (.required _ h <| .required _ ClassId.uniform .nil) (by decide)) <|
    .cons (recordCase_alike (.required _ h <| .required _ ClassId.uniform .nil) (by decide)) <|
    .cons (.wrapped (h.map _)) <|
    .cons (recordCase_alike (.required _ h <| .required _ h .nil) (by decide)) <|
    .cons (recordCase_alike (.required _ h <| .required _ h <| .required _ h .nil) (by decide)) <|
    .cons (.wrapped (VarId.uniform.map _)) .nil))

end

theorem Expr.uniformIn : (m n : Nat) →
    Format.Uniform n (.named .expr) (Expr.readerIn m) (Expr.readerIn n)
  | _, 0 => .zero _ _
  | 0, _ + 1 => .refuses
  | m + 1, n + 1 =>
    .named (.record_succ (.required _ (ExprKind.uniform (Expr.uniformIn m n)) <|
      .required _ DataType.uniform <|
      .default _ (fun _ _ ↦ LValue.reader_default) LValue.uniform <| spanField_matches .nil)
      (by decide))

theorem Expr.uniform : Format.Uniform n (.named .expr) Expr.reader Expr.reader :=
  .ofRounds Expr.uniformIn

section

variable {part part' : Reader Stmt}

theorem blockReader_uniform (h : Format.Uniform n (.named .stmt) part part') :
    Format.Uniform n (.named .block) (blockReader part) (blockReader part') :=
  .named (.record (.required _ h.list .nil) (by decide))

theorem Branch.uniform (h : Format.Uniform n (.named .stmt) part part') :
    Format.Uniform n (.named .branch) (Branch.readerWith part) (Branch.readerWith part') :=
  .named (.record (.required _ Expr.uniform <| .required _ h .nil) (by decide))

theorem StmtKind.uniform (h : Format.Uniform n (.named .stmt) part part') :
    Format.Uniform n (.named .stmtKind) (StmtKind.readerWith part) (StmtKind.readerWith part') :=
  .named (.sum (.cons (.wrapped (VarId.uniform.map _)) <|
    .cons (.wrapped ((blockReader_uniform h).map _)) <|
    .cons (.wrapped (Expr.uniform.map _)) <|
    .cons (recordCase_alike (.required _ Expr.uniform <| .required _ Expr.uniform .nil)
      (by decide)) <|
    .cons (recordCase_alike (.required _ Expr.uniform <| .required _ h <| .optional _ h .nil)
      (by decide)) <|
    .cons (recordCase_alike (.required _ Expr.uniform <| .required _ h .nil) (by decide)) <|
    .cons (recordCase_alike (.optional _ h <| .required _ Expr.uniform <| .optional _ h <|
      .required _ h .nil) (by decide)) <|
    .cons (recordCase_alike (.required _ VarId.uniform <| .required _ Expr.uniform <|
      .optional _ Expr.uniform <| .required _ h .nil) (by decide)) <|
    .cons (.wrapped (Expr.uniform.optional.map _)) <| .cons .nothing <|
    .cons (.wrapped (Expr.uniform.list.map _)) <|
    .cons (recordCase_alike (.required _ (Branch.uniform h).list <|
      .required _ (Branch.uniform h) .nil) (by decide)) .nil))

end

theorem Stmt.uniformIn : (m n : Nat) →
    Format.Uniform n (.named .stmt) (Stmt.readerIn m) (Stmt.readerIn n)
  | _, 0 => .zero _ _
  | 0, _ + 1 => .refuses
  | m + 1, n + 1 =>
    .named (.record_succ (.required _ (StmtKind.uniform (Stmt.uniformIn m n)) <|
      spanField_matches .nil) (by decide))

theorem Stmt.uniform : Format.Uniform n (.named .stmt) Stmt.reader Stmt.reader :=
  .ofRounds Stmt.uniformIn

theorem MethodDef.uniform :
    Format.Uniform n (.named .methodDef) MethodDef.reader MethodDef.reader :=
  .named (.record (.required _ .text <| .required _ MethodId.uniform <|
    .required _ (blockReader_uniform Stmt.uniform) <| spanField_matches .nil) (by decide))

theorem ClassDef.uniform : Format.Uniform n (.named .classDef) ClassDef.reader ClassDef.reader :=
  .named (.record (.required _ .text <| .required _ ClassId.uniform <|
    .required _ MethodDef.uniform.list <| spanField_matches .nil) (by decide))

theorem Program.uniform : Format.Uniform n (.named .program) Program.reader Program.reader :=
  .named (.record (.required _ ClassDef.uniform.list .nil) (by decide))

theorem ClassSymbol.uniform :
    Format.Uniform n (.named .classSymbol) ClassSymbol.reader ClassSymbol.reader :=
  .named (.record (.required _ .text <| .optional _ ClassId.uniform <| .required _ .word <|
    .required _ .text <| .required _ .text .nil) (by decide))

theorem MethodSymbol.uniform :
    Format.Uniform n (.named .methodSymbol) MethodSymbol.reader MethodSymbol.reader :=
  .named (.record (.required _ .text <| .required _ ClassId.uniform <| .required _ .text <|
    .required _ .word <| .required _ DataType.uniform <| .required _ .flag <|
    .optional _ VarId.uniform <| .required _ VarId.uniform.list .nil) (by decide))

theorem VarKind.uniform : Format.Uniform n (.named .varKind) VarKind.reader VarKind.reader :=
  .named (.sum (.cons .nothing <| .cons .nothing <| .cons .nothing .nil))

theorem offset_default {depth : Nat} {k : Int32}
    (h : Reader.word depth (wordValue 0).document = .ok k) : k = 0 :=
  Except.ok.inj (h.symm.trans (Reads.word 0 depth (Nat.lt_succ_self _) (Nat.zero_le _)))

theorem VariableSymbol.uniform :
    Format.Uniform n (.named .varSymbol) VariableSymbol.reader VariableSymbol.reader :=
  .named (.record (.required _ .text <| .required _ VarKind.uniform <|
    .required _ DataType.uniform <| .default _ (fun _ _ ↦ offset_default) .word .nil) (by decide))

theorem symbolsField_matches {α : Type} {name : String} {r : Reader α} {s : Schema Format}
    (h : Format.Uniform n s r r) (hs : Matches Format.schema n rest rest' fields) :
    Matches Format.schema n (.cons (symbolsField name r) rest) (.cons (symbolsField name r) rest')
      ((name, .default (.array []), .list s) :: fields) := by
  refine .default name (fun depth a hread ↦ ?_) (h.list.map _) hs
  cases depth with
  | zero => cases hread
  | succ depth => exact (Except.ok.inj hread).symm

theorem SymbolTable.uniform :
    Format.Uniform n (.named .symbols) SymbolTable.reader SymbolTable.reader :=
  .named (.record (symbolsField_matches ClassSymbol.uniform <|
    symbolsField_matches MethodSymbol.uniform <| symbolsField_matches VariableSymbol.uniform .nil)
    (by decide))

theorem CheckedUnit.uniform :
    Format.Uniform n (.named .unit) CheckedUnit.reader CheckedUnit.reader :=
  .named (.record (.required _ Program.uniform <| .required _ SymbolTable.uniform .nil) (by decide))

abbrev Format.Written (s : Schema Format) (v : Value) : Prop := Json.Written Format.schema s v

theorem written_map {α : Type} {s : Schema Format} {value : α → Value}
    (h : ∀ a, Format.Written s (value a)) (as : List α) :
    Format.Written (.list s) (.array (as.map value)) :=
  .list (List.forall_mem_map.mpr fun a _ ↦ h a)

theorem written_option {α : Type} {s : Schema Format} {value : α → Value}
    (h : ∀ a, Format.Written s (value a)) (hn : ∀ a, value a ≠ .null) (a : Option α) :
    Format.Written (.optional s) (optionValue value a) := by
  cases a with
  | none => exact .absent
  | some a => exact (h a).present (hn a)

theorem Span.written (s : Span) : Format.Written (.named .span) s.value :=
  .named (.record (.cons ⟨rfl, .scalar⟩ (.cons ⟨rfl, .scalar⟩ .nil)))

theorem DataType.written : (t : DataType) → Format.Written (.named .dataType) t.value
  | .void => .named (.bare rfl)
  | .null => .named (.bare rfl)
  | .int => .named (.bare rfl)
  | .bool => .named (.bare rfl)
  | .string => .named (.bare rfl)
  | .object _ => .named (.filled rfl .scalar)
  | .array element => .named (.filled rfl element.written)

theorem Literal.written (l : Literal) : Format.Written (.named .literal) l.value := by
  cases l <;> exact .named (.filled rfl .scalar)

theorem BinaryOp.written (op : BinaryOp) : Format.Written (.named .binaryOp) op.value := by
  cases op <;> exact .named (.bare rfl)

theorem UnaryOp.written (op : UnaryOp) : Format.Written (.named .unaryOp) op.value := by
  cases op <;> exact .named (.bare rfl)

theorem LValue.written (l : LValue) : Format.Written (.named .lvalue) l.value := by
  cases l <;> exact .named (.bare rfl)

mutual

theorem Expr.written : (e : Expr) → Format.Written (.named .expr) e.value
  | .mk kind type lvalue span =>
    .named (.record (.cons ⟨rfl, kind.written⟩ (.cons ⟨rfl, type.written⟩
      (.cons ⟨rfl, lvalue.written⟩ (.cons ⟨rfl, span.written⟩ .nil)))))

theorem ExprKind.written : (kind : ExprKind) → Format.Written (.named .exprKind) kind.value
  | .literal l => .named (.filled rfl l.written)
  | .null => .named (.bare rfl)
  | .this => .named (.bare rfl)
  | .readInteger => .named (.bare rfl)
  | .readLine => .named (.bare rfl)
  | .ident owner _ =>
    .named (.filled rfl (.record (.cons ⟨rfl, Expr.writtenOption owner⟩
      (.cons ⟨rfl, .scalar⟩ .nil))))
  | .indexed array index =>
    .named (.filled rfl (.record (.cons ⟨rfl, array.written⟩ (.cons ⟨rfl, index.written⟩ .nil))))
  | .call c => .named (.filled rfl c.written)
  | .arrayLength array => .named (.filled rfl array.written)
  | .binary op left right =>
    .named (.filled rfl (.record (.cons ⟨rfl, op.written⟩ (.cons ⟨rfl, left.written⟩
      (.cons ⟨rfl, right.written⟩ .nil)))))
  | .unary op operand =>
    .named (.filled rfl (.record (.cons ⟨rfl, op.written⟩ (.cons ⟨rfl, operand.written⟩ .nil))))
  | .newClass _ => .named (.filled rfl .scalar)
  | .newArray element length =>
    .named (.filled rfl (.record (.cons ⟨rfl, element.written⟩
      (.cons ⟨rfl, length.written⟩ .nil))))
  | .instanceOf object _ =>
    .named (.filled rfl (.record (.cons ⟨rfl, object.written⟩ (.cons ⟨rfl, .scalar⟩ .nil))))
  | .cast object _ =>
    .named (.filled rfl (.record (.cons ⟨rfl, object.written⟩ (.cons ⟨rfl, .scalar⟩ .nil))))
  | .shallowCopy source => .named (.filled rfl source.written)
  | .newSameArray value count =>
    .named (.filled rfl (.record (.cons ⟨rfl, value.written⟩ (.cons ⟨rfl, count.written⟩ .nil))))
  | .defaultIndex array index default =>
    .named (.filled rfl (.record (.cons ⟨rfl, array.written⟩ (.cons ⟨rfl, index.written⟩
      (.cons ⟨rfl, default.written⟩ .nil)))))
  | .varBinding _ => .named (.filled rfl .scalar)

theorem Call.written : (c : Call) → Format.Written (.named .call) c.value
  | .mk receiver _ args =>
    .named (.record (.cons ⟨rfl, Expr.writtenOption receiver⟩ (.cons ⟨rfl, .scalar⟩
      (.cons ⟨rfl, .list (Expr.writtenAll args)⟩ .nil))))

theorem Expr.writtenOption : (e : Option Expr) →
    Format.Written (.optional (.named .expr)) (exprOptionValue e)
  | none => .absent
  | some e => e.written.present e.value_ne_null

theorem Expr.writtenAll : (es : List Expr) → ∀ v ∈ exprValues es, Format.Written (.named .expr) v
  | [] => nofun
  | e :: es => List.forall_mem_cons.mpr ⟨e.written, Expr.writtenAll es⟩

end

theorem block_written {values : List Value}
    (h : ∀ v ∈ values, Format.Written (.named .stmt) v) :
    Format.Written (.named .block) (.object [("statements", .array values)]) :=
  .named (.record (.cons ⟨rfl, .list h⟩ .nil))

mutual

theorem Stmt.written : (s : Stmt) → Format.Written (.named .stmt) s.value
  | .mk kind span =>
    .named (.record (.cons ⟨rfl, kind.written⟩ (.cons ⟨rfl, span.written⟩ .nil)))

theorem StmtKind.written : (kind : StmtKind) → Format.Written (.named .stmtKind) kind.value
  | .varDef _ => .named (.filled rfl .scalar)
  | .block statements => .named (.filled rfl (block_written (Stmt.writtenAll statements)))
  | .exec e => .named (.filled rfl e.written)
  | .assign target value =>
    .named (.filled rfl (.record (.cons ⟨rfl, target.written⟩ (.cons ⟨rfl, value.written⟩ .nil))))
  | .cond condition thenBranch elseBranch =>
    .named (.filled rfl (.record (.cons ⟨rfl, condition.written⟩
      (.cons ⟨rfl, thenBranch.written⟩ (.cons ⟨rfl, Stmt.writtenOption elseBranch⟩ .nil)))))
  | .whileLoop condition body =>
    .named (.filled rfl (.record (.cons ⟨rfl, condition.written⟩ (.cons ⟨rfl, body.written⟩ .nil))))
  | .forLoop init condition update body =>
    .named (.filled rfl (.record (.cons ⟨rfl, Stmt.writtenOption init⟩
      (.cons ⟨rfl, condition.written⟩ (.cons ⟨rfl, Stmt.writtenOption update⟩
      (.cons ⟨rfl, body.written⟩ .nil))))))
  | .forEach _ array guard body =>
    .named (.filled rfl (.record (.cons ⟨rfl, .scalar⟩ (.cons ⟨rfl, array.written⟩
      (.cons ⟨rfl, Expr.writtenOption guard⟩ (.cons ⟨rfl, body.written⟩ .nil))))))
  | .ret value => .named (.filled rfl (Expr.writtenOption value))
  | .leave => .named (.bare rfl)
  | .print args => .named (.filled rfl (.list (Expr.writtenAll args)))
  | .guarded alternatives last =>
    .named (.filled rfl (.record (.cons ⟨rfl, .list (Branch.writtenAll alternatives)⟩
      (.cons ⟨rfl, last.written⟩ .nil))))

theorem Branch.written : (b : Branch) → Format.Written (.named .branch) b.value
  | .mk guard body =>
    .named (.record (.cons ⟨rfl, guard.written⟩ (.cons ⟨rfl, body.written⟩ .nil)))

theorem Stmt.writtenOption : (s : Option Stmt) →
    Format.Written (.optional (.named .stmt)) (stmtOptionValue s)
  | none => .absent
  | some s => s.written.present s.value_ne_null

theorem Stmt.writtenAll : (ss : List Stmt) → ∀ v ∈ stmtValues ss, Format.Written (.named .stmt) v
  | [] => nofun
  | s :: ss => List.forall_mem_cons.mpr ⟨s.written, Stmt.writtenAll ss⟩

theorem Branch.writtenAll : (bs : List Branch) →
    ∀ v ∈ branchValues bs, Format.Written (.named .branch) v
  | [] => nofun
  | b :: bs => List.forall_mem_cons.mpr ⟨b.written, Branch.writtenAll bs⟩

end

theorem MethodDef.written (m : MethodDef) : Format.Written (.named .methodDef) m.value :=
  .named (.record (.cons ⟨rfl, .scalar⟩ (.cons ⟨rfl, .scalar⟩
    (.cons ⟨rfl, block_written (Stmt.writtenAll m.body)⟩ (.cons ⟨rfl, m.span.written⟩ .nil)))))

theorem ClassDef.written (c : ClassDef) : Format.Written (.named .classDef) c.value :=
  .named (.record (.cons ⟨rfl, .scalar⟩ (.cons ⟨rfl, .scalar⟩
    (.cons ⟨rfl, written_map MethodDef.written c.methods⟩ (.cons ⟨rfl, c.span.written⟩ .nil)))))

theorem Program.written (p : Program) : Format.Written (.named .program) p.value :=
  .named (.record (.cons ⟨rfl, written_map ClassDef.written p.classes⟩ .nil))

theorem ClassSymbol.written (c : ClassSymbol) : Format.Written (.named .classSymbol) c.value :=
  .named (.record (.cons ⟨rfl, .scalar⟩
    (.cons ⟨rfl, written_option (fun _ ↦ .scalar) nofun c.parent⟩ (.cons ⟨rfl, .scalar⟩
    (.cons ⟨rfl, .scalar⟩ (.cons ⟨rfl, .scalar⟩ .nil))))))

theorem MethodSymbol.written (m : MethodSymbol) : Format.Written (.named .methodSymbol) m.value :=
  .named (.record (.cons ⟨rfl, .scalar⟩ (.cons ⟨rfl, .scalar⟩ (.cons ⟨rfl, .scalar⟩
    (.cons ⟨rfl, .scalar⟩ (.cons ⟨rfl, m.returnType.written⟩ (.cons ⟨rfl, .scalar⟩
    (.cons ⟨rfl, written_option (fun _ ↦ .scalar) nofun m.this⟩
    (.cons ⟨rfl, written_map (fun _ ↦ .scalar) m.params⟩ .nil)))))))))

theorem VarKind.written (kind : VarKind) : Format.Written (.named .varKind) kind.value := by
  cases kind <;> exact .named (.bare rfl)

theorem VariableSymbol.written (v : VariableSymbol) : Format.Written (.named .varSymbol) v.value :=
  .named (.record (.cons ⟨rfl, .scalar⟩ (.cons ⟨rfl, v.kind.written⟩
    (.cons ⟨rfl, v.type.written⟩ (.cons ⟨rfl, .scalar⟩ .nil)))))

theorem SymbolTable.written (s : SymbolTable) : Format.Written (.named .symbols) s.value :=
  .named (.record (.cons ⟨rfl, written_map ClassSymbol.written _⟩
    (.cons ⟨rfl, written_map MethodSymbol.written _⟩
    (.cons ⟨rfl, written_map VariableSymbol.written _⟩ .nil))))

theorem CheckedUnit.written (u : CheckedUnit) : Format.Written (.named .unit) u.value :=
  .named (.record (.cons ⟨rfl, u.program.written⟩ (.cons ⟨rfl, u.symbols.written⟩ .nil)))

/-- The written form of a unit is one of its spellings. A text that spells a unit and opens at most
127 containers at once, those of other members aside, is read as the unit, and so it is lowered as
the unit. -/
theorem CheckedUnit.ofText_spelling (u : CheckedUnit) :
    (u.value.depth ≤ 127 → Spells Format.schema 127 (.named .unit) u.value u.value.document) ∧
    ∀ source : Source, Spells Format.schema 127 (.named .unit) u.value source.document →
      CheckedUnit.ofText source.text = .ok u ∧
      (CheckedUnit.ofText source.text).map CheckedUnit.lower = .ok u.lower := by
  refine ⟨u.written 127, fun source h ↦ ?_⟩
  have hwritten := u.reads u.value.depth (Nat.lt_succ_self _) le_rfl
  have hread : CheckedUnit.ofText source.text = .ok u :=
    Reader.run_spelling CheckedUnit.uniform h hwritten
  exact ⟨hread, congrArg (Except.map CheckedUnit.lower) hread⟩

def plainUnit : CheckedUnit where
  program :=
    let operand : Expr := .mk (.ident none ⟨7⟩) .int .notLValue {}
    ⟨[⟨"Main", ⟨0⟩, [⟨"main", ⟨0⟩, [.mk (.exec operand) {}], {}⟩], {}⟩]⟩
  symbols := {}

def nestedSource : Nat → Source
  | 0 => .bool true
  | k + 1 => .array {} [nestedSource k]

/-- The unit with its fields in other orders, without its defaults, with a deep value that is passed
over, with arrays for records and with the name of a case in an object. -/
def plainSource : Source :=
  let key (name : String) : KeyText := { pieces := literal name }
  let zero : Source := .number { whole := .zero }
  let seven : Source :=
    .number { whole := .positive ⟨'7', [], List.forall_mem_singleton.mpr rfl⟩ (by decide) }
  let operand : Source := .object {} [(key "ty", .object {} [(key "Int", .null)]),
    (key "kind", .object {} [(key "Ident", .object {} [(key "symbol", seven)])])]
  let body : Source := .object {} [(key "statements", .array {}
    [.array {} [.object {} [(key "Exec", operand)]]])]
  let method : Source := .object {} [(key "body", body), (key "method", zero),
    (key "name", .string (literal "main"))]
  .object {} [(key "symbols", .object {} [(key "note", nestedSource 1000)]),
    (key "program", .array {} [.array {} [.array {} [.string (literal "Main"), zero,
      .array {} [method]]]])]

theorem plainSource_spells :
    Spells Format.schema 127 (.named .unit) plainUnit.value plainSource.document := by
  simp only [plainSource, Source.document, Source.memberDocuments, Source.itemDocuments,
    literalText_literal, Key.ofText?]
  refine .named (.reordered ?_ (List.reverse_perm [_, _]))
  refine .keep (.named (.array (.item (.list (.cons (.named (.array ?classDef)) .nil)) .nil)))
    (.keep (.named (.object (.leave rfl (.leave rfl (.leave rfl .nil))) ?note .rfl)) .nil)
  case note =>
    intro m hm
    obtain rfl := List.mem_singleton.mp hm
    exact ⟨"note", by decide, nestedSource 1000, rfl⟩
  refine .item .scalar (.item .scalar (.item (.list (.cons (.named ?_) .nil)) (.leave .nil)))
  refine .reordered ?_ (List.reverse_perm [_, _, _])
  refine .keep .scalar (.keep .scalar (.keep (.named (.reordered ?_ .rfl)) (.leave rfl .nil)))
  refine .keep (.list (.cons (.named (.array (.item (.named (.filled rfl (.named ?_)))
    (.leave .nil)))) .nil)) .nil
  refine .reordered ?_ (List.reverse_perm [_, _])
  exact .keep (.named (.filled rfl (.reordered (.leave rfl (.keep .scalar .nil)) .rfl)))
    (.keep (.named (.wrapped rfl)) (.leave rfl (.leave rfl .nil)))

theorem plainSource_ofText :
    Spells Format.schema 127 (.named .unit) plainUnit.value plainUnit.value.document ∧
      Spells Format.schema 127 (.named .unit) plainUnit.value plainSource.document ∧
      CheckedUnit.ofText plainSource.text = .ok plainUnit ∧
      (CheckedUnit.ofText plainSource.text).map CheckedUnit.lower = .ok plainUnit.lower := by
  obtain ⟨hwritten, hspelled⟩ := plainUnit.ofText_spelling
  exact ⟨hwritten (by decide +kernel), plainSource_spells, hspelled plainSource plainSource_spells⟩

end ThreeAddress.Checked
