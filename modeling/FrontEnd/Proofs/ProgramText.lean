import FrontEnd.Proofs.DepthLimit
import FrontEnd.Proofs.Shape
import FrontEnd.Proofs.TellingTrees

/-! The text of what was read tells what was read. Whatever is read from a source is well-formed, and
the trees of well-formed expressions, statements and scripts tell what they are the trees of; a text
is that of one tree only, whatever stands in its strings. -/

namespace FrontEnd.Program

open FrontEnd.Grammar FrontEnd.Tree

section Exprs

theorem wellFormed_child {c : Option Expr} (h : Expr.ChildWellFormed c) : ∀ e ∈ c, e.WellFormed :=
  fun e he => (Expr.wellFormed_of_mem_child h e he).2

theorem expr_ne_null (e : Expr) : e.toTree ≠ .null := by
  cases e <;> simp [Expr.toTree]

theorem tells_args {es : List Expr} (h : ∀ e ∈ es, Tells Expr.WellFormed Expr.toTree e) :
    Tells Expr.ArgsWellFormed (fun es => .list (es.map Expr.toTree)) es :=
  (Tells.list h).congr (fun _ => wellFormed_of_mem_args) fun _ => rfl

theorem tells_child {c : Option Expr} (h : ∀ e ∈ c, Tells Expr.WellFormed Expr.toTree e) :
    Tells Expr.ChildWellFormed Expr.childTree c :=
  (Tells.option expr_ne_null h).congr (fun _ => wellFormed_child) Expr.childTree_eq

/-- The tag tells the kind of an expression, and the fields tell its parts. -/
theorem tells_expr (e : Expr) : Tells Expr.WellFormed Expr.toTree e := by
  induction e with
  | binary op left right ihl ihr =>
    refine .of_fields "BinaryOperation" (by decide) (fun p => .binary p.1 p.2.1 p.2.2)
      (.cons "op" (by decide) (tells_operator op)
        (.cons "left" (by decide) ihl (.one "right" (by decide) ihr)))
      rfl (fun _ => rfl) (fun p h => ?_) fun e he => ?_
    · rw [Expr.WellFormed] at h
      exact ⟨trivial, h⟩
    · cases e with
      | binary op left right => exact ⟨(op, left, right), rfl⟩
      | _ => simp [Expr.toTree, tag?] at he
  | constant value =>
    refine .of_fields "Constant" (by decide) .constant
      (.one "value" (by decide) (tells_literal value))
      rfl (fun _ => rfl) (fun p h => ?_) fun e he => ?_
    · rwa [Expr.WellFormed] at h
    · cases e with
      | constant value => exact ⟨value, rfl⟩
      | _ => simp [Expr.toTree, tag?] at he
  | declaration name type =>
    refine .of_fields "Variable" (by decide) (fun p => .declaration p.1 p.2)
      (.cons "name" (by decide) (tells_name name) (.one "type" (by decide) (tells_type type)))
      rfl (fun _ => rfl) (fun p h => ?_) fun e he => ?_
    · rwa [Expr.WellFormed] at h
    · cases e with
      | declaration name type => exact ⟨(name, type), rfl⟩
      | _ => simp [Expr.toTree, tag?] at he
  | var name c ih =>
    refine .of_fields "VariableRef" (by decide) (fun p => .var p.1 p.2)
      (.cons "name" (by decide) (tells_name name) (.one "child" (by decide) (tells_child ih)))
      rfl (fun _ => rfl) (fun p h => ?_) fun e he => ?_
    · rwa [Expr.WellFormed] at h
    · cases e with
      | var name c => exact ⟨(name, c), rfl⟩
      | _ => simp [Expr.toTree, tag?] at he
  | call name args c iha ihc =>
    refine .of_fields "MethodCall" (by decide) (fun p => .call p.1 p.2.1 p.2.2)
      (.cons "name" (by decide) (tells_name name)
        (.cons "args" (by decide) (tells_args iha) (.one "child" (by decide) (tells_child ihc))))
      rfl (fun p => ?_) (fun p h => ?_) fun e he => ?_
    · rw [Expr.toTree, Expr.toTrees_eq_map]
    · rwa [Expr.WellFormed] at h
    · cases e with
      | call name args c => exact ⟨(name, args, c), rfl⟩
      | _ => simp [Expr.toTree, tag?] at he
  | index name i c ihi ihc =>
    refine .of_fields "IndexAccess" (by decide) (fun p => .index p.1 p.2.1 p.2.2)
      (.cons "name" (by decide) (tells_name name)
        (.cons "index" (by decide) ihi (.one "child" (by decide) (tells_child ihc))))
      rfl (fun _ => rfl) (fun p h => ?_) fun e he => ?_
    · rwa [Expr.WellFormed] at h
    · cases e with
      | index name i c => exact ⟨(name, i, c), rfl⟩
      | _ => simp [Expr.toTree, tag?] at he
  | classRef type c ih =>
    refine .of_fields "ClassRef" (by decide) (fun p => .classRef p.1 p.2)
      (.cons "type" (by decide) (tells_type type) (.one "child" (by decide) (tells_child ih)))
      rfl (fun _ => rfl) (fun p h => ?_) fun e he => ?_
    · rw [Expr.WellFormed] at h
      exact ⟨h.1, h.2.2⟩
    · cases e with
      | classRef type c => exact ⟨(type, c), rfl⟩
      | _ => simp [Expr.toTree, tag?] at he
  | this c ih =>
    refine .of_fields "This" (by decide) .this (.one "child" (by decide) (tells_child ih))
      rfl (fun _ => rfl) (fun p h => ?_) fun e he => ?_
    · rwa [Expr.WellFormed] at h
    · cases e with
      | this c => exact ⟨c, rfl⟩
      | _ => simp [Expr.toTree, tag?] at he
  | negate value ih =>
    refine .of_fields "Negate" (by decide) .negate (.one "value" (by decide) ih)
      rfl (fun _ => rfl) (fun p h => ?_) fun e he => ?_
    · rwa [Expr.WellFormed] at h
    · cases e with
      | negate value => exact ⟨value, rfl⟩
      | _ => simp [Expr.toTree, tag?] at he
  | inverse value ih =>
    refine .of_fields "Inverse" (by decide) .inverse (.one "value" (by decide) ih)
      rfl (fun _ => rfl) (fun p h => ?_) fun e he => ?_
    · rwa [Expr.WellFormed] at h
    · cases e with
      | inverse value => exact ⟨value, rfl⟩
      | _ => simp [Expr.toTree, tag?] at he

end Exprs

section Statements

theorem listTree_eq (ss : List Statement) : Statement.listTree ss =
    .node "StatementList" [("statements", .list (ss.map Statement.toTree))] := by
  rw [Statement.listTree, Statement.listNode, Statement.toTrees_eq_map]

theorem elseTree_eq (o : Option (List Statement)) :
    Statement.elseTree o = .ofOption Statement.listTree o := by
  cases o <;> rfl

theorem wellFormed_else {o : Option (List Statement)} (h : Statement.ElseWellFormed o) :
    ∀ ss ∈ o, Statement.ListWellFormed ss := by
  rintro ss rfl
  rwa [Statement.ElseWellFormed] at h

theorem tells_listTree {ss : List Statement}
    (h : ∀ s ∈ ss, Tells Statement.WellFormed Statement.toTree s) :
    Tells Statement.ListWellFormed Statement.listTree ss :=
  .of_fields "StatementList" (by decide) id (.one "statements" (by decide) (.list h))
    rfl listTree_eq (fun _ => Statement.wellFormed_of_mem_list) fun ss _ => ⟨ss, rfl⟩

theorem tells_body {o : Option (List Statement)}
    (h : ∀ ss ∈ o, ∀ s ∈ ss, Tells Statement.WellFormed Statement.toTree s) :
    Tells (fun o => ∀ ss ∈ o, Statement.ListWellFormed ss) (.ofOption Statement.listTree) o :=
  Tells.option (fun _ => by simp [listTree_eq]) fun ss hss => tells_listTree (h ss hss)

theorem tells_exprs (es : List Expr) :
    Tells Expr.ArgsWellFormed (fun es => .list (es.map Expr.toTree)) es :=
  tells_args fun e _ => tells_expr e

/-- The tag tells the kind of a statement, and the fields tell its parts. -/
theorem tells_statement (s : Statement) : Tells Statement.WellFormed Statement.toTree s := by
  induction s with
  | assignment target value =>
    refine .of_fields "Assignment" (by decide) (fun p => .assignment p.1 p.2)
      (.cons "target" (by decide) (tells_expr target) (.one "value" (by decide) (tells_expr value)))
      rfl (fun _ => rfl) (fun p h => ?_) fun s hs => ?_
    · rw [Statement.WellFormed] at h
      exact h.2
    · cases s with
      | assignment target value => exact ⟨(target, value), rfl⟩
      | _ => simp [Statement.toTree, tag?] at hs
  | call name args =>
    refine .of_fields "Call" (by decide) (fun p => .call p.1 p.2)
      (.cons "name" (by decide) (tells_name name) (.one "args" (by decide) (tells_exprs args)))
      rfl (fun _ => rfl) (fun p h => ?_) fun s hs => ?_
    · rwa [Statement.WellFormed] at h
    · cases s with
      | call name args => exact ⟨(name, args), rfl⟩
      | _ => simp [Statement.toTree, tag?] at hs
  | chainCall e =>
    refine .of_fields "StatementCall" (by decide) .chainCall
      (.one "reference" (by decide) (tells_expr e))
      rfl (fun _ => rfl) (fun p h => ?_) fun s hs => ?_
    · rw [Statement.WellFormed] at h
      exact h.2
    · cases s with
      | chainCall e => exact ⟨e, rfl⟩
      | _ => simp [Statement.toTree, tag?] at hs
  | branch condition thenPart elsePart continuation iht ihe ihc =>
    refine .of_fields "If" (by decide) (fun p => .branch p.1 p.2.1 p.2.2.1 p.2.2.2)
      (.cons "condition" (by decide) (tells_expr condition)
        (.cons "then" (by decide) (tells_listTree iht)
          (.cons "else" (by decide) (tells_body ihe)
            (.one "continue" (by decide) (tells_listTree ihc)))))
      rfl (fun p => ?_) (fun p h => ?_) fun s hs => ?_
    · rw [Statement.toTree, elseTree_eq]
      rfl
    · rw [Statement.WellFormed] at h
      exact ⟨h.1, h.2.1, wellFormed_else h.2.2.1, h.2.2.2⟩
    · cases s with
      | branch c t e k => exact ⟨(c, t, e, k), rfl⟩
      | _ => simp [Statement.toTree, tag?] at hs
  | loop condition body ih =>
    refine .of_fields "While" (by decide) (fun p => .loop p.1 p.2)
      (.cons "condition" (by decide) (tells_expr condition)
        (.one "body" (by decide) (tells_listTree ih)))
      rfl (fun _ => rfl) (fun p h => ?_) fun s hs => ?_
    · rwa [Statement.WellFormed] at h
    · cases s with
      | loop condition body => exact ⟨(condition, body), rfl⟩
      | _ => simp [Statement.toTree, tag?] at hs
  | block body ih =>
    refine .of_fields "Block" (by decide) .block (.one "body" (by decide) (tells_listTree ih))
      rfl (fun _ => rfl) (fun p h => ?_) fun s hs => ?_
    · rwa [Statement.WellFormed] at h
    · cases s with
      | block body => exact ⟨body, rfl⟩
      | _ => simp [Statement.toTree, tag?] at hs
  | ret value =>
    refine .of_fields "Return" (by decide) .ret
      (.one "value" (by decide) (.option expr_ne_null fun e _ => tells_expr e))
      rfl (fun _ => rfl) (fun p h => ?_) fun s hs => ?_
    · rwa [Statement.WellFormed] at h
    · cases s with
      | ret value => exact ⟨value, rfl⟩
      | _ => simp [Statement.toTree, tag?] at hs
  | increment target =>
    refine .of_fields "IncrementVar" (by decide) .increment
      (.one "target" (by decide) (tells_expr target))
      rfl (fun _ => rfl) (fun p h => ?_) fun s hs => ?_
    · rw [Statement.WellFormed] at h
      exact h.2
    · cases s with
      | increment target => exact ⟨target, rfl⟩
      | _ => simp [Statement.toTree, tag?] at hs
  | decrement target =>
    refine .of_fields "DecrementVar" (by decide) .decrement
      (.one "target" (by decide) (tells_expr target))
      rfl (fun _ => rfl) (fun p h => ?_) fun s hs => ?_
    · rw [Statement.WellFormed] at h
      exact h.2
    · cases s with
      | decrement target => exact ⟨target, rfl⟩
      | _ => simp [Statement.toTree, tag?] at hs
  | eval e =>
    refine .of_fields "ExpressionStatement" (by decide) .eval
      (.one "expression" (by decide) (tells_expr e))
      rfl (fun _ => rfl) (fun p h => ?_) fun s hs => ?_
    · rw [Statement.WellFormed] at h
      exact h.2
    · cases s with
      | eval e => exact ⟨e, rfl⟩
      | _ => simp [Statement.toTree, tag?] at hs

end Statements

section Scripts

theorem tells_attribute (a : Attribute) : Tells Attribute.WellFormed Attribute.toTree a :=
  .of_fields "Attribute" (by decide) (fun p => ⟨p.1, p.2⟩)
    (.cons "name" (by decide) (tells_name a.name) (.one "args" (by decide) (tells_exprs a.args)))
    rfl (fun _ => rfl) (fun _ h => ⟨h.1, h.2⟩) fun a _ => ⟨(a.name, a.args), rfl⟩

theorem tells_attributes (as : List Attribute) :
    Tells (fun as => ∀ a ∈ as, a.WellFormed) (fun as => .list (as.map Attribute.toTree)) as :=
  .list fun a _ => tells_attribute a

theorem tells_parameter (p : Parameter) : Tells Parameter.WellFormed Parameter.toTree p :=
  .of_fields "Parameter" (by decide) (fun p => ⟨p.1, p.2⟩)
    (.cons "name" (by decide) (tells_name p.name) (.one "type" (by decide) (tells_type p.type)))
    rfl (fun _ => rfl) (fun _ h => ⟨h.1, h.2.1⟩) fun p _ => ⟨(p.name, p.type), rfl⟩

theorem tells_parameters (ps : List Parameter) :
    Tells (fun ps => ∀ p ∈ ps, p.WellFormed)
      (fun ps => .node "ParameterList" [("params", .list (ps.map Parameter.toTree))]) ps :=
  .of_fields "ParameterList" (by decide) id
    (.one "params" (by decide) (.list fun p _ => tells_parameter p))
    rfl (fun _ => rfl) (fun _ h => h) fun ps _ => ⟨ps, rfl⟩

/-- A method of a class or a function of a script. -/
theorem tells_method (m : MethodDecl) :
    Tells (fun m => m.HeadWellFormed ∧ ∀ body ∈ m.body, Statement.ListWellFormed body)
      MethodDecl.toTree m :=
  .of_fields "MethodDef" (by decide)
    (fun p => ⟨p.1, p.2.1, p.2.2.1, p.2.2.2.1, p.2.2.2.2.1, p.2.2.2.2.2.1, p.2.2.2.2.2.2⟩)
    (.cons "attributes" (by decide) (tells_attributes m.attributes)
      (.cons "name" (by decide) (tells_name m.name)
      (.cons "privacy" (by decide) (tells_privacy m.privacy)
      (.cons "static" (by decide) (tells_static m.isStatic)
      (.cons "params" (by decide) (tells_parameters m.params)
      (.cons "return_type" (by decide) (tells_type m.returns)
      (.one "body" (by decide) (tells_body (o := m.body) fun _ _ s _ => tells_statement s))))))))
    rfl (fun _ => rfl)
    (fun _ h => ⟨h.1.attributes, h.1.name, trivial, trivial, h.1.params, h.1.returns, h.2⟩)
    fun m _ => ⟨(m.attributes, m.name, m.privacy, m.isStatic, m.params, m.returns, m.body), rfl⟩

theorem tells_field (f : FieldDecl) : Tells FieldDecl.WellFormed FieldDecl.toTree f :=
  .of_fields "FieldDef" (by decide) (fun p => ⟨p.1, p.2.1, p.2.2.1, p.2.2.2.1, p.2.2.2.2⟩)
    (.cons "attributes" (by decide) (tells_attributes f.attributes)
      (.cons "name" (by decide) (tells_name f.name)
      (.cons "privacy" (by decide) (tells_privacy f.privacy)
      (.cons "static" (by decide) (tells_static f.isStatic)
      (.one "type" (by decide) (tells_type f.type))))))
    rfl (fun _ => rfl) (fun _ h => ⟨h.attributes, h.name, trivial, trivial, h.type⟩)
    fun f _ => ⟨(f.attributes, f.name, f.privacy, f.isStatic, f.type), rfl⟩

theorem wellFormed_of_body {m : MethodDecl} {body : List Statement} (hbody : m.body = some body)
    (h : Statement.ListWellFormed body) : ∀ ss ∈ m.body, Statement.ListWellFormed ss := by
  rw [hbody]
  rintro ss ⟨⟩
  exact h

theorem wellFormed_of_method {m : MethodDecl} (h : m.MethodWellFormed) :
    m.HeadWellFormed ∧ ∀ body ∈ m.body, Statement.ListWellFormed body := by
  obtain ⟨hhead, -, body, hbody, hlist⟩ := h
  exact ⟨hhead, wellFormed_of_body hbody hlist⟩

theorem wellFormed_of_function {m : MethodDecl} (h : m.FunctionWellFormed) :
    m.HeadWellFormed ∧ ∀ body ∈ m.body, Statement.ListWellFormed body := by
  obtain ⟨hhead, -, ⟨-, body, hbody, hlist⟩ | ⟨-, hnone⟩⟩ := h
  · exact ⟨hhead, wellFormed_of_body hbody hlist⟩
  · rw [hnone]
    exact ⟨hhead, nofun⟩

theorem tells_class (c : ClassDecl) : Tells ClassDecl.WellFormed ClassDecl.toTree c :=
  .of_fields "Class" (by decide) (fun p => ⟨p.1, p.2.1, p.2.2.1, p.2.2.2.1, p.2.2.2.2⟩)
    (.cons "attributes" (by decide) (tells_attributes c.attributes)
      (.cons "name" (by decide) (tells_name c.name)
      (.cons "privacy" (by decide) (tells_privacy c.privacy)
      (.cons "fields" (by decide) (.list fun f _ => tells_field f)
      (.one "methods" (by decide) (.list fun m _ => tells_method m))))))
    rfl (fun _ => rfl)
    (fun _ h => ⟨h.attributes, h.name, trivial, h.fields,
      fun m hm => wellFormed_of_method (h.methods m hm)⟩)
    fun c _ => ⟨(c.attributes, c.name, c.privacy, c.fields, c.methods), rfl⟩

theorem tells_path (path : List String) : Tells PathWellFormed Script.pathTree path :=
  .of_fields "Namespace" (by decide) id
    (.one "segments" (by decide) (.list fun name _ => tells_name name))
    rfl (fun _ => rfl) (fun _ h => h.2) fun path _ => ⟨path, rfl⟩

theorem tells_import (path : List String) : Tells PathWellFormed Script.importTree path :=
  .of_fields "Import" (by decide) id (.one "namespace" (by decide) (tells_path path))
    rfl (fun _ => rfl) (fun _ h => h) fun path _ => ⟨path, rfl⟩

theorem tells_script (s : Script) : Tells Script.WellFormed Script.toTree s :=
  .of_fields "Script" (by decide) (fun p => ⟨p.1, p.2.1, p.2.2.1, p.2.2.2⟩)
    (.cons "namespace" (by decide) (tells_path s.path)
      (.cons "imports" (by decide) (.list fun path _ => tells_import path)
      (.cons "classes" (by decide) (.list fun c _ => tells_class c)
      (.one "functions" (by decide) (.list fun m _ => tells_method m)))))
    rfl (fun _ => rfl)
    (fun _ h => ⟨h.path, h.imports, h.classes,
      fun m hm => wellFormed_of_function (h.functions m hm)⟩)
    fun s _ => ⟨(s.path, s.imports, s.classes, s.functions), rfl⟩

end Scripts

end FrontEnd.Program

namespace FrontEnd.Parse

open FrontEnd.Program FrontEnd.Tree

namespace Reading

/-- What a reading can give. -/
def WellFormed : (r : Reading) → r.Tree → Prop
  | expr => Expr.WellFormed
  | statements => Statement.ListWellFormed
  | script => Script.WellFormed

theorem wellFormed_of_read {r : Reading} {src : String} {tree : r.Tree} (h : r.read src = .ok tree) :
    r.WellFormed tree := by
  cases r with
  | expr => exact wellFormed_of_readExpr h
  | statements => exact wellFormed_of_readStatements h
  | script => exact wellFormed_of_readScript h

theorem tells_reading (r : Reading) (tree : r.Tree) : Tells r.WellFormed r.toTree tree := by
  cases r with
  | expr => exact tells_expr tree
  | statements => exact tells_listTree fun s _ => tells_statement s
  | script => exact tells_script tree

end Reading

/-- If what two sources are read as has one text, on a line or laid out from any indent, then they are
read as the same. -/
theorem text_determines {r : Reading} {src src' : String} {tree tree' : r.Tree}
    (h : r.read src = .ok tree) (h' : r.read src' = .ok tree') {indent indent' : Option Nat}
    {text : String} (ht : (r.toTree tree).render indent = .ok text)
    (ht' : (r.toTree tree').render indent' = .ok text) : tree = tree' := by
  have hwell := Reading.wellFormed_of_read h
  have hwell' := Reading.wellFormed_of_read h'
  obtain ⟨hlegible, heqs⟩ := r.tells_reading tree hwell
  obtain ⟨hlegible', -⟩ := r.tells_reading tree' hwell'
  exact heqs tree' hwell' (Tree.eq_of_render hlegible hlegible' ht ht')

/-- A string that looks like parts of a tree. -/
def treeLike : Expr :=
  .constant (.string "\x7d, value = [\n")

def treeLikeText : String :=
  "Constant \x7b value = \"\x7d, value = [\n\" \x7d"

/-- The string is read from both sources, and its tree has the same text on one line as laid out. -/
theorem text_determines_treeLike :
    ∃ e e' : Expr, readExpr "\"\x7d, value = [\n\"" = .ok e ∧
      readExpr "(\"\x7d, value = [\n\") // again" = .ok e' ∧
      e.toTree.render none = .ok treeLikeText ∧ e'.toTree.render (some 0) = .ok treeLikeText ∧
      e = e' := by
  have ht : tokenize "\"\x7d, value = [\n\"" = .ok [⟨.string, "\x7d, value = [\n", 1⟩] := by
    decide +kernel
  have ht' : tokenize "(\"\x7d, value = [\n\") // again" = .ok [⟨.symbol .openParen, "(", 0⟩,
      ⟨.string, "\x7d, value = [\n", 2⟩, ⟨.symbol .closeParen, ")", 16⟩] := by decide +kernel
  have hread : readExpr "\"\x7d, value = [\n\"" = .ok treeLike := source_of_ok ht (by rfl)
  have hread' : readExpr "(\"\x7d, value = [\n\") // again" = .ok treeLike :=
    source_of_ok ht' (by rfl)
  have hline : treeLike.toTree.render none = .ok treeLikeText := by rfl
  have hlaid : treeLike.toTree.render (some 0) = .ok treeLikeText := by rfl
  exact ⟨_, _, hread, hread', hline, hlaid, text_determines (r := .expr) hread hread' hline hlaid⟩

end FrontEnd.Parse
