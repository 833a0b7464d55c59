import Classwright.Proofs.Code.Blocks
import Classwright.Proofs.Code.Comments

/-!
# Indentation of generated code

Declarations, statements, branches and cases open and close their levels in different ways. All of them nest,
so the text of a file has an exact block structure, as long as the words in it are plain: a name with a line
feed in it would start a line of its own.

* **`CompilationUnit.words`** — all that is printed as it is: names, types and modifiers.
* **`PlainWord`** — identifiers, names with dots and operators among them.
* **`Stmt.nested_marks`**, **`CompilationUnit.nested_marks`** — by induction on statements, and from there
  for members, types and files: the layout nests.
* **`CompilationUnit.render_blockStructure`** — what follows for the text of a file.
-/

namespace Classwright.Code

/-! ## Words -/

mutual

/-- The words of a type. -/
def TypeRef.words : TypeRef → List String
  | .named name => [name]
  | .generic name arguments => name :: TypeRef.wordsAll arguments

/-- The words of types. -/
def TypeRef.wordsAll : List TypeRef → List String
  | [] => []
  | t :: rest => t.words ++ TypeRef.wordsAll rest

end

mutual

/-- The words of an expression. -/
def Expr.words : Expr → List String
  | .ident name | .outVar name => [name]
  | .type t => t.words
  | .member target name => target.words ++ [name]
  | .index target position => target.words ++ position.words
  | .call callee arguments => callee.words ++ Expr.wordsAll arguments
  | .new t arguments => t.words ++ Expr.wordsAll arguments
  | .cast t operand => t.words ++ operand.words
  | .asType operand t => operand.words ++ t.words
  | .binary left _ right => left.words ++ right.words
  | .not operand => operand.words
  | .conditional condition yes no => condition.words ++ yes.words ++ no.words
  | .this | .null | .bool _ | .int _ => []

/-- The words of expressions. -/
def Expr.wordsAll : List Expr → List String
  | [] => []
  | e :: rest => e.words ++ Expr.wordsAll rest

end

mutual

/-- The words of a statement. -/
def Stmt.words : Stmt → List String
  | .expr e | .ret e | .raise e => e.words
  | .assign target value => target.words ++ value.words
  | .declare name type init => (type.elim [] TypeRef.words) ++ name :: init.words
  | .ifElse condition yes no => condition.words ++ Stmt.wordsAll yes ++ Stmt.wordsAll no
  | .forBelow index bound body => index :: bound.words ++ Stmt.wordsAll body
  | .forEach item type items body => type.elim [] TypeRef.words ++ item :: items.words ++ Stmt.wordsAll body
  | .switch subject cases otherwise => subject.words ++ Stmt.wordsCases cases ++ Stmt.wordsAll otherwise
  | .unchecked body => Stmt.wordsAll body

/-- The words of statements. -/
def Stmt.wordsAll : List Stmt → List String
  | [] => []
  | stmt :: rest => stmt.words ++ Stmt.wordsAll rest

/-- The words of the cases of a switch. -/
def Stmt.wordsCases : List (Expr × List Stmt) → List String
  | [] => []
  | (label, body) :: rest => label.words ++ Stmt.wordsAll body ++ Stmt.wordsCases rest

end

/-- The words of a parameter. -/
def Param.words (p : Param) : List String := p.name :: p.type.words

/-- The words of a type parameter. -/
def TypeParam.words (t : TypeParam) : List String := t.name :: t.constraints

/-- The words of a member. -/
def Member.words : Member → List String
  | .property p => p.name :: p.type.words ++ p.modifiers ++
    match p.body with
    | .getter e => e.words
    | .auto | .abstract => []
  | .ctor c => c.modifiers ++ c.params.flatMap Param.words ++ Stmt.wordsAll c.body
  | .method m => m.name :: m.modifiers ++ m.typeParams.flatMap TypeParam.words ++
      m.params.flatMap Param.words ++ m.returns.elim [] TypeRef.words ++ m.body.elim [] Stmt.wordsAll
  | .enumValue name _ => [name]

/-- The documentation of a member. -/
def Member.doc : Member → Option DocComment
  | .property p => p.doc
  | .ctor c => c.doc
  | .method m => m.doc
  | .enumValue _ doc => doc

/-- The words of a file: names, types and modifiers. -/
def CompilationUnit.words (u : CompilationUnit) : List String :=
  u.namespaceName :: u.usings ++ u.decl.name :: u.decl.modifiers ++ TypeRef.wordsAll u.decl.bases ++
    u.decl.members.flatMap Member.words

/-- The documentation in a file. -/
def CompilationUnit.docs (u : CompilationUnit) : List DocComment :=
  u.decl.doc.toList ++ u.decl.members.flatMap fun m => m.doc.toList

/-- The names in documentation. -/
def DocComment.words (d : DocComment) : List String := d.params.map Prod.fst ++ d.exceptions.map Prod.fst

/-! ## Text on one line -/

/-- Text without a line feed. -/
def Unbroken (text : String) : Prop := '\n' ∉ text.toList

instance (text : String) : Decidable (Unbroken text) := inferInstanceAs (Decidable (¬ _))

/-- Text on one line that starts neither with a space nor with a brace. -/
structure Clean (text : String) : Prop where
  unbroken : Unbroken text
  start : starts text.toList = true

instance (text : String) : Decidable (Clean text) :=
  decidable_of_iff (Unbroken text ∧ starts text.toList = true)
    ⟨fun h => ⟨h.1, h.2⟩, fun h => ⟨h.unbroken, h.start⟩⟩

/-- A word that may stand anywhere in code: on one line, without a colon, and starting neither with a space
nor with a brace. -/
structure PlainWord (word : String) : Prop extends Clean word where
  colon : ':' ∉ word.toList

instance (word : String) : Decidable (PlainWord word) :=
  decidable_of_iff (Unbroken word ∧ starts word.toList = true ∧ ':' ∉ word.toList)
    ⟨fun h => ⟨⟨h.1, h.2.1⟩, h.2.2⟩, fun h => ⟨h.unbroken, h.start, h.colon⟩⟩

@[simp] theorem unbroken_append {a b : String} : Unbroken (a ++ b) ↔ Unbroken a ∧ Unbroken b := by
  simp [Unbroken]

theorem Clean.append {a b : String} (h : Clean a) (hb : Unbroken b) : Clean (a ++ b) := by
  refine ⟨unbroken_append.2 ⟨h.unbroken, hb⟩, ?_⟩
  have hstart := h.start
  cases ha : a.toList with
  | nil =>
    rw [ha] at hstart
    exact absurd hstart (by decide)
  | cons c rest =>
    rw [ha] at hstart
    rwa [String.toList_append, ha]

theorem PlainWord.append {a b : String} (h : PlainWord a) (hb : Unbroken b) (hcolon : ':' ∉ b.toList) :
    PlainWord (a ++ b) := by
  refine ⟨h.toClean.append hb, ?_⟩
  rw [String.toList_append, List.mem_append, not_or]
  exact ⟨h.colon, hcolon⟩

theorem not_mem_joinWith {c : Char} {separator : String} (hseparator : c ∉ separator.toList)
    {texts : List String} (h : ∀ text ∈ texts, c ∉ text.toList) :
    c ∉ (joinWith separator texts).toList := by
  fun_induction joinWith separator texts with
  | case1 => exact List.not_mem_nil
  | case2 text => exact h text List.mem_cons_self
  | case3 text rest _ ih =>
    obtain ⟨htext, hrest⟩ := List.forall_mem_cons.1 h
    simp [htext, hseparator, ih hrest]

/-- Words with something between them are a word, if there is one at all. -/
theorem plainWord_joinWith {separator word : String} {words : List String} (hunbroken : Unbroken separator)
    (hcolon : ':' ∉ separator.toList) (h : ∀ other ∈ word :: words, PlainWord other) :
    PlainWord (joinWith separator (word :: words)) := by
  obtain ⟨hword, hwords⟩ := List.forall_mem_cons.1 h
  cases words with
  | nil => exact hword
  | cons other rest =>
    exact (hword.append hunbroken hcolon).append
      (not_mem_joinWith hunbroken fun text htext => (hwords text htext).unbroken)
      (not_mem_joinWith hcolon fun text htext => (hwords text htext).colon)

theorem Expr.clean_parenthesize {text : String} (h : Clean text) (least level : Nat) :
    Clean (parenthesize least level text) := by
  unfold parenthesize
  split
  · exact ((by decide : Clean "(").append h.unbroken).append (by decide)
  · exact h

theorem clean_int (n : Int) : Clean (toString n) := by
  have hdigits (n : Nat) : Clean (toString n) := by
    have hdigit : ∀ c ∈ (toString n).toList, c.isDigit = true := fun c hc => by
      rw [Nat.toString_eq_repr, Nat.toList_repr] at hc
      exact Nat.isDigit_of_mem_toDigits (by decide) (by decide) hc
    refine ⟨fun hfeed => absurd (hdigit _ hfeed) (by decide), ?_⟩
    cases hlist : (toString n).toList with
    | nil =>
      rw [Nat.toString_eq_repr, Nat.toList_repr] at hlist
      exact absurd hlist Nat.toDigits_ne_nil
    | cons c rest =>
      have hc := hdigit c (hlist ▸ List.mem_cons_self)
      have hne : c ∉ [' ', '\x7b', '\x7d'] := fun hmem => by
        simp only [List.mem_cons, List.not_mem_nil, or_false] at hmem
        rcases hmem with rfl | rfl | rfl
        all_goals exact absurd hc (by decide)
      exact decide_eq_true hne
  cases n with
  | ofNat n => exact hdigits n
  | negSucc n =>
    rw [show toString (Int.negSucc n) = "-" ++ toString (n + 1) from rfl]
    exact (by decide : Clean "-").append (hdigits _).unbroken

mutual

/-- Types are written as words. -/
theorem TypeRef.plainWord_render : (t : TypeRef) → (∀ word ∈ t.words, PlainWord word) → PlainWord t.render
  | .named name, h => h name List.mem_cons_self
  | .generic name arguments, h => by
    obtain ⟨hname, harguments⟩ := List.forall_mem_cons.1 h
    have hall := TypeRef.plainWord_renderAll arguments harguments
    exact ((hname.append (by decide) (by decide)).append
      (not_mem_joinWith (by decide) fun text htext => (hall text htext).unbroken)
      (not_mem_joinWith (by decide) fun text htext => (hall text htext).colon)).append
      (by decide) (by decide)

theorem TypeRef.plainWord_renderAll : (types : List TypeRef) →
    (∀ word ∈ TypeRef.wordsAll types, PlainWord word) → ∀ text ∈ TypeRef.renderAll types, PlainWord text
  | [], _ => nofun
  | t :: rest, h => by
    obtain ⟨ht, hrest⟩ := List.forall_mem_append.1 h
    exact List.forall_mem_cons.2 ⟨t.plainWord_render ht, TypeRef.plainWord_renderAll rest hrest⟩

end

mutual

theorem Expr.clean_render : (e : Expr) → (∀ word ∈ e.words, PlainWord word) → Clean e.render
  | .ident name, h => (h name List.mem_cons_self).toClean
  | .this, _ | .null, _ | .bool true, _ | .bool false, _ => by decide
  | .int n, _ => clean_int n
  | .type t, h => (t.plainWord_render h).toClean
  | .member target name, h => by
    obtain ⟨htarget, hname⟩ := List.forall_mem_append.1 h
    have hword := List.forall_mem_singleton.1 hname
    exact ((clean_parenthesize (target.clean_render htarget) _ _).append (by decide)).append hword.unbroken
  | .index target position, h => by
    obtain ⟨htarget, hposition⟩ := List.forall_mem_append.1 h
    exact (((clean_parenthesize (target.clean_render htarget) _ _).append (by decide)).append
      (position.clean_render hposition).unbroken).append (by decide)
  | .call callee arguments, h => by
    obtain ⟨hcallee, harguments⟩ := List.forall_mem_append.1 h
    exact (((clean_parenthesize (callee.clean_render hcallee) _ _).append (by decide)).append
      (not_mem_joinWith (by decide) (Expr.unbroken_renderAll arguments harguments))).append (by decide)
  | .new t arguments, h => by
    obtain ⟨ht, harguments⟩ := List.forall_mem_append.1 h
    exact ((((by decide : Clean "new ").append (t.plainWord_render ht).unbroken).append
      (by decide)).append
      (not_mem_joinWith (by decide) (Expr.unbroken_renderAll arguments harguments))).append (by decide)
  | .cast t operand, h => by
    obtain ⟨ht, hoperand⟩ := List.forall_mem_append.1 h
    exact (((by decide : Clean "(").append (t.plainWord_render ht).unbroken).append
      (by decide)).append (clean_parenthesize (operand.clean_render hoperand) _ _).unbroken
  | .asType operand t, h => by
    obtain ⟨hoperand, ht⟩ := List.forall_mem_append.1 h
    exact ((clean_parenthesize (operand.clean_render hoperand) _ _).append (by decide)).append
      (t.plainWord_render ht).unbroken
  | .binary left op right, h => by
    obtain ⟨hleft, hright⟩ := List.forall_mem_append.1 h
    exact ((((clean_parenthesize (left.clean_render hleft) _ _).append (by decide)).append
      (by cases op <;> decide)).append (by decide)).append
      (clean_parenthesize (right.clean_render hright) _ _).unbroken
  | .not operand, h =>
    (by decide : Clean "!").append (clean_parenthesize (operand.clean_render h) _ _).unbroken
  | .conditional condition yes no, h => by
    obtain ⟨h', hno⟩ := List.forall_mem_append.1 h
    obtain ⟨hcondition, hyes⟩ := List.forall_mem_append.1 h'
    exact ((((clean_parenthesize (condition.clean_render hcondition) _ _).append (by decide)).append
      (clean_parenthesize (yes.clean_render hyes) _ _).unbroken).append (by decide)).append
      (clean_parenthesize (no.clean_render hno) _ _).unbroken
  | .outVar name, h => (by decide : Clean "out var ").append (h name List.mem_cons_self).unbroken

theorem Expr.unbroken_renderAll : (es : List Expr) → (∀ word ∈ Expr.wordsAll es, PlainWord word) →
    ∀ text ∈ Expr.renderAll es, Unbroken text
  | [], _ => nofun
  | e :: rest, h => by
    obtain ⟨he, hrest⟩ := List.forall_mem_append.1 h
    exact List.forall_mem_cons.2 ⟨(e.clean_render he).unbroken, Expr.unbroken_renderAll rest hrest⟩

end

/-! ## Lines -/

theorem Clean.ordinary {text : String} (h : Clean text) (hlast : text.toList.getLast? ≠ some ':') :
    Ordinary text := by
  refine ⟨h.unbroken, h.start, Bool.eq_false_iff.2 fun hlabel => hlast ?_⟩
  rw [isLabel, (span_of_not_space (not_space_of_starts h.start)).2, Bool.or_eq_true,
    Bool.and_eq_true] at hlabel
  rcases hlabel with hdefault | ⟨-, hcase⟩
  · rw [of_decide_eq_true hdefault]
    decide
  · exact of_decide_eq_true hcase

/-- A line that ends with text without a colon is no label. -/
theorem Clean.ordinary_append {front text : String} (h : Clean (front ++ text)) (hne : text.toList ≠ [])
    (hcolon : ':' ∉ text.toList) : Ordinary (front ++ text) := by
  refine h.ordinary fun hlast => hcolon (List.mem_of_getLast? ?_)
  rw [String.toList_append, List.getLast?_append] at hlast
  cases hlist : text.toList.getLast? with
  | none => exact absurd (List.getLast?_eq_none_iff.1 hlist) hne
  | some c => rwa [hlist] at hlast

theorem Clean.ended {text sign : String} (h : Clean text) (hsign : sign = ";" ∨ sign = ")") :
    Ordinary (text ++ sign) := by
  have hend : Unbroken sign ∧ sign.toList ≠ [] ∧ ':' ∉ sign.toList := by
    rcases hsign with rfl | rfl <;> decide
  exact (h.append hend.1).ordinary_append hend.2.1 hend.2.2

/-- A comment is no label, whatever stands in it. -/
theorem ordinary_comment {text : String} (h : Unbroken text) (hstart : text.toList.head? = some '/') :
    Ordinary text := by
  obtain ⟨rest, htext⟩ := List.head?_eq_some_iff.1 hstart
  have hspace : text.toList.head? ≠ some ' ' := by
    simp [hstart]
  refine ⟨h, by rw [starts, hstart]; rfl, ?_⟩
  rw [isLabel, (span_of_not_space hspace).2, htext]
  simp

/-! ## Statements -/

theorem nested_line {text : String} {content : Content} {inner : List Mark} (h : Ordinary text)
    (hinner : Nested content inner) : Nested .code (.line text :: braced inner) :=
  .append (.line h) (.braced hinner)

theorem clean_typeOrVar {type : Option TypeRef} (h : ∀ word ∈ type.elim [] TypeRef.words, PlainWord word) :
    Clean (typeOrVar type) := by
  cases type with
  | none => exact ⟨by decide, by decide⟩
  | some t => exact (t.plainWord_render h).toClean

/-- The label of a case. -/
theorem labels_case {label : Expr} (h : ∀ word ∈ label.words, PlainWord word) :
    Labels ("case " ++ label.render ++ ":") := by
  have hclean : Clean ("case " ++ label.render ++ ":") :=
    ((by decide : Clean "case ").append (label.clean_render h).unbroken).append (by decide)
  refine ⟨hclean.unbroken, hclean.start, ?_⟩
  have hlast : ("case " ++ label.render ++ ":").toList.getLast? = some ':' := by
    rw [String.toList_append, List.getLast?_append]
    rfl
  rw [isLabel, (span_of_not_space (not_space_of_starts hclean.start)).2, hlast]
  simp

mutual

theorem Stmt.nested_marks : (stmt : Stmt) → (∀ word ∈ stmt.words, PlainWord word) → Nested .code stmt.marks
  | .expr e, h => .line ((e.clean_render h).ended (Or.inl rfl))
  | .assign target value, h => by
    obtain ⟨htarget, hvalue⟩ := List.forall_mem_append.1 h
    exact .line (Clean.ended (((target.clean_render htarget).append (by decide)).append
      (value.clean_render hvalue).unbroken) (Or.inl rfl))
  | .declare name type init, h => by
    obtain ⟨htype, h'⟩ := List.forall_mem_append.1 h
    obtain ⟨hname, hinit⟩ := List.forall_mem_cons.1 h'
    have hlocal : Clean (typeOrVar type ++ " " ++ name) :=
      ((clean_typeOrVar htype).append (by decide)).append hname.unbroken
    exact .line (Clean.ended ((hlocal.append (by decide)).append (init.clean_render hinit).unbroken)
      (Or.inl rfl))
  | .ret e, h =>
    .line (Clean.ended ((by decide : Clean "return ").append (e.clean_render h).unbroken) (Or.inl rfl))
  | .raise e, h =>
    .line (Clean.ended ((by decide : Clean "throw ").append (e.clean_render h).unbroken) (Or.inl rfl))
  | .ifElse condition yes no, h => by
    obtain ⟨h', hno⟩ := List.forall_mem_append.1 h
    obtain ⟨hcondition, hyes⟩ := List.forall_mem_append.1 h'
    have hhead : Clean ("if (" ++ condition.render) :=
      (by decide : Clean "if (").append (condition.clean_render hcondition).unbroken
    refine .append (nested_line (hhead.ended (Or.inr rfl)) (Stmt.nested_sequence yes hyes)) ?_
    split
    · exact .nil
    · exact nested_line ((by decide : Clean "else").ordinary (by decide)) (Stmt.nested_sequence no hno)
  | .forBelow index bound body, h => by
    obtain ⟨h', hbody⟩ := List.forall_mem_append.1 h
    obtain ⟨hindex, hbound⟩ := List.forall_mem_cons.1 h'
    have hstart : Clean ("for (int " ++ index ++ " = 0; " ++ index) :=
      (((by decide : Clean "for (int ").append hindex.unbroken).append (by decide)).append hindex.unbroken
    have htest : Clean ("for (int " ++ index ++ " = 0; " ++ index ++ " < " ++ bound.render) :=
      (hstart.append (by decide)).append (bound.clean_render hbound).unbroken
    exact nested_line (Clean.ended ((htest.append (by decide)).append hindex.unbroken) (Or.inr rfl))
      (Stmt.nested_sequence body hbody)
  | .forEach item type items body, h => by
    obtain ⟨h', hbody⟩ := List.forall_mem_append.1 h
    obtain ⟨htype, h''⟩ := List.forall_mem_append.1 h'
    obtain ⟨hitem, hitems⟩ := List.forall_mem_cons.1 h''
    have hlocal : Clean ("foreach (" ++ typeOrVar type ++ " " ++ item) :=
      (((by decide : Clean "foreach (").append (clean_typeOrVar htype).unbroken).append (by decide)).append
        hitem.unbroken
    exact nested_line (Clean.ended ((hlocal.append (by decide)).append (items.clean_render hitems).unbroken)
      (Or.inr rfl)) (Stmt.nested_sequence body hbody)
  | .switch subject cases otherwise, h => by
    obtain ⟨h', hotherwise⟩ := List.forall_mem_append.1 h
    obtain ⟨hsubject, hcases⟩ := List.forall_mem_append.1 h'
    have hhead : Clean ("switch (" ++ subject.render) :=
      (by decide : Clean "switch (").append (subject.clean_render hsubject).unbroken
    refine nested_line (hhead.ended (Or.inr rfl)) (.append (Stmt.nested_caseMarks cases hcases) ?_)
    split
    · exact .nil
    · exact .case ⟨by decide, by decide, by decide⟩ (Stmt.nested_sequence otherwise hotherwise)
  | .unchecked body, h =>
    nested_line ((by decide : Clean "unchecked").ordinary (by decide)) (Stmt.nested_sequence body h)

theorem Stmt.nested_sequence : (stmts : List Stmt) → (∀ word ∈ Stmt.wordsAll stmts, PlainWord word) →
    Nested .code (Stmt.sequence stmts)
  | [], _ => .nil
  | stmt :: rest, h => by
    obtain ⟨hstmt, hrest⟩ := List.forall_mem_append.1 h
    exact .append (stmt.nested_marks hstmt) (Stmt.nested_sequence rest hrest)

theorem Stmt.nested_caseMarks : (cases : List (Expr × List Stmt)) →
    (∀ word ∈ Stmt.wordsCases cases, PlainWord word) → Nested .cases (Stmt.caseMarks cases)
  | [], _ => .nil
  | (label, body) :: rest, h => by
    obtain ⟨h', hrest⟩ := List.forall_mem_append.1 h
    obtain ⟨hlabel, hbody⟩ := List.forall_mem_append.1 h'
    exact .append (.case (labels_case hlabel) (Stmt.nested_sequence body hbody))
      (Stmt.nested_caseMarks rest hrest)

end

/-! ## Documentation -/

theorem not_mem_lineOf {current : List Char} (h : '\n' ∉ current) : Unbroken (Text.lineOf current) := by
  unfold Text.lineOf
  split
  · next line =>
    rw [Unbroken, String.toList_ofList, List.mem_reverse]
    exact fun hmem => h (List.mem_cons_of_mem _ hmem)
  · rwa [Unbroken, String.toList_ofList, List.mem_reverse]

/-- The lines of a text have no line feed. -/
theorem unbroken_linesOf {current : List Char} (h : '\n' ∉ current) (rest : List Char) :
    ∀ line ∈ Text.linesOf current rest, Unbroken line := by
  fun_induction Text.linesOf current rest with
  | case1 => exact List.forall_mem_nil _
  | case2 current _ =>
    refine List.forall_mem_singleton.2 ?_
    rwa [Unbroken, String.toList_ofList, List.mem_reverse]
  | case3 current rest ih => exact List.forall_mem_cons.2 ⟨not_mem_lineOf h, ih List.not_mem_nil⟩
  | case4 current c rest hc ih =>
    exact ih (List.not_mem_cons_of_ne_of_not_mem (fun heq => hc heq.symm) h)

theorem ordinary_commentLine {sign line : String} (hsign : sign.toList.head? = some '/')
    (hunbroken : Unbroken sign) (h : Unbroken line) : Ordinary (commentLine sign line) := by
  have htrim : '\n' ∉ (Text.trimEnd line).toList := by
    rw [Text.trimEnd, String.toList_ofList, List.mem_reverse]
    exact fun hmem => h (List.mem_reverse.1 ((List.dropWhile_sublist _).subset hmem))
  have htext := toList_commentLine sign line
  refine ordinary_comment ?_ (by simp [htext, hsign])
  rw [Unbroken, htext, List.mem_append, not_or]
  refine ⟨hunbroken, ?_⟩
  split
  · exact List.not_mem_nil
  · exact List.not_mem_cons_of_ne_of_not_mem (by decide) htrim

theorem ordinary_lines {sign : String} (hsign : sign.toList.head? = some '/')
    (hunbroken : Unbroken sign) (text : String) :
    ∀ line ∈ (Text.lines text).map (commentLine sign), Ordinary line := by
  rw [List.forall_mem_map]
  exact fun line hline =>
    ordinary_commentLine hsign hunbroken (unbroken_linesOf List.not_mem_nil text.toList line hline)

theorem ordinary_elementLines {first last : String} (hfirst : Unbroken first) (hlast : Unbroken last)
    (text : String) : ∀ line ∈ elementLines first text last, Ordinary line := by
  have htag {tag : String} (htag : Unbroken tag) : Ordinary ("/// " ++ tag) :=
    ordinary_comment (unbroken_append.2 ⟨by decide, htag⟩) (by simp)
  rw [elementLines, List.forall_mem_append, List.forall_mem_append, List.forall_mem_singleton,
    List.forall_mem_singleton]
  exact ⟨⟨htag hfirst, ordinary_lines rfl (by decide) text⟩, htag hlast⟩

theorem DocComment.ordinary_lines (d : DocComment) (h : ∀ word ∈ d.words, Unbroken word) :
    ∀ line ∈ d.lines, Ordinary line := by
  obtain ⟨hparams, hexceptions⟩ := List.forall_mem_append.1 h
  rw [List.forall_mem_map] at hparams hexceptions
  have htag {front word : String} (hfront : Unbroken front) (hword : Unbroken word) :
      Unbroken (front ++ word ++ "\">") :=
    unbroken_append.2 ⟨unbroken_append.2 ⟨hfront, hword⟩, by decide⟩
  rw [lines, List.forall_mem_append, List.forall_mem_append, List.forall_mem_append,
    List.forall_mem_flatMap, List.forall_mem_flatMap]
  refine ⟨⟨⟨ordinary_elementLines (by decide) (by decide) _, fun p hp => ?_⟩, ?_⟩, fun p hp => ?_⟩
  · exact ordinary_elementLines (htag (by decide) (hparams p hp)) (by decide) _
  · split
    · exact ordinary_elementLines (by decide) (by decide) _
    · exact List.forall_mem_nil _
  · exact ordinary_elementLines (htag (by decide) (hexceptions p hp)) (by decide) _

theorem nested_lines {texts : List String} (h : ∀ text ∈ texts, Ordinary text) :
    Nested .code (texts.map .line) := by
  induction texts with
  | nil => exact .nil
  | cons text texts ih =>
    obtain ⟨htext, hrest⟩ := List.forall_mem_cons.1 h
    exact .append (.line htext) (ih hrest)

theorem nested_docMarks {doc : Option DocComment} (h : ∀ d ∈ doc, ∀ word ∈ d.words, Unbroken word) :
    Nested .code (docMarks doc) := by
  cases doc with
  | none => exact .nil
  | some d => exact nested_lines (d.ordinary_lines (h d rfl))

/-! ## Declarations -/

theorem Clean.ne_nil {text : String} (h : Clean text) : text.toList ≠ [] := fun hnil => by
  have hstart := h.start
  rw [hnil] at hstart
  exact absurd hstart (by decide)

theorem PlainWord.ordinary {word : String} (h : PlainWord word) : Ordinary word :=
  h.toClean.ordinary fun hlast => h.colon (List.mem_of_getLast? hlast)

theorem withModifiers_append (modifiers : List String) (a b : String) :
    withModifiers modifiers (a ++ b) = withModifiers modifiers a ++ b := by
  unfold withModifiers
  split
  · rfl
  · rw [← String.append_assoc]

theorem clean_withModifiers {modifiers : List String} {text : String}
    (hmodifiers : ∀ word ∈ modifiers, PlainWord word) (h : Clean text) :
    Clean (withModifiers modifiers text) := by
  cases modifiers with
  | nil => exact h
  | cons word rest =>
    have hjoined : PlainWord (joinWith " " (word :: rest)) :=
      plainWord_joinWith (by decide) (by decide) hmodifiers
    exact (hjoined.toClean.append (by decide)).append h.unbroken

theorem unbroken_renderParams {params : List Param}
    (h : ∀ word ∈ params.flatMap Param.words, PlainWord word) : Unbroken (renderParams params) := by
  refine not_mem_joinWith (by decide) (List.forall_mem_map.2 fun p hp => ?_)
  obtain ⟨hname, htype⟩ := List.forall_mem_cons.1 (List.forall_mem_flatMap.1 h p hp)
  exact (((p.type.plainWord_render htype).toClean.append (by decide)).append hname.unbroken).unbroken

theorem PropertyDecl.nested_marks {owner : TypeKind} (p : PropertyDecl)
    (h : ∀ word ∈ (Member.property p).words, PlainWord word)
    (hdoc : ∀ d ∈ p.doc, ∀ word ∈ d.words, Unbroken word) : Nested .code (p.marks owner) := by
  obtain ⟨h', hbody⟩ := List.forall_mem_append.1 h
  obtain ⟨h'', hmodifiers⟩ := List.forall_mem_append.1 h'
  obtain ⟨hname, htype⟩ := List.forall_mem_cons.1 h''
  have hhead : Clean (withModifiers p.modifiers (p.type.render ++ " " ++ p.name)) :=
    clean_withModifiers hmodifiers
      (((p.type.plainWord_render htype).toClean.append (by decide)).append hname.unbroken)
  have hshort {accessors : String}
      (haccessors : accessors = " \x7b get; \x7d" ∨ accessors = " \x7b get; set; \x7d") :
      Nested .code [.line (withModifiers p.modifiers (p.type.render ++ " " ++ p.name) ++ accessors)] := by
    refine .line ?_
    rcases haccessors with rfl | rfl
    all_goals exact (hhead.append (by decide)).ordinary_append (by decide) (by decide)
  unfold PropertyDecl.marks
  refine .append (nested_docMarks hdoc) ?_
  split
  · exact hshort (Or.inr rfl)
  · exact hshort (Or.inl rfl)
  · next e hgetter =>
    rw [hgetter] at hbody
    split
    · exact hshort (Or.inl rfl)
    · have hline : Ordinary (withModifiers p.modifiers (p.type.render ++ " " ++ p.name)) := by
        rw [withModifiers_append] at hhead ⊢
        exact hhead.ordinary_append hname.toClean.ne_nil hname.colon
      have hreturn : Clean ("return " ++ e.render) :=
        (by decide : Clean "return ").append (e.clean_render hbody).unbroken
      exact nested_line hline (nested_line ((by decide : Clean "get").ordinary (by decide))
        (.line (hreturn.ended (Or.inl rfl))))

theorem ConstructorDecl.nested_marks {className : String} (c : ConstructorDecl)
    (hname : PlainWord className) (h : ∀ word ∈ (Member.ctor c).words, PlainWord word)
    (hdoc : ∀ d ∈ c.doc, ∀ word ∈ d.words, Unbroken word) : Nested .code (c.marks className) := by
  obtain ⟨h', hbody⟩ := List.forall_mem_append.1 h
  obtain ⟨hmodifiers, hparams⟩ := List.forall_mem_append.1 h'
  have hhead : Clean (withModifiers c.modifiers (className ++ "(" ++ renderParams c.params)) :=
    clean_withModifiers hmodifiers
      ((hname.toClean.append (by decide)).append (unbroken_renderParams hparams))
  unfold ConstructorDecl.marks
  rw [withModifiers_append]
  exact .append (nested_docMarks hdoc)
    (nested_line (hhead.ended (Or.inr rfl)) (Stmt.nested_sequence c.body hbody))

/-- The constraints of a type parameter, as they stand after the head of a method. -/
def TypeParam.clause (t : TypeParam) : String := " where " ++ t.name ++ " : " ++ joinWith ", " t.constraints

section

variable {signature : String} {params : List TypeParam}

theorem clean_constrained (h : Clean signature) (hparams : ∀ t ∈ params, ∀ word ∈ t.words, PlainWord word) :
    Clean (signature ++ String.join (params.map TypeParam.clause)) := by
  refine h.append ?_
  rw [Unbroken, String.toList_join, List.flatMap_map, List.mem_flatMap]
  rintro ⟨t, ht, hfeed⟩
  obtain ⟨hname, hconstraints⟩ := List.forall_mem_cons.1 (hparams t ht)
  have hjoined : Unbroken (joinWith ", " t.constraints) :=
    not_mem_joinWith (by decide) fun word hword => (hconstraints word hword).unbroken
  have hclause : Unbroken t.clause := by
    simp +decide [TypeParam.clause, hname.unbroken, hjoined]
  exact hclause hfeed

/-- The head of a method ends with a parenthesis or with a constraint. -/
theorem ordinary_constrained (h : Clean signature)
    (hparams : ∀ t ∈ params, t.constraints ≠ [] ∧ ∀ word ∈ t.words, PlainWord word) :
    Ordinary (signature ++ ")" ++ String.join (params.map TypeParam.clause)) := by
  have hclean := clean_constrained (h.append (by decide : Unbroken ")")) fun t ht => (hparams t ht).2
  -- the last constraint, if there is one, ends the line
  rcases List.eq_nil_or_concat params with rfl | ⟨front, t, rfl⟩
  · have hnil : signature ++ ")" ++ String.join ([].map TypeParam.clause) = signature ++ ")" := by
      simp
    rw [hnil]
    exact h.ended (Or.inr rfl)
  · obtain ⟨hne, hwords⟩ := hparams t (by simp)
    obtain ⟨word, rest, hconstraints⟩ := List.exists_cons_of_ne_nil hne
    have hjoined : PlainWord (joinWith ", " t.constraints) := by
      rw [hconstraints]
      exact plainWord_joinWith (by decide) (by decide) (hconstraints ▸ (List.forall_mem_cons.1 hwords).2)
    have hlast : signature ++ ")" ++ String.join ((front.concat t).map TypeParam.clause) =
        signature ++ ")" ++ String.join (front.map TypeParam.clause) ++ (" where " ++ t.name ++ " : ") ++
          joinWith ", " t.constraints := by
      simp [TypeParam.clause, String.join_append, String.append_assoc]
    rw [hlast] at hclean ⊢
    exact hclean.ordinary_append hjoined.toClean.ne_nil hjoined.colon

end

theorem MethodDecl.head_eq (m : MethodDecl) (h : ∀ word ∈ (Member.method m).words, PlainWord word) :
    ∃ signature, Clean signature ∧ m.head = signature ++ ")" ++
      String.join ((m.typeParams.filter fun t => !t.constraints.isEmpty).map TypeParam.clause) := by
  simp only [Member.words, List.forall_mem_append, List.forall_mem_cons] at h
  obtain ⟨⟨⟨⟨⟨hname, hmodifiers⟩, htypeParams⟩, hparams⟩, hreturns⟩, -⟩ := h
  rw [List.forall_mem_flatMap] at htypeParams
  unfold MethodDecl.head
  dsimp only
  rw [withModifiers_append]
  refine ⟨_, clean_withModifiers hmodifiers ?_, rfl⟩
  refine ((((Clean.append ?_ (by decide)).append hname.unbroken).append ?_).append (by decide)).append
    (unbroken_renderParams hparams)
  · split
    · next t ht =>
      rw [ht] at hreturns
      exact (t.plainWord_render hreturns).toClean
    · decide
  · split
    · decide
    · have hnames : Unbroken (joinWith ", " (m.typeParams.map (·.name))) :=
        not_mem_joinWith (by decide) (List.forall_mem_map.2 fun t ht =>
          (htypeParams t ht t.name List.mem_cons_self).unbroken)
      exact unbroken_append.2 ⟨unbroken_append.2 ⟨by decide, hnames⟩, by decide⟩

theorem MethodDecl.nested_marks (m : MethodDecl) (h : ∀ word ∈ (Member.method m).words, PlainWord word)
    (hdoc : ∀ d ∈ m.doc, ∀ word ∈ d.words, Unbroken word) : Nested .code m.marks := by
  obtain ⟨signature, hsignature, hhead⟩ := m.head_eq h
  have hparams : ∀ t ∈ m.typeParams.filter fun t => !t.constraints.isEmpty,
      t.constraints ≠ [] ∧ ∀ word ∈ t.words, PlainWord word := by
    intro t ht
    obtain ⟨hmem, hne⟩ := List.mem_filter.1 ht
    refine ⟨by simpa using hne, fun word hword => h word ?_⟩
    simp only [Member.words, List.mem_append, List.mem_flatMap]
    exact Or.inl (Or.inl (Or.inl (Or.inr ⟨t, hmem, hword⟩)))
  unfold MethodDecl.marks
  refine .append (nested_docMarks hdoc) ?_
  rw [hhead]
  split
  · next body hbody =>
    refine nested_line (ordinary_constrained hsignature hparams)
      (Stmt.nested_sequence body fun word hword => h word ?_)
    simp only [Member.words, List.mem_append, hbody]
    exact Or.inr hword
  · exact .line ((clean_constrained (hsignature.append (by decide)) fun t ht => (hparams t ht).2).ended
      (Or.inl rfl))

theorem nested_memberMarks {kind : TypeKind} {typeName : String} (hname : PlainWord typeName)
    {members : List Member} (h : ∀ m ∈ members, ∀ word ∈ m.words, PlainWord word)
    (hdocs : ∀ m ∈ members, ∀ d ∈ m.doc, ∀ word ∈ d.words, Unbroken word) :
    Nested .code (memberMarks kind typeName members) := by
  induction members with
  | nil => exact .nil
  | cons m rest ih =>
    obtain ⟨hm, hrest⟩ := List.forall_mem_cons.1 h
    obtain ⟨hdoc, hdocs'⟩ := List.forall_mem_cons.1 hdocs
    have hgap : Nested .code (if rest.isEmpty then [] else [Mark.blank]) := by
      split
      · exact .nil
      · exact .blank
    refine .append ?_ (ih hrest hdocs')
    cases m with
    | property p => exact .append (p.nested_marks hm hdoc) hgap
    | ctor c => exact .append (c.nested_marks hname hm hdoc) hgap
    | method m => exact .append (m.nested_marks hm hdoc) hgap
    | enumValue name doc =>
      have hword := List.forall_mem_singleton.1 hm
      refine .append (nested_docMarks hdoc) (.line ?_)
      split
      · exact hword.ordinary
      · exact (hword.toClean.append (by decide)).ordinary_append (by decide) (by decide)

theorem TypeDecl.nested_marks (d : TypeDecl) (hname : PlainWord d.name)
    (hmodifiers : ∀ word ∈ d.modifiers, PlainWord word)
    (hbases : ∀ word ∈ TypeRef.wordsAll d.bases, PlainWord word)
    (hmembers : ∀ m ∈ d.members, ∀ word ∈ m.words, PlainWord word)
    (hdoc : ∀ doc ∈ d.doc, ∀ word ∈ doc.words, Unbroken word)
    (hdocs : ∀ m ∈ d.members, ∀ doc ∈ m.doc, ∀ word ∈ doc.words, Unbroken word) : Nested .code d.marks := by
  have hkeyword : Clean (d.kind.keyword ++ " ") := by
    cases d.kind <;> decide
  have hhead : Clean (withModifiers d.modifiers (d.kind.keyword ++ " " ++ d.name)) :=
    clean_withModifiers hmodifiers (hkeyword.append hname.unbroken)
  unfold TypeDecl.marks
  refine .append (nested_docMarks hdoc) (nested_line ?_ (nested_memberMarks hname hmembers hdocs))
  cases hlist : d.bases with
  | nil =>
    rw [withModifiers_append] at hhead
    rw [if_pos List.isEmpty_nil, String.append_empty, withModifiers_append]
    exact hhead.ordinary_append hname.toClean.ne_nil hname.colon
  | cons t rest =>
    rw [hlist] at hbases
    have hjoined : PlainWord (joinWith ", " (TypeRef.renderAll (t :: rest))) :=
      plainWord_joinWith (by decide) (by decide) (TypeRef.plainWord_renderAll (t :: rest) hbases)
    rw [if_neg (by simp), ← String.append_assoc]
    exact ((hhead.append (by decide)).append hjoined.unbroken).ordinary_append hjoined.toClean.ne_nil
      hjoined.colon

/-- **The layout of a file nests.** -/
theorem CompilationUnit.nested_marks (header : Option String) (u : CompilationUnit)
    (hwords : ∀ word ∈ u.words, PlainWord word)
    (hdocs : ∀ doc ∈ u.docs, ∀ word ∈ doc.words, Unbroken word) : Nested .code (u.marks header) := by
  simp only [words, List.forall_mem_append, List.forall_mem_cons, List.forall_mem_flatMap] at hwords
  obtain ⟨⟨⟨⟨hnamespace, husings⟩, hname, hmodifiers⟩, hbases⟩, hmembers⟩ := hwords
  simp only [docs, List.forall_mem_append, List.forall_mem_flatMap, Option.mem_toList] at hdocs
  obtain ⟨hdoc, hmemberDocs⟩ := hdocs
  have hnamespaceLine : Ordinary ("namespace " ++ u.namespaceName) :=
    ((by decide : Clean "namespace ").append hnamespace.unbroken).ordinary_append hnamespace.toClean.ne_nil
      hnamespace.colon
  refine .append (.append ?_ ?_) (nested_line hnamespaceLine
    (u.decl.nested_marks hname hmodifiers hbases hmembers hdoc hmemberDocs))
  · cases header with
    | none => exact .nil
    | some text => exact .append (nested_lines (ordinary_lines rfl (by decide) text)) .blank
  · split
    · exact .nil
    · refine .append ?_ .blank
      have hlines : ∀ line ∈ u.usings.map fun name => "using " ++ name ++ ";", Ordinary line :=
        List.forall_mem_map.2 fun name hname =>
          Clean.ended ((by decide : Clean "using ").append (husings name hname).unbroken) (Or.inl rfl)
      have hnested := nested_lines hlines
      rwa [List.map_map] at hnested

/-- **The block structure of printed code is exact.** If the words of a file are plain, braces on lines of
their own are balanced, and every line with text is indented by what is open around it. While the file is
laid out, the level is above zero wherever it falls, and zero at the end. -/
theorem CompilationUnit.render_blockStructure (header : Option String) (u : CompilationUnit)
    (hwords : ∀ word ∈ u.words, PlainWord word)
    (hdocs : ∀ doc ∈ u.docs, ∀ word ∈ doc.words, Unbroken word) :
    BlockStructure (textLines (u.render header)) ∧
    (∀ before mark after, u.marks header = before ++ mark :: after → mark = .closing ∨ mark = .dedent →
      1 ≤ before.foldl Mark.next 0) ∧
    (u.marks header).foldl Mark.next 0 = 0 := by
  have hnested := u.nested_marks header hwords hdocs
  exact ⟨hnested.blockStructure, hnested.descends (Nat.le_refl 0), hnested.level 0⟩

/-- A file with a switch in a case of a switch. -/
def switchUnit : CompilationUnit where
  namespaceName := "Geo.Shapes"
  name := "Circle"
  usings := ["System"]
  decl := {
    kind := .classType
    name := "Circle"
    bases := [.generic "IEquatable" [.named "Circle"]]
    members := [
      .property { name := "Kind", type := .named "int", body := .getter (.int (-1)) },
      .method {
        name := "Visit"
        modifiers := ["public", "static"]
        typeParams := [⟨"T", ["class"]⟩]
        body := some [
          .switch (.ident "a") [
            (.ident "b", [.switch (.ident "c") [(.ident "d", [.ret .null])] [.unchecked []]])] [] ] }] }

/-- The notice reads like labels, but a comment is none. -/
theorem CompilationUnit.render_blockStructure_switch :
    (∀ word ∈ switchUnit.words, PlainWord word) ∧
    (∀ doc ∈ switchUnit.docs, ∀ word ∈ doc.words, Unbroken word) ∧
    BlockStructure (textLines (switchUnit.render (some "case a:\ndefault:"))) := by
  have hwords : ∀ word ∈ switchUnit.words, PlainWord word := by decide
  have hdocs : ∀ doc ∈ switchUnit.docs, ∀ word ∈ doc.words, Unbroken word := by decide
  exact ⟨hwords, hdocs, (switchUnit.render_blockStructure _ hwords hdocs).1⟩

end Classwright.Code
