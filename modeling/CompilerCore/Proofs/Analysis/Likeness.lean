import CompilerCore.Analysis.State
import CompilerCore.Proofs.Tree.Induction
import CompilerCore.Proofs.Types.Correspondence
import CompilerCore.Tree.Program

/-!
# Expressions that differ in type numbers

Two expressions are *alike* if they differ in nothing but the numbers of their types, and those are
related.  The relation also says which names an expression may look up and which symbols it may
declare.  Folding treats expressions alike whose types correspond.
-/

namespace CompilerCore

/-- Notes that differ only in types that correspond. -/
structure Note.Like (R : TypeId → TypeId → Prop) (n n' : Note) : Prop where
  token : n.token = n'.token
  type : Option.Rel R n.type n'.type
  isPlace : n.isPlace = n'.isPlace

/-- Two expressions that differ in type numbers only, look up names in `N` and declare symbols in
`D`. -/
inductive Expr.Like (R : TypeId → TypeId → Prop) (N : String → Token → Prop) (D : SymbolId → Prop) :
    Expr → Expr → Prop
  | literal {n n' : Note} (value : Literal) : n.Like R n' →
    Like R N D (.literal n value) (.literal n' value)
  | name {n n' : Note} (text : String) (symbol : Option SymbolId) : n.Like R n' → N text n.token →
    Like R N D (.name n text symbol) (.name n' text symbol)
  | binary {n n' : Note} {lhs lhs' rhs rhs' : Expr} (op : BinaryOp) : n.Like R n' →
    Like R N D lhs lhs' → Like R N D rhs rhs' →
    Like R N D (.binary n op lhs rhs) (.binary n' op lhs' rhs')
  | unary {n n' : Note} {e e' : Expr} (op : UnaryOp) : n.Like R n' → Like R N D e e' →
    Like R N D (.unary n op e) (.unary n' op e')
  | conditional {n n' : Note} {c c' yes yes' no no' : Expr} : n.Like R n' → Like R N D c c' →
    Like R N D yes yes' → Like R N D no no' →
    Like R N D (.conditional n c yes no) (.conditional n' c' yes' no')
  | member {n n' : Note} {e e' : Expr} (text : String) (throughPointer : Bool) : n.Like R n' →
    Like R N D e e' → Like R N D (.member n e text throughPointer) (.member n' e' text throughPointer)
  | qualified {n n' : Note} (scope text : String) : n.Like R n' →
    Like R N D (.qualified n scope text) (.qualified n' scope text)
  | call {n n' : Note} {es es' : List Expr} (callee : String) (symbol : Option SymbolId) :
    n.Like R n' → N callee n.token → es.Forall₂ (Like R N D) es' →
    Like R N D (.call n callee symbol es) (.call n' callee symbol es')
  | index {n n' : Note} {e e' i i' : Expr} : n.Like R n' → Like R N D e e' → Like R N D i i' →
    Like R N D (.index n e i) (.index n' e' i')
  | collection {n n' : Note} {es es' : List Expr} : n.Like R n' → es.Forall₂ (Like R N D) es' →
    Like R N D (.collection n es) (.collection n' es')
  | cast {n n' : Note} {e e' : Expr} {target target' : TypeId} (isImplicit : Bool) : n.Like R n' →
    Like R N D e e' → R target target' →
    Like R N D (.cast n e target isImplicit) (.cast n' e' target' isImplicit)
  | assign {n n' : Note} {e e' v v' : Expr} : n.Like R n' → Like R N D e e' → Like R N D v v' →
    Like R N D (.assign n e v) (.assign n' e' v')
  | update {n n' : Note} {e e' v v' : Expr} (op : BinaryOp) : n.Like R n' → Like R N D e e' →
    Like R N D v v' → Like R N D (.update n op e v) (.update n' op e' v')
  | declare {n n' : Note} (x : SymbolId) : n.Like R n' → D x →
    Like R N D (.declare n x none) (.declare n' x none)
  | declareWith {n n' : Note} {e e' : Expr} (x : SymbolId) : n.Like R n' → D x → Like R N D e e' →
    Like R N D (.declare n x (some e)) (.declare n' x (some e'))
  | sizeOf {n n' : Note} {type type' : TypeId} : n.Like R n' → R type type' →
    Like R N D (.sizeOf n type) (.sizeOf n' type')

variable {R S : TypeId → TypeId → Prop} {N : String → Token → Prop} {D : SymbolId → Prop}
  {e e' : Expr} {n n' : Note}

lemma Note.Like.mono (hsub : R ≤ S) (h : n.Like R n') : n.Like S n' :=
  ⟨h.token, optionRel_mono hsub h.type, h.isPlace⟩

namespace Expr.Like

section

variable (h : e.Like R N D e')
include h

lemma note : e.note.Like R e'.note := by
  cases h <;> assumption

lemma token : e.token = e'.token := h.note.token

lemma type? : Option.Rel R e.type? e'.type? := h.note.type

lemma isPlace : e.isPlace = e'.isPlace := h.note.isPlace

lemma literal? : e.literal? = e'.literal? := by
  cases h <;> rfl

lemma isLiteral : e.isLiteral = e'.isLiteral := by
  rw [Expr.isLiteral, Expr.isLiteral, h.literal?]

lemma integer? : e.integer? = e'.integer? := by
  rw [Expr.integer?, Expr.integer?, h.literal?]

lemma withNote (hn : n.Like R n') (htoken : n.token = e.token) :
    (e.withNote n).Like R N D (e'.withNote n') := by
  cases h with
  | literal value => exact .literal value hn
  | name text symbol _ hname => exact .name text symbol hn (htoken ▸ hname)
  | binary op _ hl hr => exact .binary op hn hl hr
  | unary op _ he => exact .unary op hn he
  | conditional _ hc hy hno => exact .conditional hn hc hy hno
  | member text throughPointer _ he => exact .member text throughPointer hn he
  | qualified scope text => exact .qualified scope text hn
  | call callee symbol _ hname hes => exact .call callee symbol hn (htoken ▸ hname) hes
  | index _ he hi => exact .index hn he hi
  | collection _ hes => exact .collection hn hes
  | cast isImplicit _ he htarget => exact .cast isImplicit hn he htarget
  | assign _ he hv => exact .assign hn he hv
  | update op _ he hv => exact .update op hn he hv
  | declare x _ hx => exact .declare x hn hx
  | declareWith x _ hx he => exact .declareWith x hn hx he
  | sizeOf _ htype => exact .sizeOf hn htype

end

lemma mono (hsub : R ≤ S) (h : e.Like R N D e') : e.Like S N D e' := by
  refine @Expr.Like.rec R N D (fun e e' _ => e.Like S N D e')
    (fun es es' _ => es.Forall₂ (Like S N D) es') ?literal ?name ?binary ?unary ?conditional ?member
    ?qualified ?call ?index ?collection ?cast ?assign ?update ?declare ?declareWith ?sizeOf .nil
    (fun _ _ => .cons) e e' h
  case literal => exact fun value hn => .literal value (hn.mono hsub)
  case name => exact fun text symbol hn hname => .name text symbol (hn.mono hsub) hname
  case binary => exact fun op hn _ _ hl hr => .binary op (hn.mono hsub) hl hr
  case unary => exact fun op hn _ he => .unary op (hn.mono hsub) he
  case conditional => exact fun hn _ _ _ hc hy hno => .conditional (hn.mono hsub) hc hy hno
  case member => exact fun text throughPointer hn _ he => .member text throughPointer (hn.mono hsub) he
  case qualified => exact fun scope text hn => .qualified scope text (hn.mono hsub)
  case call => exact fun callee symbol hn hname _ hes => .call callee symbol (hn.mono hsub) hname hes
  case index => exact fun hn _ _ he hi => .index (hn.mono hsub) he hi
  case collection => exact fun hn _ hes => .collection (hn.mono hsub) hes
  case cast =>
    exact fun isImplicit hn _ htarget he => .cast isImplicit (hn.mono hsub) he (hsub _ _ htarget)
  case assign => exact fun hn _ _ he hv => .assign (hn.mono hsub) he hv
  case update => exact fun op hn _ _ he hv => .update op (hn.mono hsub) he hv
  case declare => exact fun x hn hx => .declare x (hn.mono hsub) hx
  case declareWith => exact fun x hn hx _ he => .declareWith x (hn.mono hsub) hx he
  case sizeOf => exact fun hn htype => .sizeOf (hn.mono hsub) (hsub _ _ htype)

lemma constant (value : Literal) (token : Token) (h : R a b) :
    (Expr.constant value token a).Like R N D (Expr.constant value token b) :=
  .literal value ⟨rfl, .some h, rfl⟩

end Expr.Like

/-! ## Statements and items -/

mutual

/-- Two statements in a scope that differ in type numbers only. -/
inductive Stmt.Like (R : TypeId → TypeId → Prop) (N : ScopeId → String → Token → Prop)
    (D : SymbolId → Prop) : ScopeId → Stmt → Stmt → Prop
  | expr {e e' : Expr} (token : Token) : e.Like R (N scope) D e' →
    Like R N D scope (.expr token e) (.expr token e')
  | block {body body' : List Stmt} (token : Token) (inner : ScopeId) :
    ListLike R N D inner body body' →
    Like R N D scope (.block token inner body) (.block token inner body')
  | seq {body body' : List Stmt} (token : Token) :
    ListLike R N D scope body body' → Like R N D scope (.seq token body) (.seq token body')
  | branch {e e' : Expr} {yes yes' : Stmt} (token : Token) :
    e.Like R (N scope) D e' → Like R N D scope yes yes' →
    Like R N D scope (.branch token e yes none) (.branch token e' yes' none)
  | branchElse {e e' : Expr} {yes yes' no no' : Stmt} (token : Token) :
    e.Like R (N scope) D e' → Like R N D scope yes yes' → Like R N D scope no no' →
    Like R N D scope (.branch token e yes (some no)) (.branch token e' yes' (some no'))
  | whileLoop {e e' : Expr} {body body' : Stmt} (token : Token) :
    e.Like R (N scope) D e' → Like R N D scope body body' →
    Like R N D scope (.whileLoop token e body) (.whileLoop token e' body')
  | doLoop {e e' : Expr} {body body' : Stmt} (token : Token) :
    Like R N D scope body body' → e.Like R (N scope) D e' →
    Like R N D scope (.doLoop token body e) (.doLoop token body' e')
  | forLoop {o o' p p' : Option Expr} {body body' : Stmt} (token : Token) :
    Option.Rel (Expr.Like R (N scope) D) o o' → Option.Rel (Expr.Like R (N scope) D) p p' →
    Like R N D scope body body' →
    Like R N D scope (.forLoop token none o p body) (.forLoop token none o' p' body')
  | forLoopWith {o o' p p' : Option Expr} {first first' body body' : Stmt}
    (token : Token) : Like R N D scope first first' →
    Option.Rel (Expr.Like R (N scope) D) o o' → Option.Rel (Expr.Like R (N scope) D) p p' →
    Like R N D scope body body' →
    Like R N D scope (.forLoop token (some first) o p body)
      (.forLoop token (some first') o' p' body')
  | breakLoop (token : Token) : Like R N D scope (.breakLoop token) (.breakLoop token)
  | continueLoop (token : Token) : Like R N D scope (.continueLoop token) (.continueLoop token)
  | ret {o o' : Option Expr} (token : Token) :
    Option.Rel (Expr.Like R (N scope) D) o o' → Like R N D scope (.ret token o) (.ret token o')
  | goto (token : Token) (label : String) : Like R N D scope (.goto token label) (.goto token label)
  | gotoAddress {e e' : Expr} (token : Token) : e.Like R (N scope) D e' →
    Like R N D scope (.gotoAddress token e) (.gotoAddress token e')
  | label (token : Token) (name : String) : Like R N D scope (.label token name) (.label token name)
  | switch {e e' : Expr} {body body' : Stmt} (token : Token)
    (labels : Option SwitchLabels) : e.Like R (N scope) D e' → Like R N D scope body body' →
    Like R N D scope (.switch token e body labels) (.switch token e' body' labels)
  | caseLabel {e e' : Expr} (token : Token) : e.Like R (N scope) D e' →
    Like R N D scope (.caseLabel token e) (.caseLabel token e')
  | defaultLabel (token : Token) : Like R N D scope (.defaultLabel token) (.defaultLabel token)
  | assertion {e e' : Expr} (token : Token) (message : Option String) : e.Like R (N scope) D e' →
    Like R N D scope (.assertion token e message) (.assertion token e' message)
  | asm (token : Token) (code : InlineAsm) : Like R N D scope (.asm token code) (.asm token code)
  | cleanup {body body' : Stmt} (token : Token) :
    Like R N D scope body body' → Like R N D scope (.cleanup token body) (.cleanup token body')
  | empty (token : Token) : Like R N D scope (.empty token) (.empty token)

/-- Two lists of statements in a scope that differ in type numbers only. -/
inductive Stmt.ListLike (R : TypeId → TypeId → Prop) (N : ScopeId → String → Token → Prop)
    (D : SymbolId → Prop) : ScopeId → List Stmt → List Stmt → Prop
  | nil : ListLike R N D scope [] []
  | cons {st st' : Stmt} {rest rest' : List Stmt} : Like R N D scope st st' →
    ListLike R N D scope rest rest' → ListLike R N D scope (st :: rest) (st' :: rest')

end

/-- Two items, of a program with a global scope, that differ in type numbers only. -/
inductive Item.Like (R : TypeId → TypeId → Prop) (N : ScopeId → String → Token → Prop)
    (D : SymbolId → Prop) (scope : ScopeId) : Item → Item → Prop
  | function {f : Function} {body : Stmt} : R f.returnType f.returnType →
    f.body.Like R N D f.scope body → Like R N D scope (.function f) (.function { f with body })
  | global {v : Global} {statement : Stmt} : v.statement.Like R N D scope statement →
    Like R N D scope (.global v) (.global { v with statement })

section Mono

variable {M : ScopeId → String → Token → Prop} {scope : ScopeId}

lemma Stmt.Like.mono (hsub : R ≤ S) {st : Stmt} (h : st.Like R M D scope st') :
    st.Like S M D scope st' := by
  have hexpr {scope : ScopeId} {e e' : Expr} (h : e.Like R (M scope) D e') := h.mono hsub
  have hoption {scope : ScopeId} {o o' : Option Expr} (h : Option.Rel (Expr.Like R (M scope) D) o o') :
      Option.Rel (Expr.Like S (M scope) D) o o' :=
    optionRel_mono (fun _ _ => hexpr) h
  refine @Stmt.Like.rec R M D (fun scope st st' _ => st.Like S M D scope st')
    (fun scope ss ss' _ => Stmt.ListLike S M D scope ss ss') ?expr ?block ?seq ?branch ?branchElse
    ?whileLoop ?doLoop ?forLoop ?forLoopWith .breakLoop .continueLoop ?ret .goto ?gotoAddress .label
    ?switch ?caseLabel .defaultLabel ?assertion .asm ?cleanup .empty .nil (fun _ _ => .cons) scope
    st st' h
  case expr => exact fun token he => .expr token (hexpr he)
  case block => exact fun token inner _ => .block token inner
  case seq => exact fun token _ => .seq token
  case branch => exact fun token he _ => .branch token (hexpr he)
  case branchElse => exact fun token he _ _ => .branchElse token (hexpr he)
  case whileLoop => exact fun token he _ => .whileLoop token (hexpr he)
  case doLoop => exact fun token _ he hbody => .doLoop token hbody (hexpr he)
  case forLoop => exact fun token ho hp _ => .forLoop token (hoption ho) (hoption hp)
  case forLoopWith =>
    exact fun token _ ho hp _ hfirst => .forLoopWith token hfirst (hoption ho) (hoption hp)
  case ret => exact fun token ho => .ret token (hoption ho)
  case gotoAddress => exact fun token he => .gotoAddress token (hexpr he)
  case switch => exact fun token labels he _ => .switch token labels (hexpr he)
  case caseLabel => exact fun token he => .caseLabel token (hexpr he)
  case assertion => exact fun token message he => .assertion token message (hexpr he)
  case cleanup => exact fun token _ => .cleanup token

lemma Stmt.ListLike.mono (hsub : R ≤ S) {ss : List Stmt} (h : Stmt.ListLike R M D scope ss ss') :
    Stmt.ListLike S M D scope ss ss' := by
  induction ss generalizing ss' with
  | nil =>
    cases h
    exact .nil
  | cons _ _ ih =>
    cases h with
    | cons hst hss => exact .cons (hst.mono hsub) (ih hss)

lemma Item.Like.mono (hsub : R ≤ S) {i : Item} (h : i.Like R M D scope i') :
    i.Like S M D scope i' := by
  cases h with
  | function hreturn hbody => exact .function (hsub _ _ hreturn) (hbody.mono hsub)
  | global hstatement => exact .global (hstatement.mono hsub)

end Mono

/-! ## Folding -/

namespace Fold

open TypeTable (Same Over)

variable (ht : Over base t) (hu : Over base u)

include ht hu

lemma scalar?_same (h : Same base t u a b) : t.scalar? a = u.scalar? b := by
  have hshape := (h.underlying ht hu).shape ht hu
  rw [TypeTable.scalar?, TypeTable.scalar?]
  generalize t.shape (t.underlying a) = s, u.shape (u.underlying b) = s' at hshape ⊢
  cases hshape <;> rfl

lemma normalize_same (h : Same base t u a b) (value : Int64) :
    normalize t a value = normalize u b value := by
  rw [normalize, normalize, scalar?_same ht hu h]

lemma cast?_same (h : Same base t u a b) (h' : Same base t u a' b') (literal : Literal) :
    cast? t literal a a' = cast? u literal b b' := by
  have hanswers := h'.answers ht hu
  unfold cast?
  rw [hanswers.isVoid, hanswers.isBool, hanswers.isPointer, scalar?_same ht hu h,
    scalar?_same ht hu h']
  simp only [normalize_same ht hu h']

lemma unary?_same (h : Same base t u a b) (op : UnaryOp) (literal : Literal) :
    unary? t op a literal = unary? u op b literal := by
  rw [unary?, unary?, scalar?_same ht hu h]
  simp only [normalize_same ht hu h]

lemma value_same (h : e.Like (Same base t u) N D e') : value t e = value u e' := by
  cases h with
  | @binary _ _ _ lhs' _ rhs' _ _ hl hr =>
    rw [value, value, hl.literal?, hr.literal?]
    cases lhs'.literal? with
    | none => rfl
    | some =>
      cases rhs'.literal? with
      | none => rfl
      | some =>
        refine optionRel_elim hl.type? rfl fun hsame => ?_
        simp only [binary, (hsame.answers ht hu).isPointer, scalar?_same ht hu hsame]
  | @unary _ _ _ e' _ _ he =>
    rw [value, value, he.literal?]
    cases e'.literal? with
    | none => rfl
    | some =>
      refine optionRel_elim he.type? rfl fun hsame => ?_
      simp only [unary?_same ht hu hsame]
  | conditional _ hc hy hno => rw [value, value, hc.literal?, hy.literal?, hno.literal?]
  | @cast _ _ _ e' _ _ _ _ he htarget =>
    rw [value, value, he.literal?]
    cases e'.literal? with
    | none => rfl
    | some =>
      refine optionRel_elim he.type? rfl fun hsame => ?_
      simp only [cast?_same ht hu hsame htarget]
  | _ => rfl

/-- Folding takes expressions that are alike to the same error or to expressions that are alike. -/
lemma node_same (h : e.Like (Same base t u) N D e') :
    (∃ error, node t e = .error error ∧ node u e' = .error error) ∨
      ∃ r r', node t e = .ok r ∧ node u e' = .ok r' ∧ r.Like (Same base t u) N D r' := by
  rw [node, node, value_same ht hu h, h.token]
  refine optionRel_elim h.type? ?_ @fun a b hsame => ?_
  · exact .inr ⟨e, e', rfl, rfl, h⟩
  · cases value u e' with
    | error error => exact .inl ⟨error, rfl, rfl⟩
    | ok result =>
      cases result with
      | none => exact .inr ⟨e, e', rfl, rfl, h⟩
      | some literal =>
        have htruth : asTruth t a literal = asTruth u b literal := by
          rw [asTruth, asTruth, (hsame.answers ht hu).isBool]
        refine .inr ⟨_, _, rfl, rfl, ?_⟩
        rw [htruth]
        exact .constant _ _ hsame

end Fold

end CompilerCore
