import CompilerCore.Demo
import CompilerCore.Proofs.Analysis.Grounded

/-!
# The order of items

Two items are *entangled* if one of them declares a symbol without a type and the other one mentions
it.  Items that are not entangled do not see each other's effects, so exchanging neighbours that are not
entangled changes neither the outcome of an analysis nor the types that it finds.  For entangled items
the order matters: what an item is left with after a wave in which it has errors is not what it started
with, and may be refused where the original is accepted.
-/

namespace CompilerCore

open List Build Demo

/-- A permutation made of exchanges of neighbours that are not related. -/
inductive Reordered {α : Type} (D : α → α → Prop) : List α → List α → Prop
  | refl (l : List α) : Reordered D l l
  | cons {l l' : List α} (a : α) : Reordered D l l' → Reordered D (a :: l) (a :: l')
  | swap {a b : α} (l : List α) : ¬D a b → Reordered D (a :: b :: l) (b :: a :: l)
  | trans {l l' l'' : List α} : Reordered D l l' → Reordered D l' l'' → Reordered D l l''

namespace Reordered

variable {α : Type} {D : α → α → Prop} {l l' : List α}

lemma perm (h : Reordered D l l') : l.Perm l' := by
  induction h with
  | refl l => exact .refl l
  | cons a _ ih => exact .cons a ih
  | swap l => exact .swap _ _ l
  | trans _ _ ih ih' => exact ih.trans ih'

lemma move (l' : List α) (h : ∀ b ∈ l, ¬D a b) : Reordered D (a :: (l ++ l')) (l ++ a :: l') := by
  induction l with
  | nil => exact .refl _
  | cons b _ ih =>
    rw [forall_mem_cons] at h
    exact .trans (.swap _ h.1) (.cons b (ih h.2))

/-- Two parts of a list can be exchanged if nothing in one is related to anything in the other. -/
lemma append (h : ∀ a ∈ l, ∀ b ∈ m, ¬D a b) : Reordered D (l ++ m) (m ++ l) := by
  induction l with
  | nil =>
    rw [append_nil]
    exact .refl _
  | cons a l ih =>
    rw [forall_mem_cons] at h
    exact .trans (.cons a (ih h.2)) (move l h.1)

end Reordered

/-- One of two items declares a symbol without a type, and the other one mentions it. -/
def Item.Entangled (scopes : ScopeTree) (scope : ScopeId) (a b : Item) : Prop :=
  (∃ x ∈ a.infers scopes scope, x ∈ b.mentions scopes scope) ∨
    ∃ x ∈ b.infers scopes scope, x ∈ a.mentions scopes scope

instance (scopes : ScopeTree) (scope : ScopeId) (a b : Item) :
    Decidable (Item.Entangled scopes scope a b) :=
  inferInstanceAs (Decidable (_ ∨ _))

namespace Analysis.Setting

variable {g : Setting} {scope : ScopeId} {s s' : State}

/-! ## Exchanging two steps -/

lemma Aligned.on (h : g.Aligned s s') (hg : g.Whole) (M W : SymbolId → Prop) :
    (g.on M W).Aligned s s' :=
  ⟨h.left, h.right, h.names, h.names', fun x _ => h.symbols x (hg.tracked x)⟩

/-- Two steps can be exchanged if neither finds out about symbols that the other one looks at. -/
lemma exchange (hg : g.Whole) (h : g.Aligned s s') (hW : ∀ x, W x → M x)
    (hW' : ∀ x, W' x → M' x) (hsep : ∀ x, W x → ¬M' x) (hseparate' : ∀ x, W' x → ¬M x)
    (hP : ∀ {R S a a'}, (∀ x y, R x y → S x y) → P R a a' → P S a a')
    (hQ : ∀ {R S b b'}, (∀ x y, R x y → S x y) → Q R b b' → Q S b b')
    (hm : ∀ {t t'}, (g.on M W).Aligned t t' → (∀ x y, g.Same s s' x y → g.Same t t' x y) →
      (g.on M W).Beside m m' t t' P)
    (hk : ∀ {t t'}, (g.on M' W').Aligned t t' → (∀ x y, g.Same s s' x y → g.Same t t' x y) →
      (g.on M' W').Beside k k' t t' Q) :
    g.Beside (do let a ← m; let b ← k; return (a, b)) (do let b ← k'; let a ← m'; return (a, b)) s s'
      (P.prod Q) := by
  have hlift {t1 t2 u1 u2 : State} (ht : t1.types.GrowsTo t2.types) (hu : u1.types.GrowsTo u2.types)
      (x y : TypeId) (hxy : g.Same t1 u1 x y) : g.Same t2 u2 x y :=
    TypeTable.Same.mono ht hu hxy
  let s1 := (m s).2
  let s1' := (k' s').2
  -- Each step is compared with itself from the same states first, to see what it leaves alone.
  have hfirst := hm (h.on hg M W) fun _ _ => id
  have hfirst' := hk (h.on hg M' W') fun _ _ => id
  have halign : (g.on M W).Aligned s s1' := by
    refine ⟨h.left, hfirst'.states.right, h.names, hfirst'.states.names', fun x hx => ?_⟩
    obtain heq | hw := hfirst'.right.symbols x
    · rw [heq]
      exact optionRel_mono (hlift (.refl _) hfirst'.right.types) (h.symbols x (hg.tracked x))
    · exact absurd hx (hseparate' x hw)
  have halign' : (g.on M' W').Aligned s1 s' := by
    refine ⟨hfirst.states.left, h.right, hfirst.states.names, h.names', fun x hx => ?_⟩
    obtain heq | hw := hfirst.left.symbols x
    · rw [heq]
      exact optionRel_mono (hlift hfirst.left.types (.refl _)) (h.symbols x (hg.tracked x))
    · exact absurd hx (hsep x hw)
  -- Then it is compared with itself before and after the other step.
  have hthere := hm halign (hlift (.refl _) hfirst'.right.types)
  have hback := hk halign' (hlift hfirst.left.types (.refl _))
  refine ⟨⟨hback.states.left, hthere.states.right, hback.states.names, hthere.states.names', ?_⟩,
    ⟨hthere.left.types.trans hback.left.types, fun x => .inr (hg.inferred x)⟩,
    ⟨hback.right.types.trans hthere.right.types, fun x => .inr (hg.inferred x)⟩,
    hP (hlift hback.left.types (.refl _)) hthere.result,
    hQ (hlift (.refl _) hthere.right.types) hback.result⟩
  intro x _
  by_cases hx : W x
  · obtain heq | hx' := hback.left.symbols x
    · have hrel := hthere.states.symbols x (hW x hx)
      rw [← heq] at hrel
      exact optionRel_mono (hlift hback.left.types (.refl _)) hrel
    · exact absurd (hW' x hx') (hsep x hx)
  · have hstay := (hthere.left.symbols x).resolve_right hx
    have hstay' := (hthere.right.symbols x).resolve_right hx
    by_cases hx' : W' x
    · have hrel := hback.states.symbols x (hW' x hx')
      rw [← hstay'] at hrel
      exact optionRel_mono (hlift (.refl _) hthere.right.types) hrel
    · have hrel := h.symbols x (hg.tracked x)
      rw [← hstay, ← (hback.left.symbols x).resolve_right hx',
        ← (hback.right.symbols x).resolve_right hx', ← hstay'] at hrel
      exact optionRel_mono (hlift (hthere.left.types.trans hback.left.types)
        (hback.right.types.trans hthere.right.types)) hrel

/-! ## Exchanging two items of a wave -/

/-- Lists with matching elements, except that two neighbours stand the other way round. -/
inductive Exchanged {α : Type} (T A B : α → α → Prop) : List α → List α → Prop
  | skip {i i' : α} {l l' : List α} : T i i' → Exchanged T A B l l' →
    Exchanged T A B (i :: l) (i' :: l')
  | here {a a' b b' : α} {l l' : List α} : A a a' → B b b' → l.Forall₂ T l' →
    Exchanged T A B (a :: b :: l) (b' :: a' :: l')

/-- The two lists of items have `a` before `b` and `b` before `a`, for items that mention what `a` and
`b` do. -/
def exchangeLink (g : Setting) (scope : ScopeId) (a b : Item) : Link (List Item) := fun R =>
  Exchanged (g.itemLink scope R) ((g.ofItem scope a).itemLink scope R)
    ((g.ofItem scope b).itemLink scope R)

lemma wave_exchanged (hg : g.Whole)
    (hab : ¬Item.Entangled g.scopes scope a b) (h : g.Aligned s s')
    (hle : ∀ x y, R x y → g.Same s s' x y) (hitems : g.exchangeLink scope a b R items items') :
    g.Beside (wave scope items) (wave scope items') s s' (waveLink (g.exchangeLink scope a b)) := by
  induction hitems generalizing s s' with
  | skip hi _ ih =>
    refine .bind (pendingItem_beside h (.mono hle hi)) ?_
    rintro ⟨i, m, deferred⟩ ⟨i', m', deferred'⟩ s1 s1' h1 hle1 ⟨hi, hm⟩
    refine .bind (ih h1 fun x y hxy => hle1 x y (hle x y hxy)) ?_
    rintro ⟨rest, n, more⟩ ⟨rest', n', more'⟩ s2 s2' h2 hle2 ⟨hrest, hn⟩
    exact .pure h2 ⟨.skip (.mono hle2 hi) hrest, congrArg₂ (· + ·) hm hn⟩
  | @here i i' j j' l l' hi hj hl =>
    have hpair := exchange hg h (fun _ => mentions_of_infers) (fun _ => mentions_of_infers)
      (fun x hx hx' => hab (.inl ⟨x, hx, hx'⟩)) (fun x hx hx' => hab (.inr ⟨x, hx, hx'⟩))
      (fun hle r => ⟨.mono hle r.1, r.2⟩) (fun hle r => ⟨.mono hle r.1, r.2⟩)
      (fun ht hle' => pendingItem_beside ht (.mono hle' (.mono hle hi)))
      (fun ht hle' => pendingItem_beside ht (.mono hle' (.mono hle hj)))
    have hl0 := hl.imp fun _ _ => Item.Like.mono hle
    -- The two items are one step, after which the others are analyzed as before.
    have hleft : wave scope (i :: j :: l) = (do
        let r ← pendingItem scope i
        let q ← pendingItem scope j
        return (r, q)) >>= fun p => do
          let w ← wave scope l
          return (p.1.1 :: p.2.1 :: w.1, p.1.2.1 + (p.2.2.1 + w.2.1),
            p.1.2.2 ++ (p.2.2.2 ++ w.2.2)) := rfl
    have hright : wave scope (j' :: i' :: l') = (do
        let q ← pendingItem scope j'
        let r ← pendingItem scope i'
        return (r, q)) >>= fun p => do
          let w ← wave scope l'
          return (p.2.1 :: p.1.1 :: w.1, p.2.2.1 + (p.1.2.1 + w.2.1),
            p.2.2.2 ++ (p.1.2.2 ++ w.2.2)) := rfl
    rw [hleft, hright]
    refine .bind hpair ?_
    rintro r r' s1 s1' h1 hle1 ⟨⟨hi, hm⟩, hj, hn⟩
    refine .bind (wave_beside h1 (hl0.imp fun _ _ => .mono hle1)) ?_
    rintro ⟨others, k, more⟩ ⟨others', k', more'⟩ s2 s2' h2 hle2 ⟨hothers, hk⟩
    refine .pure h2 ⟨.here (.mono hle2 hi) (.mono hle2 hj) hothers, ?_⟩
    dsimp only at hm hn hk ⊢
    omega

/-! ## All waves -/

lemma Paired.quiet {m' : Analyze Unit} (h : g.Aligned s s') (hm : Quiet s (m s).2)
    (hm' : Quiet s' (m' s').2) : g.Beside m m' s s' .eq := by
  obtain ⟨d, hm⟩ := hm
  obtain ⟨d', hm'⟩ := hm'
  refine ⟨?_, ?_, ?_, rfl⟩
  · rw [hm, hm']
    exact ⟨h.left, h.right, h.names, h.names', h.symbols⟩
  · rw [hm]
    exact ⟨.refl _, fun _ => .inl rfl⟩
  · rw [hm']
    exact ⟨.refl _, fun _ => .inl rfl⟩

/-- If waves over related items have the same numbers of errors and leave related items, then repeated
waves have the same result. -/
lemma waves_beside (hwave : ∀ {s s' : State} {items items' : List Item},
      g.Aligned s s' → L (g.Same s s') items items' →
      g.Beside (wave scope items) (wave scope items') s s' (waveLink L))
    (config : Config) (left number : Nat) (previous : Option Nat)
    (deferred deferred' : Diagnostics) (h : g.Aligned s s')
    (hitems : L (g.Same s s') items items') :
    g.Beside (waves config scope left number previous deferred items)
      (waves config scope left number previous deferred' items') s s' fun _ r r' => r.1 = r'.1 := by
  induction left generalizing number previous deferred deferred' items items' s s' with
  | zero =>
    exact .bind (.quiet h ⟨_, rfl⟩ ⟨_, rfl⟩) fun _ _ _ _ h1 _ _ => .pure h1 rfl
  | succ _ ih =>
    refine .bind (hwave h hitems) ?_
    rintro ⟨items, errors, found⟩ ⟨items', errors', found'⟩ s1 s1' h1 - ⟨hitems, herrs⟩
    obtain rfl : errors = errors' := herrs
    dsimp only
    cases waveOutcome errors previous with
    | converged =>
      dsimp only
      split
      · refine .get (.bind (.quiet h1 ?_ ?_) fun _ _ _ _ h2 _ _ => .pure h2 rfl)
        · exact (reportUnused_quietly _ _ _ _ rfl).1
        · exact (reportUnused_quietly _ _ _ _ rfl).1
      · exact .pure h1 rfl
    | again => exact ih _ _ _ _ h1 hitems
    | stalled => exact .bind (.quiet h1 ⟨_, rfl⟩ ⟨_, rfl⟩) fun _ _ _ _ h2 _ _ => .pure h2 rfl

end Analysis.Setting

/-! ## Programs -/

namespace Analysis

open TypeTable (Over Same Twin)

lemma optionRel_trans (hT : ∀ a b c, R a b → S b c → T a c)
    (h : Option.Rel R a b) (h' : Option.Rel S b c) : Option.Rel T a c := by
  cases h with
  | none =>
    cases h'
    exact .none
  | some hab =>
    cases h' with
    | some hbc => exact .some (hT _ _ _ hab hbc)

/-- Two outcomes with one result.  If it is acceptance, then all symbols have types made in the same way
from those of a table. -/
structure Outcome.Agrees (base : TypeTable) (o o' : Outcome) : Prop where
  result : o.result = o'.result
  types : ∀ n, o.result = .ok n → Over base o.types ∧ Over base o'.types ∧
    ∀ x, Option.Rel (Same base o.types o'.types) (o.program.scopes.symbol x).type
      (o'.program.scopes.symbol x).type

lemma Outcome.Agrees.trans {o : Outcome} (h : o.Agrees base o') (h' : o'.Agrees base o'') :
    o.Agrees base o'' := by
  refine ⟨h.result.trans h'.result, fun n hn => ?_⟩
  obtain ⟨hover, hover', htypes⟩ := h.types n hn
  obtain ⟨-, hover'', htypes'⟩ := h'.types n (h.result ▸ hn)
  exact ⟨hover, hover'', fun x =>
    optionRel_trans (fun _ _ _ hab hbc => hab.trans hover' hbc) (htypes x) (htypes' x)⟩

variable {p : Program} {types : TypeTable} {g : Setting} {s : State} {a b : Item}

lemma Setting.Paired.agrees
    (h : g.Beside (waves config p.globalScope config.maxWaves 1 none [] items)
      (waves config p.globalScope config.maxWaves 1 none [] items') s s fun _ r r' => r.1 = r'.1)
    (hg : g.Whole) :
    (Outcome.of p ((waves config p.globalScope config.maxWaves 1 none [] items).run s)).Agrees g.base
      (.of p ((waves config p.globalScope config.maxWaves 1 none [] items').run s)) :=
  ⟨h.result, fun _ _ => ⟨h.states.left, h.states.right, fun x => h.states.symbols x (hg.tracked x)⟩⟩

namespace Begins

/-- A program is analyzed as the same program with two neighbours exchanged. -/
lemma agrees_exchanged (h : Begins p types g s)
    (hitems : ∀ i ∈ front ++ a :: b :: back, i.Within types.slots.size p.globalScope)
    (hab : ¬Item.Entangled p.scopes p.globalScope a b) (config : Config) :
    (Outcome.of p ((waves config p.globalScope config.maxWaves 1 none []
        (front ++ a :: b :: back)).run s)).Agrees g.base
      (.of p ((waves config p.globalScope config.maxWaves 1 none []
        (front ++ b :: a :: back)).run s)) := by
  have hlink : g.exchangeLink p.globalScope a b (g.Same s s) (front ++ a :: b :: back)
      (front ++ b :: a :: back) := by
    induction front with
    | nil =>
      simp only [nil_append, forall_mem_cons] at hitems
      obtain ⟨ha, hb, hback⟩ := hitems
      exact .here (h.like_ofItem ha) (h.like_ofItem hb)
        (forall₂_same.2 fun i hi => h.like (hback i hi))
    | cons _ _ ih =>
      rw [cons_append, forall_mem_cons] at hitems
      exact .skip (h.like hitems.1) (ih hitems.2)
  rw [← h.scopes] at hab
  exact (Setting.waves_beside (fun h' => Setting.wave_exchanged h.whole hab h' fun _ _ => id) config
    _ _ _ _ _ h.aligned hlink).agrees h.whole

lemma agrees_reordered (h : Begins p types g s) (front : List Item) {items items' : List Item}
    (hreordered : Reordered (Item.Entangled p.scopes p.globalScope) items items')
    (hitems : ∀ i ∈ front ++ items, i.Within types.slots.size p.globalScope) (config : Config) :
    (Outcome.of p ((waves config p.globalScope config.maxWaves 1 none [] (front ++ items)).run s)).Agrees
      g.base (.of p ((waves config p.globalScope config.maxWaves 1 none [] (front ++ items')).run s)) := by
  induction hreordered generalizing front with
  | refl items =>
    have hlink : (g.itemLink p.globalScope).list (g.Same s s) (front ++ items) (front ++ items) :=
      forall₂_same.2 fun i hi => h.like (hitems i hi)
    exact (Setting.waves_beside Setting.wave_beside config _ _ _ _ _ h.aligned hlink).agrees h.whole
  | @cons _ items' a _ ih =>
    rw [append_cons] at hitems
    rw [append_cons, append_cons front a items']
    exact ih _ hitems
  | swap _ hab => exact h.agrees_exchanged hitems hab config
  | trans hfirst _ ih ih' =>
    refine (ih _ hitems).trans (ih' _ fun i hi => hitems i ?_)
    rw [mem_append] at hi ⊢
    exact hi.imp_right hfirst.perm.mem_iff.2

end Begins

end Analysis

open Analysis in
/-- Exchanging items that are not entangled changes neither the result of an analysis nor, up to the
identity of types, what it finds out about symbols. -/
theorem Program.analyze_reordered {p : Program} {types : TypeTable} (h : p.Grounded types)
    {items : List Item} (hitems : Reordered (Item.Entangled p.scopes p.globalScope) p.items items)
    (config : Config) (diagnostics : Diagnostics) {before after : Analysis.Outcome}
    (hbefore : p.analyze config types diagnostics = before)
    (hafter : { p with items }.analyze config types diagnostics = after) :
    before.result = after.result ∧ ∀ n, before.result = .ok n → ∀ x,
      Option.Rel (TypeTable.Twin before.types after.types) (before.program.scopes.symbol x).type
        (after.program.scopes.symbol x).type := by
  subst hbefore hafter
  obtain ⟨error, -, herror⟩ | ⟨⟨_, hresolve⟩, hwaves⟩ := p.analyze_cases types config diagnostics
  · refine ⟨(herror p.items).trans (herror items).symm, fun n hn => ?_⟩
    rw [herror p.items] at hn
    cases hn
  · obtain ⟨g, hbegins⟩ := h.begins diagnostics hresolve
    have hagrees := hbegins.agrees_reordered [] hitems h.items config
    rw [List.nil_append, List.nil_append, ← hwaves, ← hwaves] at hagrees
    refine ⟨hagrees.result, fun n hn x => ?_⟩
    obtain ⟨hleft, hright, htypes⟩ := hagrees.types n hn
    exact optionRel_mono (fun _ _ hxy => hxy.twin hleft hright) (htypes x)

/-- Variables `flags = [true, true, true]`, `sizes = [1, 2]` and `total = sizes[1]`, and a function with
the body `more = total; return more;`, in this order. -/
def stock : Program × Session :=
  (Session.start {}).build "stock" do
    let list (elements : List Expr) : Build Expr := expr (.collection · elements)
    let yes : Build Expr := expr (.literal · (.bool true))
    let _ ← global "flags" none (some (← list [← yes, ← yes, ← yes]))
    let _ ← global "sizes" none (some (← list [← int 1, ← int 2]))
    let sizes ← ident "sizes"
    let one ← int 1
    let _ ← global "total" none (some (← expr (.index · sizes one)))
    function "count" TypeId.i32 [] do
      let more ← localVar "more" none (some (← ident "total"))
      return [more, ← giveBack (← ident "more")]

/-- The same program with `flags` at the end. -/
def restock : Program := { stock.1 with items := stock.1.items.drop 1 ++ stock.1.items.take 1 }

def acceptedStock : Analysis.Outcome := stock.1.analyze {} stock.2.types []

def acceptedRestock : Analysis.Outcome := restock.analyze {} stock.2.types []

/-- In another order the two array types are made in another order, and are the same otherwise. -/
theorem Program.analyze_reordered_stock :
    acceptedStock.result = .ok 1 ∧ acceptedRestock.result = .ok 1 ∧
    (acceptedStock.program.scopes.symbol 0).type ≠ (acceptedRestock.program.scopes.symbol 0).type ∧
    ∀ x, Option.Rel (TypeTable.Twin acceptedStock.types acceptedRestock.types)
      (acceptedStock.program.scopes.symbol x).type (acceptedRestock.program.scopes.symbol x).type := by
  have hgrounded : stock.1.Grounded stock.2.types :=
    ⟨by decide +kernel,
      TypeTable.acyclic_of_rank (fun id => (stock.2.types.shape id).parts.length) (by decide +kernel),
      by decide +kernel, by decide +kernel, by decide +kernel⟩
  have hitems : Reordered (Item.Entangled stock.1.scopes stock.1.globalScope) stock.1.items
      (stock.1.items.drop 1 ++ stock.1.items.take 1) := by
    have happend := Reordered.append (D := Item.Entangled stock.1.scopes stock.1.globalScope)
      (l := stock.1.items.take 1) (m := stock.1.items.drop 1) (by decide +kernel)
    rwa [List.take_append_drop] at happend
  have hok : acceptedStock.result = .ok 1 := by decide +kernel
  have hbefore : stock.1.analyze {} stock.2.types [] = acceptedStock := rfl
  have hafter : restock.analyze {} stock.2.types [] = acceptedRestock := rfl
  obtain ⟨hresult, htypes⟩ := analyze_reordered hgrounded hitems {} [] hbefore hafter
  exact ⟨hok, hresult ▸ hok, by decide +kernel, htypes 1 hok⟩

/-- A function with the body `i32 *const p = null; return x;` and a variable `x = 5`, in this order. -/
def waiting : Program × Session :=
  (Session.start {}).build "waiting" do
    let pointer ← types (·.pointerTo TypeId.i32)
    let fixed ← types (·.immutable pointer)
    let _ ← function "f" TypeId.i32 [] do
      let p ← localVar "p" (some fixed) (some (← expr (.literal · .null)))
      return [p, ← giveBack (← ident "x")]
    global "x" none (some (← int 5))

/-- A function that has to wait for the type of a variable is refused, and is accepted after the
variable: its first analysis converts the null pointer, and the converted one no longer fits `p`. -/
theorem Program.refused_before_accepted_after :
    waiting.1.IsBuilt waiting.2.types ∧ waiting.1.items.reverse.Perm waiting.1.items ∧
    waiting.1.scopes.symbols.size + 1 < ({} : Config).maxWaves ∧
    (waiting.1.analyze {} waiting.2.types []).result = .error (.nonConvergence 1) ∧
    ({ waiting.1 with items := waiting.1.items.reverse }.analyze {} waiting.2.types []).result =
      .ok 1 :=
  ⟨by decide +kernel, List.reverse_perm _, by decide +kernel, by decide +kernel, by decide +kernel⟩

end CompilerCore
