import CompilerCore.Proofs.Lowering.Finished

/-!
# The two phases of lowering

Lowering first takes the control flow of all items apart and then simplifies the functions.  A function
is *flat* once a pass over its control flow has nothing left to do.
-/

namespace CompilerCore

open ControlFlow

namespace Function

/-- The passes that turn control flow into labels and jumps. -/
def flatten (types : TypeTable) (scopes : ScopeTree) (limit : Nat) (f : Function) : Function :=
  let body := (repeatPass (pass types scopes) limit (f.body, f.nextLabel)).2
  { f with body := body.1, nextLabel := body.2 }

/-- The passes that replace expressions by simpler ones. -/
def simplify (types : TypeTable) (limit : Nat) (f : Function) : Function :=
  { f with body := (repeatPass (Simplify.pass types) limit f.body).2 }

/-- A pass over the control flow of the function has nothing to do. -/
def IsFlat (types : TypeTable) (scopes : ScopeTree) (f : Function) : Prop :=
  (pass types scopes (f.body, f.nextLabel)).1 = 0

instance (types : TypeTable) (scopes : ScopeTree) (f : Function) : Decidable (f.IsFlat types scopes) :=
  inferInstanceAs (Decidable ((pass types scopes (f.body, f.nextLabel)).1 = 0))

end Function

namespace Item

def flatten (types : TypeTable) (scopes : ScopeTree) (limit : Nat) : Item → Item
  | function f => .function (f.flatten types scopes limit)
  | global g =>
    .global { g with
      statement := (repeatPass (pass types scopes) limit (g.statement, 0)).2.1 }

def simplify (types : TypeTable) (limit : Nat) : Item → Item
  | function f => .function (f.simplify types limit)
  | global g => .global g

end Item

namespace Program

def flatten (p : Program) (types : TypeTable) (limit : Nat) : Program :=
  { p with items := p.items.map (·.flatten types p.scopes limit) }

def simplify (p : Program) (types : TypeTable) (limit : Nat) : Program :=
  { p with items := p.items.map (·.simplify types limit) }

lemma lower_eq_simplify (p : Program) (types : TypeTable) (config : Config) :
    (p.lower types config).2 = (p.flatten types config.maxLoweringPasses).simplify types
      config.maxLoweringPasses := by
  have hitem (i : Item) : (i.lower types p.scopes config.maxLoweringPasses).2 =
      (i.flatten types p.scopes config.maxLoweringPasses).simplify types config.maxLoweringPasses := by
    cases i with
    | function => rfl
    | global => rfl
  simp only [lower, flatten, simplify, List.map_map, Function.comp_def, hitem]

variable {p : Program} {types : TypeTable} {limit : Nat}

lemma functions_flatten :
    (p.flatten types limit).functions = p.functions.map (·.flatten types p.scopes limit) := by
  simp only [functions, flatten, List.filterMap_map, List.map_filterMap]
  refine List.filterMap_congr fun i _ => ?_
  cases i with
  | function => rfl
  | global => rfl

lemma functions_simplify :
    (p.simplify types limit).functions = p.functions.map (·.simplify types limit) := by
  simp only [functions, simplify, List.filterMap_map, List.map_filterMap]
  refine List.filterMap_congr fun i _ => ?_
  cases i with
  | function => rfl
  | global => rfl

end Program

/-! ## Flat functions -/

namespace ControlFlow

variable {types : TypeTable} {scopes : ScopeTree} {body : Stmt × Nat}

/-- Passes never add work. -/
lemma repeatPass_closesIn_same (h : ClosesIn n body.1) :
    ClosesIn n (repeatPass (pass types scopes) limit body).2.1 :=
  repeatPass_keeps (I := fun body : Stmt × Nat => ClosesIn n body.1)
    (fun _ hcloses => pass_closesIn (hcloses.mono (Nat.le_succ n) ⟨id, id, id, fun _ => id⟩)) limit h

end ControlFlow

variable {types : TypeTable} {scopes : ScopeTree} {f : Function} {limit : Nat}

/-- Flat functions are finished, however many passes it took. -/
lemma Function.IsFlat.finished (hflat : (f.flatten types scopes limit).IsFlat types scopes)
    (hcloses : ControlFlow.ClosesIn n f.body) (hcleans : f.body.cleanups.length ≤ 1) :
    (f.flatten types scopes limit).body.Finished := by
  have hquiet := pass_quiet types scopes _ hflat
  refine ⟨closesIn_zero_of_quiet hquiet (repeatPass_closesIn_same hcloses),
    ?_⟩
  exact repeatPass_keeps (I := fun body : Stmt × Nat => body.1.cleanups.length ≤ 1)
    (fun body h => (stmt_reworks body.1 _ _).cleanups.le.trans h) limit hcleans

end CompilerCore
