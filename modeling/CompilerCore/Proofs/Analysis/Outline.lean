import CompilerCore.Proofs.Analysis.Acceptance
import CompilerCore.Proofs.Lowering.Stages

/-!
# What analysis demands of statements

Analysis changes the expressions of a statement and leaves the statements around them as they are.
It accepts a statement only if its jumps lead to labels of the function or out of loops and switches
around them, its case labels are in switches, and there is at most one default label in a switch and
one cleanup in the function.  Lowering is therefore done with an accepted item after two passes.
-/

namespace CompilerCore

open Nat List

namespace Stmt

def declared? : Stmt → Option SymbolId
  | expr _ (.declare _ x _) => some x
  | _ => none

/-- A switch that has no labels yet, or a statement of another form. -/
def IsUnlabelled : Stmt → Prop
  | switch _ _ _ own => own = none
  | _ => True

lemma Known.isUnlabelled {s : Stmt} (h : s.Known n symbols) : s.IsUnlabelled := by
  cases s with
  | switch => exact h.1
  | _ => trivial

end Stmt

namespace Analysis

open Stmt (IsUnlabelled)

/-- Where a statement stands when it is analyzed. -/
def Context.site (c : Context) (s : State) : Site :=
  { inLoop := c.inLoop, isBreakable := c.isBreakable, inSwitch := s.switch.isSome
    labels := c.labels }

/-- The number of default labels met in the switch being checked. -/
def State.defaults (s : State) : Nat := if s.switch.any (·.hasDefault) then 1 else 0

lemma State.defaults_le {s : State} : s.defaults ≤ 1 := by
  unfold defaults
  split <;> omega

lemma State.defaults_congr {s s' : State} (h : s'.switch = s.switch) :
    s'.defaults = s.defaults := by
  unfold defaults
  rw [h]

/-- What holds of an accepted statement. -/
structure Approved (c : Context) (s : State) (found : Stmt) (s' : State) : Prop where
  done : found.DoneIn 2 (c.site s)
  single : found.hasSingleDefaults = true
  defaults : found.defaults + s.defaults = s'.defaults
  cleanups : s.cleanups ≤ 1 → s'.cleanups ≤ 1

/-- What analysis leaves of a statement, and what it demands of it. -/
structure Outlined (c : Context) (n : Stmt) (s : State) (r : Stmt × Nat) (s' : State) : Prop where
  unlabelled : n.All IsUnlabelled → r.1.All IsUnlabelled
  labels : r.1.declaredLabels = n.declaredLabels
  cleanups : s'.cleanups = s.cleanups + r.1.cleanups.length
  isSome_switch : s'.switch.isSome = s.switch.isSome
  approved : r.2 = 0 → r.1.All IsUnlabelled → Approved c s r.1 s'

variable {c : Context} {s s1 s' : State} {tok : Token} {n n' : Stmt}

/-! ## Parts of statements -/

lemma Stays.site (h : Stays s s') (c : Context) : c.site s' = c.site s := by
  unfold Context.site
  rw [h.switch]

/-- What the analysis of a case label leaves of the switch around it.  An accepted case has a
constant. -/
structure CaseOutlined (s : State) (r : Expr × Nat) (s' : State) : Prop where
  cleanups : s'.cleanups = s.cleanups
  isSome_switch : s'.switch.isSome = s.switch.isSome
  placed : r.2 = 0 →
    s.switch.isSome = true ∧ r.1.integer?.isSome = true ∧ s'.defaults = s.defaults

variable {errors : Nat} {c' : Context} {outer outer' : Stmt}

lemma Stays.caseOutlined (h : Stays s s') (herr : errors ≠ 0) : CaseOutlined s (e, errors) s' :=
  ⟨h.cleanups, by rw [h.switch], fun hzero => absurd hzero herr⟩

lemma caseValue_outlined {value : Expr} {s : State} :
    Gives (caseValue c tok value) s (CaseOutlined s) := by
  refine .get ?_
  split
  · exact (Stays.diagnostics s _).caseOutlined one_ne_zero
  · next switch hs =>
    refine .bind fun (value', m) s1 hrun => ?_
    have h1 := (expr_reports value none).stays hrun
    dsimp only
    split
    · next hm => exact h1.caseOutlined hm.ne'
    split
    · exact h1.caseOutlined one_ne_zero
    split
    · exact (h1.trans (.diagnostics _ _)).caseOutlined one_ne_zero
    refine .bind fun (value'', m') s2 hrun' => ?_
    have h2 := h1.trans ((convert_reports _ value').stays hrun')
    split
    · next hm => exact h2.caseOutlined hm.ne'
    split
    · exact (h2.trans (.diagnostics _ _)).caseOutlined one_ne_zero
    · next constant hv =>
      refine .bind fun m'' s3 hrecord => ?_
      unfold recordCase at hrecord
      split at hrecord
      · cases hrecord
        exact (h2.trans (.diagnostics _ _)).caseOutlined one_ne_zero
      · cases hrecord
        refine ⟨h2.cleanups, by rw [hs]; rfl, fun _ => ⟨by rw [hs]; rfl, ?_, ?_⟩⟩
        · exact Option.isSome_iff_exists.2 ⟨constant, hv⟩
        · show State.defaults { s2 with switch := some _ } = _
          simp [State.defaults, hs]

lemma defaultErrors_outlined :
    Gives (defaultErrors tok) s fun errors s' => s'.cleanups = s.cleanups ∧
      s'.switch.isSome = s.switch.isSome ∧
      (errors = 0 → s.switch.isSome = true ∧ 1 + s.defaults = s'.defaults) := by
  refine .get ?_
  split
  · exact ⟨rfl, rfl, nofun⟩
  · next switch hs =>
    split
    · exact ⟨rfl, rfl, nofun⟩
    · next hd =>
      refine ⟨rfl, by rw [hs]; rfl, fun _ => ⟨by rw [hs]; rfl, ?_⟩⟩
      show 1 + s.defaults = State.defaults { s with switch := some { switch with hasDefault := true } }
      simp [State.defaults, hs, hd]

/-! ## Statements -/

lemma Outlined.leaf (h : Stays s s') (hlabs : n'.declaredLabels = n.declaredLabels)
    (hnodes : n'.nodes = [n']) (hunlabelled : n'.IsUnlabelled) (hcleans : n'.cleanups = [])
    (hdone : errors = 0 → n'.DoneIn 2 (c.site s)) (hsingle : n'.hasSingleDefaults = true)
    (hdefaults : n'.defaults = 0) : Outlined c n s (n', errors) s' where
  unlabelled _ := (Stmt.all_of_leaf hnodes).2 hunlabelled
  labels := hlabs
  cleanups := by rw [hcleans]; exact h.cleanups
  isSome_switch := by rw [h.switch]
  approved herr _ := ⟨hdone herr, hsingle,
    by rw [hdefaults, State.defaults_congr h.switch, zero_add], by rw [h.cleanups]; exact id⟩

/-- What a statement comes after does not matter. -/
lemma Outlined.after (h : Stays s s1) {r : Stmt × Nat} (ho : Outlined c n s1 r s') :
    Outlined c n s r s' where
  unlabelled := ho.unlabelled
  labels := ho.labels
  cleanups := by rw [ho.cleanups, h.cleanups]
  isSome_switch := by rw [ho.isSome_switch, h.switch]
  approved herr hunlabelled :=
    have happroved := ho.approved herr hunlabelled
    { done := h.site c ▸ happroved.done
      single := happroved.single
      defaults := State.defaults_congr h.switch ▸ happroved.defaults
      cleanups := h.cleanups ▸ happroved.cleanups }

lemma site_of_isSome (h : s1.switch.isSome = s.switch.isSome) : c.site s1 = c.site s := by
  unfold Context.site
  rw [h]

/-- What analysis leaves of statements one after the other, and what it demands of them.  Lowering is
done with them if `D` holds. -/
structure OutlinedAll (D : Prop) (body : List Stmt) (s : State) (r : List Stmt × Nat) (s' : State) :
    Prop where
  unlabelled : (∀ n ∈ body, n.All IsUnlabelled) → ∀ n ∈ r.1, n.All IsUnlabelled
  labels : r.1.flatMap Stmt.declaredLabels = body.flatMap Stmt.declaredLabels
  cleanups : s'.cleanups = s.cleanups + (r.1.flatMap Stmt.cleanups).length
  isSome_switch : s'.switch.isSome = s.switch.isSome
  approved : r.2 = 0 → (∀ n ∈ r.1, n.All IsUnlabelled) →
    D ∧ Stmt.allSingleDefaults r.1 = true ∧ Stmt.defaultsIn r.1 + s.defaults = s'.defaults ∧
      (s.cleanups ≤ 1 → s'.cleanups ≤ 1)

lemma Outlined.cons
    (hn : Outlined c n s (n', m) s1) (hrest : OutlinedAll D body s1 (body', m') s') :
    OutlinedAll (n'.DoneIn 2 (c.site s) ∧ D) (n :: body) s (n' :: body', m + m') s' := by
  refine ⟨fun hbody => ?_, congrArg₂ (· ++ ·) hn.labels hrest.labels, ?_,
    hrest.isSome_switch.trans hn.isSome_switch, fun (herr : m + m' = 0) hbody => ?_⟩
  · rw [forall_mem_cons] at hbody
    exact forall_mem_cons.2 ⟨hn.unlabelled hbody.1, hrest.unlabelled hbody.2⟩
  · show s'.cleanups = s.cleanups + (n'.cleanups ++ body'.flatMap Stmt.cleanups).length
    rw [length_append, hrest.cleanups, hn.cleanups, Nat.add_assoc]
  · have hbody := forall_mem_cons.1 hbody
    have hfirst := hn.approved (show m = 0 by omega) hbody.1
    obtain ⟨hdone, hsingle, hdefaults, hcleans⟩ := hrest.approved (show m' = 0 by omega) hbody.2
    refine ⟨⟨hfirst.done, hdone⟩, ?_, ?_, fun hle => hcleans (hfirst.cleanups hle)⟩
    · show (n'.hasSingleDefaults && Stmt.allSingleDefaults body') = true
      rw [hfirst.single, hsingle]
      rfl
    · show n'.defaults + Stmt.defaultsIn body' + s.defaults = s'.defaults
      have h1 : n'.defaults + s.defaults = s1.defaults := hfirst.defaults
      have h2 : Stmt.defaultsIn body' + s1.defaults = s'.defaults := hdefaults
      omega

lemma OutlinedAll.nil (s : State) : OutlinedAll True [] s ([], 0) s :=
  ⟨fun _ => nofun, rfl, rfl, rfl, fun _ _ => ⟨trivial, rfl, zero_add _, id⟩⟩

/-- Analysis leaves and demands what it should of a statement, wherever it stands. -/
def Outlines (n : Stmt) : Prop := ∀ c s, Gives (stmt c n) s (Outlined c n s)

lemma stmts_outlined (ih : ∀ n ∈ body, Outlines n) (s : State) :
    Gives (stmts c body) s fun r s' =>
      OutlinedAll (Stmt.AllDoneIn 2 (c.site s) r.1) body s r s' := by
  induction body generalizing s with
  | nil => exact .nil s
  | cons n _ ihrest =>
    rw [forall_mem_cons] at ih
    refine (ih.1 c s).seq fun (n', m) s1 hn => (ihrest ih.2 s1).seq fun (rest', m') s2 hrest => ?_
    rw [site_of_isSome hn.isSome_switch] at hrest
    exact hn.cons hrest

/-- A statement with the labels, cleanups and default labels of its parts. -/
structure Encloses (parts : List Stmt) (outer : Stmt) : Prop where
  unlabelled : outer.All IsUnlabelled ↔ ∀ n ∈ parts, n.All IsUnlabelled
  labels : outer.declaredLabels = parts.flatMap Stmt.declaredLabels
  cleanups : outer.cleanups = parts.flatMap Stmt.cleanups
  single : outer.hasSingleDefaults = Stmt.allSingleDefaults parts
  defaults : outer.defaults = Stmt.defaultsIn parts

lemma OutlinedAll.enclosed
    (h : OutlinedAll D parts s (parts', m) s') (herr : errors = 0 → m = 0)
    (houter : Encloses parts outer) (houter' : Encloses parts' outer')
    (hdone : D → outer'.DoneIn 2 (c.site s)) : Outlined c outer s (outer', errors) s' where
  unlabelled hn := houter'.unlabelled.2 (h.unlabelled (houter.unlabelled.1 hn))
  labels := by rw [houter.labels, houter'.labels]; exact h.labels
  cleanups := by rw [houter'.cleanups]; exact h.cleanups
  isSome_switch := h.isSome_switch
  approved hzero hn := by
    obtain ⟨hd, hs, hcount, hc⟩ := h.approved (herr hzero) (houter'.unlabelled.1 hn)
    exact ⟨hdone hd, houter'.single ▸ hs, houter'.defaults ▸ hcount, hc⟩

/-- The parts of a statement that adds no label, cleanup or default label to theirs. -/
def frame? : Stmt → Option (List Stmt)
  | .block _ _ body | .seq _ body => some body
  | .branch _ _ yes none => some [yes]
  | .branch _ _ yes (some no) => some [yes, no]
  | .whileLoop _ _ body | .doLoop _ body _ | .forLoop _ none _ _ body => some [body]
  | .forLoop _ (some first) _ _ body => some [first, body]
  | _ => none

lemma encloses_of_frame? (h : frame? outer = some parts) : Encloses parts outer := by
  unfold frame? at h
  split at h <;> cases h
  all_goals constructor <;> simp [IsUnlabelled, Stmt.hasSingleDefaults, Stmt.allSingleDefaults,
    Stmt.defaults, Stmt.defaultsIn]

lemma Outlined.enclosed (h : Outlined c' n s1 (n', m) s') (hstays : Stays s s1)
    (herr : errors = 0 → m = 0) (houter : frame? outer = some [n]) (houter' : frame? outer' = some [n'])
    (hdone : n'.DoneIn 2 (c'.site s) → outer'.DoneIn 2 (c.site s)) :
    Outlined c outer s (outer', errors) s' :=
  ((h.after hstays).cons (.nil s')).enclosed herr (encloses_of_frame? houter)
    (encloses_of_frame? houter') fun hd => hdone hd.1

lemma Outlined.both (h : Outlined c n s (n', m) s1)
    (h' : Outlined c' second s1 (second', m') s') (herr : errors = 0 → m + m' = 0)
    (houter : frame? outer = some [n, second]) (houter' : frame? outer' = some [n', second'])
    (hdone : n'.DoneIn 2 (c.site s) → second'.DoneIn 2 (c'.site s) → outer'.DoneIn 2 (c.site s)) :
    Outlined c outer s (outer', errors) s' := by
  refine (h.cons (h'.cons (.nil s'))).enclosed herr (encloses_of_frame? houter)
    (encloses_of_frame? houter') fun ⟨hd, hd', _⟩ => hdone hd ?_
  rwa [site_of_isSome h.isSome_switch] at hd'

namespace Outlines

variable {value : Expr} {body : Stmt} {own : Option SwitchLabels}

lemma branch (ihYes : Outlines yes) (ihNo : ∀ n ∈ no, Outlines n) :
    Outlines (.branch tok test yes no) := by
  intro c s
  cases no with
  | none =>
    refine .bind fun q s1 hrun => ((ihYes c s1).seq fun y s2 h => ?_)
    exact h.enclosed ((condition_reports test).stays hrun) (fun (herr : q.2 + y.2 = 0) => by omega)
      rfl rfl fun hd => ⟨by rintro ⟨⟩, hd⟩
  | some no =>
    refine .bind fun q s1 hrun => ((ihYes c s1).seq fun y s2 hyes =>
      (ihNo no rfl c s2).seq fun z s3 hno => ?_)
    have hyes := hyes.after ((condition_reports test).stays hrun)
    exact hyes.both hno (fun (herr : q.2 + y.2 + z.2 = 0) => by omega) rfl rfl
      fun hd hd' => ⟨by rintro ⟨⟩, hd, hd'⟩

lemma forLoop (ihFirst : ∀ n ∈ first, Outlines n) (ih : Outlines body) :
    Outlines (.forLoop tok first test step body) := by
  intro c s
  have htest {s : State} := optionWith_reports (s := s) (condition_reports (c := c)) test
  have hstep {s : State} := optionWith_reports (s := s) (expr_reports (c := c) · none |>.counted) step
  cases first with
  | none =>
    refine .bind fun q s1 h1 => .bind fun r s2 h2 => (ih c.loop s2).seq fun b s3 h => ?_
    exact h.enclosed ((htest.stays h1).trans (hstep.stays h2))
      (fun (herr : q.2 + r.2 + b.2 = 0) => by omega) rfl rfl fun hd => ⟨le_rfl, hd⟩
  | some first =>
    refine (ihFirst first rfl c s).seq fun p s1 hfirst => .bind fun q s2 h2 => .bind fun r s3 h3 =>
      (ih c.loop s3).seq fun b s4 h => ?_
    have h := h.after ((htest.stays h2).trans (hstep.stays h3))
    exact hfirst.both h (fun (herr : p.2 + q.2 + r.2 + b.2 = 0) => by omega) rfl rfl
      fun hd hd' => ⟨le_rfl, hd, hd'⟩

lemma gotoAddress (target : Expr) : Outlines (.gotoAddress tok target) := by
  intro c s
  refine .bind fun (target', m) s1 hrun => ?_
  have h1 := (expr_reports target none).stays hrun
  have hleaf {s2 : State} (h2 : Stays s1 s2) (errors : Nat) :
      Outlined c (.gotoAddress tok target) s (.gotoAddress tok target', errors) s2 :=
    .leaf (h1.trans h2) rfl rfl trivial rfl (fun _ => by rintro ⟨⟩) rfl rfl
  dsimp only
  split
  · exact hleaf (.refl _) m
  · refine .bind fun t s2 htypes => ?_
    cases htypes
    split
    · exact hleaf (.refl _) 0
    · exact hleaf (.diagnostics _ _) 1

/-- The body of a switch, after its value. -/
lemma switchBody (ih : Outlines body) (valueType : Option TypeId) (m : Nat) (value' : Expr)
    (h1 : Stays s s1) : Gives (do
      let outer := (← get).switch
      modify fun s => { s with switch := some { valueType } }
      let b ← stmt { c with isBreakable := true } body
      modify fun s => { s with switch := outer }
      return (Stmt.switch tok value' b.1 own, m + b.2)) s1
      (Outlined c (.switch tok value body own) s) := by
  refine .get (.bind fun _ s2 hset => ?_)
  cases hset
  refine (ih { c with isBreakable := true } _).seq fun (body', k) s3 h => ?_
  refine .bind fun _ s4 hreset => ?_
  cases hreset
  refine ⟨fun hn => ?_, h.labels, ?_, ?_, fun (herr : m + k = 0) hn => ?_⟩
  · exact Stmt.all_switch.2 ((Stmt.all_switch.1 hn).imp id h.unlabelled)
  · rw [← h1.cleanups]
    exact h.cleanups
  · show s1.switch.isSome = s.switch.isSome
    rw [h1.switch]
  · obtain ⟨rfl, hpart⟩ := Stmt.all_switch.1 hn
    have hbody := h.approved (show k = 0 by omega) hpart
    -- The body's switch has no default label at its start, so it ends with at most one.
    have hcount : body'.defaults = s3.defaults := hbody.defaults
    have hle : body'.defaults ≤ 1 := hcount ▸ s3.defaults_le
    refine ⟨⟨by omega, by rintro ⟨⟩, ?_⟩, ?_, ?_, ?_⟩
    · exact hbody.done
    · show (body'.hasSingleDefaults && decide (body'.defaults ≤ 1)) = true
      rw [hbody.single, decide_eq_true hle]
      rfl
    · exact (zero_add _).trans (State.defaults_congr h1.switch).symm
    · rw [← h1.cleanups]
      exact hbody.cleanups

lemma switch (ih : Outlines body) : Outlines (.switch tok value body own) := by
  intro c s
  refine .bind fun (value', m) s1 hrun => ?_
  have h1 := (expr_reports value none).stays hrun
  dsimp only
  split
  · exact ih.switchBody none m value' h1
  · exact .bind fun r s2 hrun' => ih.switchBody r.1 r.2 value'
      (h1.trans ((switchType_reports value').stays hrun'))

/-- The body of a cleanup, once it is counted. -/
lemma cleanupBody (ih : Outlines body) (hsw : s1.switch = s.switch)
    (hcleans : s1.cleanups = s.cleanups + 1) (hm : m = 0 → s1.cleanups ≤ 1) : Gives (do
      let b ← stmt c body
      return (Stmt.cleanup tok b.1, m + b.2)) s1 (Outlined c (.cleanup tok body) s) := by
  refine (ih c s1).seq fun (body', k) s2 h => ?_
  refine ⟨fun hn => Stmt.all_cleanup.2 ⟨trivial, h.unlabelled (Stmt.all_cleanup.1 hn).2⟩, h.labels,
    ?_, h.isSome_switch.trans (by rw [hsw]), fun (herr : m + k = 0) hn => ?_⟩
  · show s2.cleanups = s.cleanups + (body'.cleanups.length + 1)
    rw [h.cleanups, hcleans]
    show s.cleanups + 1 + body'.cleanups.length = s.cleanups + (body'.cleanups.length + 1)
    omega
  · have hbody := h.approved (show k = 0 by omega) (Stmt.all_cleanup.1 hn).2
    have hsite : c.site s1 = c.site s := site_of_isSome (by rw [hsw])
    refine ⟨?_, hbody.single, ?_, fun _ => hbody.cleanups (hm (by omega))⟩
    · rw [← hsite]
      exact hbody.done
    · rw [← State.defaults_congr hsw]
      exact hbody.defaults

lemma cleanup (ih : Outlines body) : Outlines (.cleanup tok body) := by
  intro c s
  refine .bind fun _ s1 hset => .get ?_
  cases hset
  split
  · refine .bind fun m s2 hfault => ?_
    cases hfault
    exact ih.cleanupBody rfl rfl (by simp)
  · next hle => exact ih.cleanupBody rfl rfl fun _ => Nat.le_of_not_lt hle

end Outlines

lemma stmt_outlined (n : Stmt) : Outlines n := by
  induction n using Stmt.induction with
  | branch _ _ _ _ ihYes ihNo => exact .branch ihYes ihNo
  | forLoop _ _ _ _ _ ihFirst ih => exact .forLoop ihFirst ih
  | gotoAddress _ target => exact .gotoAddress target
  | switch _ _ _ _ ih => exact .switch ih
  | cleanup _ _ ih => exact .cleanup ih
  | block _ _ _ ih | seq _ _ ih =>
    intro c s
    refine (stmts_outlined ih s).seq fun _ s1 h => ?_
    exact h.enclosed id (encloses_of_frame? rfl) (encloses_of_frame? rfl) id
  | whileLoop _ test _ ih =>
    intro c s
    refine .bind fun q s1 hrun => ((ih c.loop s1).seq fun b s2 h => ?_)
    exact h.enclosed ((condition_reports test).stays hrun) (fun (herr : q.2 + b.2 = 0) => by omega)
      rfl rfl fun hd => ⟨by omega, by rintro ⟨⟩, hd⟩
  | doLoop _ _ test ih =>
    intro c s
    refine .bind fun q s1 hrun => ((ih c.loop s1).seq fun b s2 h => ?_)
    exact h.enclosed ((condition_reports test).stays hrun) (fun (herr : q.2 + b.2 = 0) => by omega)
      rfl rfl fun hd => ⟨le_rfl, hd⟩
  | breakLoop | continueLoop =>
    intro c s
    unfold stmt
    split
    · next hin => exact .leaf (.refl s) rfl rfl trivial rfl (fun _ => ⟨by omega, hin⟩) rfl rfl
    · exact .leaf (.diagnostics s _) rfl rfl trivial rfl (by simp) rfl rfl
  | goto =>
    intro c s
    unfold stmt
    split
    · next hlabel =>
      exact .leaf (.refl s) rfl rfl trivial rfl (fun _ => contains_iff_mem.1 hlabel) rfl rfl
    · exact .leaf (.diagnostics s _) rfl rfl trivial rfl (by simp) rfl rfl
  | caseLabel =>
    refine fun c s => .bind fun _ s1 hrun => ?_
    have h := caseValue_outlined.run hrun
    refine ⟨fun _ => Stmt.all_caseLabel.2 trivial, rfl, h.cleanups, h.isSome_switch, fun herr _ => ?_⟩
    obtain ⟨hin, hconstant, hdefaults⟩ := h.placed herr
    exact ⟨⟨by omega, hin, hconstant⟩, rfl, (zero_add _).trans hdefaults.symm, h.cleanups ▸ id⟩
  | defaultLabel =>
    refine fun c s => .bind fun m s1 hrun => ?_
    obtain ⟨hcleans, hsw, hplaced⟩ := defaultErrors_outlined.run hrun
    refine ⟨fun _ => Stmt.all_defaultLabel.2 trivial, rfl, hcleans, hsw, fun herr _ => ?_⟩
    exact ⟨⟨by omega, (hplaced herr).1⟩, rfl, (hplaced herr).2, hcleans ▸ id⟩
  | expr _ e =>
    exact fun c s => .bind fun _ s1 hrun => .leaf ((expr_reports e none).stays hrun) rfl rfl trivial rfl
      (fun _ => by rintro ⟨⟩) rfl rfl
  | ret _ value =>
    exact fun c s => .bind fun _ s1 hrun => .leaf ((returned_reports value).stays hrun) rfl rfl trivial
      rfl (fun _ _ _ => by rintro ⟨⟩) rfl rfl
  | assertion _ test =>
    exact fun c s => .bind fun _ s1 hrun => .leaf ((condition_reports test).stays hrun) rfl rfl trivial
      rfl (fun _ => le_succ 1) rfl rfl
  | asm _ code =>
    exact fun c s => .bind fun _ s1 hrun => .leaf ((inlineAsm_reports code).stays hrun) rfl rfl trivial
      rfl (fun _ => trivial) rfl rfl
  | label | empty =>
    exact fun c s => .leaf (.refl s) rfl rfl trivial rfl (fun _ => trivial) rfl rfl

end Analysis

/-! ## Items -/

namespace Item

/-- An item as it is built: a function knows its labels and the types of its parameters, and the
statement of a variable declares it. -/
def Formed (scopes : ScopeTree) : Item → Prop
  | function f => f.labels = f.body.declaredLabels ∧ ∀ x ∈ f.parameters, scopes.Knows x
  | global g => g.statement.declared? = some g.symbol

instance (scopes : ScopeTree) (i : Item) : Decidable (i.Formed scopes) := by
  unfold Formed
  split <;> infer_instance

/-- What analysis demands of the statement of an item. -/
structure Shaped (i : Item) : Prop where
  closes : ControlFlow.ClosesIn 2 i.statement
  single : i.statement.hasSingleDefaults = true
  cleanups : i.statement.cleanups.length ≤ 1
  nodup : i.statement.declaredLabels.Nodup
  unlabelled : i.statement.All Stmt.IsUnlabelled

end Item

namespace Analysis

/-- An item between waves. -/
structure Drafted (scopes : ScopeTree) (i : Item) : Prop where
  formed : i.Formed scopes
  unlabelled : i.statement.All Stmt.IsUnlabelled
  shaped : i.isAnalyzed = true → i.Shaped

lemma nodup_of_repeatedLabels (h : repeatedLabels seen labels = []) :
    labels.Nodup ∧ ∀ l ∈ labels, l ∉ seen := by
  induction labels generalizing seen with
  | nil => exact ⟨nodup_nil, nofun⟩
  | cons label _ ih =>
    rw [repeatedLabels] at h
    split at h
    · cases h
    · next hnew =>
      obtain ⟨hnodup, hseen⟩ := ih h
      refine ⟨nodup_cons.2 ⟨fun hmem => hseen label hmem (.head _), hnodup⟩, ?_⟩
      refine forall_mem_cons.2 ⟨fun hmem => hnew (contains_iff_mem.2 hmem), ?_⟩
      exact fun l hl hmem => hseen l hl (.tail _ hmem)

lemma labelErrors_gives (f : Function) (labels : List String) (s : State) :
    Gives (labelErrors f labels) s fun errors s' => errors = labels.length ∧ Stays s s' := by
  induction labels generalizing s with
  | nil => exact ⟨rfl, .refl s⟩
  | cons _ _ ih =>
    refine .bind fun _ s1 hreport => (ih s1).seq fun errors s2 ⟨hcount, hstays⟩ => ?_
    cases hreport
    exact ⟨congrArg (· + 1) hcount, (Stays.diagnostics s _).trans hstays⟩

lemma conclude_declares (note : Note) (x : SymbolId) (init : Option Expr)
    (verdict : Verdict) (s : State) : Gives (conclude (.declare note x init) verdict) s
      fun r _ => (Stmt.expr tok r.1).declared? = some x := by
  cases verdict <;> rfl

lemma expr_declares : Gives (expr c (.declare note x init) none) s
      fun r _ => (Stmt.expr tok r.1).declared? = some x := by
  cases init with
  | none =>
    refine .get ?_
    dsimp only
    split
    · exact conclude_declares _ _ _ _ _
    · exact .bind fun _ _ _ => conclude_declares _ _ _ _ _
  | some =>
    refine .get ?_
    dsimp only
    split
    · refine .bind fun (value', n) s1 _ => ?_
      split
      · rfl
      · exact .bind fun _ _ _ => conclude_declares _ _ _ _ _
    · refine .bind fun (value', n) s1 _ => ?_
      split
      · rfl
      · exact .bind fun _ _ _ => .bind fun _ _ _ => conclude_declares _ _ _ _ _

lemma stmt_declares (h : n.declared? = some x) :
    Gives (stmt c n) s fun r _ => r.1.declared? = some x := by
  unfold Stmt.declared? at h
  split at h
  · obtain rfl := Option.some.inj h
    exact expr_declares.seq fun _ _ hdeclares => hdeclares
  · cases h

variable {scopes : ScopeTree} {scope : ScopeId}

variable {i : Item}

/-- What analysis demands of the statement of an item, which stands in no loop or switch. -/
lemma Outlined.shaped (h : Outlined c n s (i.statement, 0) s') (hn : n.All Stmt.IsUnlabelled)
    (hsw : s.switch = none) (hcleans : s.cleanups = 0) (hloop : c.inLoop = false)
    (hbreakable : c.isBreakable = false) (hlabs : ∀ l ∈ c.labels, l ∈ i.statement.declaredLabels)
    (hnodup : i.statement.declaredLabels.Nodup) : i.Shaped := by
  have happroved := h.approved rfl (h.unlabelled hn)
  refine ⟨happroved.done.mono le_rfl ⟨?_, ?_, ?_, hlabs⟩, happroved.single, ?_, hnodup,
    h.unlabelled hn⟩
  · exact fun hin => absurd hin (Bool.eq_false_iff.1 hloop)
  · exact fun hin => absurd hin (Bool.eq_false_iff.1 hbreakable)
  · show s.switch.isSome = true → false = true
    rw [hsw]
    exact id
  · have hcount := h.cleanups
    rw [hcleans, zero_add] at hcount
    rw [← hcount]
    exact happroved.cleanups (hcleans ▸ zero_le 1)

lemma function_drafted (h : Drafted scopes (.function f)) :
    Gives (function f) s fun r _ => Drafted scopes (.function r.1) ∧
      (r.2 = 0 → r.1.isAnalyzed = true) := by
  obtain ⟨hlabs, hparams⟩ := h.formed
  refine .bind fun _ s1 hfresh => ?_
  cases hfresh
  refine (labelErrors_gives f _ _).seq fun m s2 ⟨hm, hstays⟩ => ?_
  refine (stmt_outlined f.body _ s2).seq fun (body, k) s3 houtlined => ?_
  have hbody : body.declaredLabels = f.body.declaredLabels := houtlined.labels
  refine ⟨⟨⟨hlabs.trans hbody.symm, hparams⟩, houtlined.unlabelled h.unlabelled, fun hdone => ?_⟩,
    fun herr => decide_eq_true herr⟩
  have herr : m + k = 0 := of_decide_eq_true hdone
  obtain ⟨rfl, rfl⟩ := Nat.add_eq_zero_iff.1 herr
  have hnodup : f.labels.Nodup :=
    (nodup_of_repeatedLabels (eq_nil_of_length_eq_zero hm.symm)).1
  rw [hlabs, ← hbody] at hnodup
  refine Outlined.shaped houtlined h.unlabelled hstays.switch hstays.cleanups rfl rfl
    (fun l hl => ?_) hnodup
  show l ∈ body.declaredLabels
  rw [hbody, ← hlabs]
  exact hl

lemma global_drafted (h : Drafted scopes (.global g)) :
    Gives (global scope g) s fun r _ => Drafted scopes (.global r.1) ∧
      (r.2 = 0 → r.1.isAnalyzed = true) := by
  have hdeclares : g.statement.declared? = some g.symbol := h.formed
  refine .bind fun _ s1 hfresh => ?_
  cases hfresh
  refine ((stmt_outlined g.statement _ _).and (stmt_declares hdeclares)).seq
    fun (statement, k) s2 ⟨houtlined, hkeeps⟩ => ?_
  refine ⟨⟨hkeeps, houtlined.unlabelled h.unlabelled, fun hdone => ?_⟩, fun herr => decide_eq_true herr⟩
  obtain rfl : k = 0 := of_decide_eq_true hdone
  -- A declaration has neither labels nor cleanups.
  obtain ⟨tok, e, rfl⟩ : ∃ tok e, statement = .expr tok e := by
    have hkeeps : statement.declared? = some g.symbol := hkeeps
    unfold Stmt.declared? at hkeeps
    split at hkeeps
    · exact ⟨_, _, rfl⟩
    · cases hkeeps
  exact Outlined.shaped houtlined h.unlabelled rfl rfl rfl rfl (fun _ hl => absurd hl not_mem_nil)
    nodup_nil

lemma item_drafted (h : Drafted scopes i) :
    Gives (item scope i) s fun r _ => Drafted scopes r.1 ∧ (r.2 = 0 → r.1.isAnalyzed = true) := by
  cases i with
  | function => exact (function_drafted h).seq fun _ _ hf => hf
  | global => exact (global_drafted h).seq fun _ _ hg => hg

lemma drafted_kept : Keeps scope (fun _ => True) (fun _ _ => True) fun _ => Drafted scopes where
  quiet _ _ := trivial
  trans _ _ := trivial
  stays _ := trivial
  mono _ _ := id
  item _ hi := (item_drafted hi).imp fun _ _ h => ⟨trivial, h⟩

end Analysis

/-- Lowering is done with an accepted program after two passes. -/
lemma Program.IsBuilt.shaped {p : Program} {types : TypeTable} (h : p.IsBuilt types)
    (hform : ∀ i ∈ p.items, i.Formed p.scopes) (hanalyze : p.analyze config types diags = accepted)
    (hok : accepted.result = .ok n) :
    ∀ i ∈ accepted.program.items, i.Formed p.scopes ∧ i.Shaped := by
  subst hanalyze
  have hdrafted (i : Item) (hi : i ∈ p.items) : Analysis.Drafted p.scopes i := by
    refine ⟨hform i hi, ?_, ?_⟩
    · exact (h.known i hi).statement.mono fun _ => Stmt.Known.isUnlabelled
    · rw [h.pending i hi]
      exact nofun
  obtain ⟨-, -, -, -, hitems⟩ := Analysis.drafted_kept.program config
    (fun _ _ _ => ⟨trivial, hdrafted⟩) n hok
  exact fun i hi => ⟨(hitems i hi).1.formed, (hitems i hi).1.shaped (hitems i hi).2⟩

end CompilerCore
