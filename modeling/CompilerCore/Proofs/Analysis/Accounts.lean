import CompilerCore.Demo
import CompilerCore.Proofs.Analysis.Reports
import CompilerCore.Proofs.Types.Resolution

/-!
# Refused programs come with errors

The number of errors of an item says what becomes of it, and the reports are what a user sees.  The two
agree for every statement, with one exception: a case label counts as an error when the value of its
switch has errors, without a report of its own.  These errors have been reported before the body of the
switch is analyzed, so the mark is set there already (`Marked`).  Hence an item has errors exactly if
one has been reported about it (`item_reports`), and a program is refused exactly if one has been
reported at all.
-/

namespace CompilerCore

open List Diagnostics

namespace Analysis

/-! ## Statements -/

variable {s : State}

/-- The switch being checked has a value without a type. -/
def State.IsBroken (s : State) : Prop := s.switch.map (·.valueType) = some none

/-- In a switch whose value has errors, these have been reported. -/
def Marked (failed : Bool) (s : State) : Prop := s.IsBroken → failed = true

/-- Some errors are counted, or have been before, exactly if the mark is set; the type of the innermost
switch is the same as before. -/
structure Accounts (failed : Bool) (s : State) (failed' : Bool) (n : Nat) (s' : State) : Prop where
  counts : failed' = true ↔ failed = true ∨ 0 < n
  switch : s'.switch.map (·.valueType) = s.switch.map (·.valueType)

namespace Accounts

variable {failed failed' failed'' : Bool} {s s' s'' : State} {m n : Nat}

lemma zero (failed : Bool) (h : s'.switch.map (·.valueType) = s.switch.map (·.valueType)) :
    Accounts failed s failed 0 s' :=
  ⟨by simp, h⟩

lemma trans (h : Accounts failed s failed' m s') (h' : Accounts failed' s' failed'' n s'') :
    Accounts failed s failed'' (m + n) s'' where
  counts := by rw [h'.counts, h.counts, Nat.add_pos_iff_pos_or_pos, or_assoc]
  switch := h'.switch.trans h.switch

lemma marked (h : Accounts failed s failed' n s') (hs : Marked failed s) : Marked failed' s' :=
  fun hbroken => h.counts.2 (.inl (hs (h.switch.symm.trans hbroken)))

end Accounts

/-- A step that reports the errors it counts, after others that have been counted and reported. -/
def Audits {α : Type} (before : Nat) (m : Analyze α) (errors : α → Nat) : Prop :=
  ∀ ⦃failed s failed1 s1⦄, Marked failed s → Accounts failed s failed1 before s1 →
    Reports failed1 m s1 fun failed' a s' => Accounts failed s failed' (errors a) s'

namespace Audits

variable {before n : Nat}

lemma bind (h : Audits 0 m errors)
    (hf : ∀ a, Audits (before + errors a) (f a) total) : Audits before (m >>= f) total :=
  fun _ _ _ _ hs h1 =>
    (h (h1.marked hs) (.zero _ rfl)).bind fun _ a _ h2 => hf a hs (h1.trans h2)

lemma pure (h : n = before) : Audits before (Pure.pure (a, n)) (·.2) :=
  fun _ _ _ _ _ h1 => .pure (h ▸ h1)

lemma ite [Decidable p] (h : Audits before m errors) (h' : ¬p → Audits before m' errors) :
    Audits before (if p then m else m') errors := by
  split
  · exact h
  · next hp => exact h' hp

lemma of_tells (h : ∀ s, Tells false m s fun failed a => Counts failed (errors a)) :
    Audits 0 m errors := by
  intro failed s failed1 s1 _ h1
  obtain ⟨added, hadded, hs, hcounts⟩ := h s1
  refine ⟨added, hadded, ?_, by rw [hs.switch, h1.switch]⟩
  rw [Bool.or_eq_true, h1.counts]
  simpa using or_congr_right hcounts

end Audits

lemma fault_audits (h : complaint.severity = .error) : Audits 0 (fault tok complaint) id :=
  .of_tells fun _ => fault_reports h

lemma faultWith_audits (h : complaint.severity = .error) :
    Audits 0 (do return (a, ← fault tok complaint)) (·.2) :=
  (fault_audits h).bind fun _ => .pure (Nat.zero_add _).symm

lemma expr_audits (e : Expr) (expected : Option TypeId) : Audits 0 (expr c e expected) (·.2) :=
  .of_tells fun _ => (expr_reports e expected).counted

lemma condition_audits (e : Expr) : Audits 0 (condition c e) (·.2) :=
  .of_tells fun _ => condition_reports e

lemma caseValue_audits (value : Expr) : Audits 0 (caseValue c tok value) (·.2) := by
  intro failed s failed1 s1 hs h1
  refine .get ?_
  split
  · exact faultWith_audits rfl hs h1
  · next switch hsw =>
    have hbefore : s.switch.map (·.valueType) = some switch.valueType := by rw [← h1.switch, hsw]; rfl
    refine (expr_audits value none hs h1).bind fun failed2 (value, n) s2 h2 => ?_
    dsimp only at h2 ⊢
    split
    · exact .pure h2
    · next hzero =>
      obtain rfl := Nat.eq_zero_of_not_pos hzero
      split
      · next htype =>
        -- The error is counted, but it was reported with the value of the switch.
        have hfailed : failed = true := hs (by rw [State.IsBroken, hbefore, htype])
        exact .pure ⟨by simp [h2.counts, hfailed], h2.switch⟩
      · next type htype =>
        split
        · exact faultWith_audits rfl hs h2
        · refine Audits.of_tells (fun _ => convert_reports type value) hs h2 |>.bind
            fun failed3 (value, n) s3 h3 => ?_
          split
          · exact .pure h3
          · next hzero =>
            obtain rfl := Nat.eq_zero_of_not_pos hzero
            split
            · exact faultWith_audits rfl hs h3
            · unfold recordCase
              split
              · exact faultWith_audits rfl hs h3
              · exact .silent rfl ⟨h3.counts, hbefore.symm⟩

lemma defaultErrors_audits : Audits 0 (defaultErrors tok) id := by
  intro failed s failed1 s1 hs h1
  refine .get ?_
  split
  · exact fault_audits rfl hs h1
  · next switch hsw =>
    split
    · exact fault_audits rfl hs h1
    · exact .silent rfl ⟨h1.counts, by rw [← h1.switch, hsw]; rfl⟩

lemma check_audits [Decidable p]
    (h : complaint.severity = .error) (x : Stmt) : Audits 0
      (if p then do let n ← pure 0; return (x, n) else do let n ← fault tok complaint; return (x, n))
      (·.2) :=
  .ite (.pure rfl) fun _ => faultWith_audits h

lemma stmts_audits (h : ∀ x ∈ ss, ∀ c, Audits 0 (stmt c x) (·.2)) :
    Audits 0 (stmts c ss) (·.2) := by
  induction ss with
  | nil => exact .pure rfl
  | cons x _ ih =>
    rw [forall_mem_cons] at h
    exact (h.1 c).bind fun _ => (ih h.2).bind fun _ => .pure (by omega)

/-- What analysis counts of a statement it has reported, unless it stands in a switch whose value has
errors. -/
lemma stmt_audits (x : Stmt) (c : Context) : Audits 0 (stmt c x) (·.2) := by
  induction x using Stmt.induction generalizing c with
  | expr _ e => exact (expr_audits e none).bind fun _ => .pure (by omega)
  | block _ _ _ ih => exact (stmts_audits ih).bind fun _ => .pure (by omega)
  | seq _ _ ih => exact (stmts_audits ih).bind fun _ => .pure (by omega)
  | branch _ test _ no ihy ihn =>
    cases no with
    | none => exact (condition_audits test).bind fun _ => (ihy c).bind fun _ => .pure (by omega)
    | some no =>
      exact (condition_audits test).bind fun _ => (ihy c).bind fun _ => (ihn no rfl c).bind fun _ =>
        .pure (by omega)
  | whileLoop _ test _ ih | doLoop _ _ test ih =>
    exact (condition_audits test).bind fun _ => (ih c.loop).bind fun _ => .pure (by omega)
  | forLoop _ first test step _ ihf ihb =>
    have htest : Audits 0 (optionWith (condition c) test) (·.2) :=
      .of_tells fun _ => optionWith_reports condition_reports test
    have hstep : Audits 0 (optionWith (expr c · none) step) (·.2) :=
      .of_tells fun _ => optionWith_reports (expr_reports · none |>.counted) step
    cases first with
    | none =>
      exact htest.bind fun _ => hstep.bind fun _ => (ihb c.loop).bind fun _ => .pure (by omega)
    | some first =>
      exact (ihf first rfl c).bind fun _ => htest.bind fun _ => hstep.bind fun _ =>
        (ihb c.loop).bind fun _ => .pure (by omega)
  | breakLoop token => exact check_audits rfl (.breakLoop token)
  | continueLoop token => exact check_audits rfl (.continueLoop token)
  | ret _ value =>
    exact (Audits.of_tells fun _ => returned_reports value).bind fun _ => .pure (by omega)
  | goto token label => exact check_audits rfl (.goto token label)
  | gotoAddress _ target =>
    refine (expr_audits target none).bind fun _ => .ite (.pure (by omega)) fun hzero => ?_
    rw [Nat.eq_zero_of_not_pos hzero]
    exact fun _ _ _ _ hs h1 => .types (check_audits rfl _ hs h1)
  | label => exact .pure rfl
  | switch token value body labels ih =>
    intro failed s failed1 s1 hs h1
    -- The body is analyzed with the type of the value, if that has one.
    have hrest {failed2 : Bool} {s2 : State} {m : Nat} {valueType : Option TypeId} (value : Expr)
        (h2 : Accounts failed s failed2 m s2) (hnone : valueType = none → 0 < m) :
        Reports failed2 (do
          let outer := (← get).switch
          modify fun s => { s with switch := some { valueType } }
          let r ← stmt { c with isBreakable := true } body
          modify fun s => { s with switch := outer }
          return (Stmt.switch token value r.1 labels, m + r.2)) s2
          fun failed' r s' => Accounts failed s failed' r.2 s' := by
      refine .get (.bind (Q := fun failed' _ s' => failed' = failed2 ∧
        s'.switch = some { valueType }) (.silent rfl ⟨rfl, rfl⟩) fun _ _ s3 h3 => ?_)
      obtain ⟨rfl, hswitch⟩ := h3
      refine (ih _ (fun hbroken => h2.counts.2 (.inr (hnone ?_))) (.zero _ rfl)).bind
        fun failed4 _ s4 h4 => .silent rfl ⟨?_, h2.switch⟩
      · rw [State.IsBroken, hswitch] at hbroken
        exact Option.some.inj hbroken
      · rw [h4.counts, h2.counts, or_assoc, ← Nat.add_pos_iff_pos_or_pos]
        rfl
    refine (expr_audits value none hs h1).bind fun failed2 r s2 h2 => ?_
    obtain ⟨value, m⟩ := r
    dsimp only at h2 ⊢
    split
    · next hpos => exact hrest value h2 fun _ => hpos
    · next hzero =>
      obtain rfl := Nat.eq_zero_of_not_pos hzero
      obtain ⟨-, -, -, -, hnone⟩ := switchType_reports (s := s2) value
      exact (Audits.of_tells (fun _ => (switchType_reports value).imp fun _ _ h => h.1) hs h2).and hnone
        |>.bind fun _ _ _ h => hrest value h.1 h.2
  | caseLabel _ value => exact (caseValue_audits value).bind fun _ => .pure (by omega)
  | defaultLabel => exact defaultErrors_audits.bind fun _ => .pure (Nat.zero_add _).symm
  | assertion _ test => exact (condition_audits test).bind fun _ => .pure (by omega)
  | asm _ code =>
    exact (Audits.of_tells fun _ => inlineAsm_reports code).bind fun _ => .pure (by omega)
  | cleanup token body ih =>
    have hrest (m : Nat) : Audits m (do
        let r ← stmt c body
        return (Stmt.cleanup token r.1, m + r.2)) (·.2) :=
      (ih c).bind fun _ => .pure rfl
    intro failed s failed1 s1 hs h1
    refine .bind (Q := fun failed' _ s' => Accounts failed s failed' 0 s')
      (.silent rfl ⟨h1.counts, h1.switch⟩) fun failed2 _ s2 h2 => .get ?_
    split
    · exact (fault_audits rfl hs h2).bind fun _ _ _ h3 => hrest _ hs h3
    · exact hrest 0 hs h2
  | empty => exact .pure rfl

/-! ## Items and waves -/

lemma labelErrors_audits : Audits 0 (labelErrors f labels) id := by
  induction labels with
  | nil => exact fun _ _ _ _ _ h1 => .pure h1
  | cons label _ ih =>
    intro failed s failed1 s1 hs h1
    have hone : Audits 0 (report f.token (.duplicateLabel label f.name)) fun _ => 1 :=
      .of_tells fun _ => error_reports rfl
    refine (hone hs h1).bind fun failed2 _ s2 h2 =>
      (ih (h2.marked hs) (.zero _ rfl)).bind fun failed3 n s3 h3 => .pure ?_
    rw [id, Nat.add_comm]
    exact h2.trans h3

lemma freshItem_reports :
    Reports false freshItem s fun failed _ s' => failed = false ∧ s'.switch = none :=
  .silent rfl ⟨rfl, rfl⟩

lemma Accounts.counts_of_fresh (h : Accounts false s failed n s') : Counts failed n := by
  simpa [Counts] using h.counts

lemma item_reports : Reports false (item scope i) s fun failed r _ => Counts failed r.2 := by
  have hmarked {s : State} (h : s.switch = none) : Marked false s := by
    intro hbroken
    rw [State.IsBroken, h] at hbroken
    cases hbroken
  cases i with
  | function f =>
    refine .bind (Q := fun failed r _ => Counts failed r.2) ?_ fun _ _ _ h => .pure h
    refine freshItem_reports.bind fun _ _ s1 ⟨hfailed, hsw⟩ => ?_
    subst hfailed
    refine (labelErrors_audits.bind fun m => (stmt_audits f.body _).bind fun _ => .pure ?_)
      (hmarked hsw) (.zero _ rfl) |>.imp fun _ _ _ h2 => h2.counts_of_fresh
    exact congrArg (· + _) (Nat.zero_add m).symm
  | global g =>
    refine .bind (Q := fun failed r _ => Counts failed r.2) ?_ fun _ _ _ h => .pure h
    refine freshItem_reports.bind fun _ _ s1 ⟨hfailed, hsw⟩ => ?_
    subst hfailed
    exact (stmt_audits g.statement _ (hmarked hsw) (.zero _ rfl)).bind
      fun _ _ _ h2 => .pure h2.counts_of_fresh

/-- A later state has no more errors among its diagnostics. -/
def Clean (s s' : State) : Prop :=
  ∃ added : Diagnostics, s'.diagnostics = s.diagnostics ++ added ∧ added.hasErrors = false

lemma Clean.refl (s : State) : Clean s s := ⟨[], (append_nil _).symm, rfl⟩

lemma Clean.trans (h : Clean s s') (h' : Clean s' s'') : Clean s s'' := by
  obtain ⟨added, hadded, hnone⟩ := h
  obtain ⟨more, hmore, hnone'⟩ := h'
  refine ⟨added ++ more, ?_, ?_⟩
  · rw [hmore, hadded, append_assoc]
  · rw [hasErrors_append, hnone, hnone']
    rfl

/-- What is set aside of an item holds errors exactly if the item has some, and what is kept holds
none. -/
lemma pendingItem_clean (scope : ScopeId) (i : Item) (s : State) :
    Gives (pendingItem scope i) s fun r s' =>
      Clean s s' ∧ Counts (hasErrors r.2.2) r.2.1 := by
  unfold pendingItem
  split
  · exact ⟨.refl s, .zero⟩
  · refine .get (.bind fun (i', n) s1 hrun => ?_)
    obtain ⟨added, hadded, hcounts⟩ := item_reports
    rw [hrun] at hadded hcounts
    dsimp only at hadded hcounts ⊢
    split
    · refine ⟨⟨[], ?_, rfl⟩, ?_⟩
      · show s1.diagnostics.take s.diagnostics.length = s.diagnostics ++ []
        rw [hadded, List.take_left, List.append_nil]
      · show Counts (hasErrors (s1.diagnostics.drop s.diagnostics.length)) n
        rwa [hadded, List.drop_left]
    · next hzero =>
      obtain rfl := Nat.eq_zero_of_not_pos hzero
      exact ⟨⟨added, hadded, hcounts.eq_false⟩, .zero⟩

lemma wave_clean (scope : ScopeId) (items : List Item) (s : State) :
    Gives (wave scope items) s fun r s' =>
      Clean s s' ∧ Counts (hasErrors r.2.2) r.2.1 := by
  induction items generalizing s with
  | nil => exact ⟨.refl s, .zero⟩
  | cons i _ ih =>
    refine (pendingItem_clean scope i s).seq fun (i', m, deferred) s1 ⟨hclean1, hm⟩ => ?_
    refine (ih s1).seq fun (items', n, more) s2 ⟨hclean2, hn⟩ => ⟨hclean1.trans hclean2, ?_⟩
    show Counts (hasErrors (deferred ++ more)) (m + n)
    unfold Counts at hm hn ⊢
    rw [hasErrors_append, Bool.or_eq_true, hm, hn, Nat.add_pos_iff_pos_or_pos]

lemma reportUnused_clean (globalScope : ScopeId) (symbols : List Symbol) (s : State) :
    Clean s (reportUnused globalScope symbols s).2 := by
  induction symbols generalizing s with
  | nil => exact .refl s
  | cons x _ ih =>
    unfold reportUnused
    split
    · next complaint hcomplaint =>
      have hwarning : complaint.severity = .warning := by
        unfold unusedComplaint? at hcomplaint
        split at hcomplaint
        · cases hcomplaint
        · split at hcomplaint <;> cases hcomplaint <;> rfl
      have hreport : Clean s (report x.token complaint s).2 := by
        refine ⟨[complaint.diagnostic s.types x.token], rfl, ?_⟩
        simp [hasErrors, errorCount, Complaint.diagnostic, hwarning]
      exact hreport.trans (ih _)
    · exact ih s

/-- The outcome of all waves: errors have been reported exactly if there is no other result. -/
def Concludes (s : State) (r : Except AnalysisError Nat × List Item) (s' : State) : Prop :=
  ∃ added : Diagnostics, s'.diagnostics = s.diagnostics ++ added ∧
    ((∃ n, r.1 = .ok n) ↔ added.hasErrors = false)

lemma Clean.concludes (h : Clean s s') (n : Nat) (items : List Item) :
    Concludes s (.ok n, items) s' := by
  obtain ⟨added, hadded, hnone⟩ := h
  exact ⟨added, hadded, by simp [hnone]⟩

lemma Clean.then (h : Clean s s')
    (h' : Concludes s' r s'') : Concludes s r s'' := by
  obtain ⟨added, hadded, hnone⟩ := h
  obtain ⟨more, hmore, hiff⟩ := h'
  refine ⟨added ++ more, ?_, ?_⟩
  · rw [hmore, hadded, append_assoc]
  · rw [hasErrors_append, hnone, Bool.false_or]
    exact hiff

lemma replay_concludes (h : deferred.hasErrors = true)
    (error : AnalysisError) (items : List Item) :
    Concludes s (.error error, items) (replay deferred s).2 :=
  ⟨deferred, rfl, by simp [h]⟩

lemma waves_concludes (hprev : previous.isSome = true → deferred.hasErrors = true)
    (hleft : left = 0 → previous.isSome = true) :
    Gives (waves config scope left number previous deferred items) s (Concludes s) := by
  induction left generalizing number previous deferred items s with
  | zero => exact replay_concludes (hprev (hleft rfl)) _ _
  | succ _ ih =>
    refine (wave_clean scope items s).seq fun (items', errors, found) s1 ⟨hclean, hcounts⟩ => ?_
    dsimp only at hcounts ⊢
    unfold waveOutcome
    by_cases hzero : errors = 0
    · rw [if_pos hzero]
      dsimp only
      split
      · exact (hclean.trans (reportUnused_clean _ _ _)).concludes number items'
      · exact hclean.concludes number items'
    · rw [if_neg hzero]
      by_cases hstalled : previous = some errors
      · rw [if_pos hstalled]
        exact hclean.then (replay_concludes (hprev (by rw [hstalled]; rfl)) _ _)
      · rw [if_neg hstalled]
        exact (ih (fun _ => hcounts.eq_true (Nat.pos_of_ne_zero hzero)) fun _ => rfl).imp
          fun _ _ h => hclean.then h

lemma diagnostics_reportAll (complaints : List (Token × Complaint)) (s : State) :
    (reportAll complaints s).2.diagnostics =
      s.diagnostics ++ complaints.map fun entry => entry.2.diagnostic s.types entry.1 := by
  induction complaints generalizing s with
  | nil => exact (append_nil _).symm
  | cons entry _ ih =>
    rw [map_cons, append_cons]
    exact ih (report entry.1 entry.2 s).2

lemma program_concludes (hwaves : 1 ≤ config.maxWaves) (p : Program)
    (s : State) : Gives (program config p) s (Concludes s) := by
  have herrs {α : Type} (make : α → Token × Complaint) (hmake : ∀ a, (make a).2.severity = .error)
      {list : List α} (hne : list ≠ []) (error : AnalysisError) (s1 : State)
      (hs1 : s1.diagnostics = s.diagnostics) :
      Concludes s (.error error, p.items) (reportAll (list.map make) s1).2 := by
    refine ⟨_, by rw [diagnostics_reportAll, hs1], ?_⟩
    obtain ⟨a, ha⟩ := exists_mem_of_ne_nil _ hne
    have hpos : 0 < errorCount ((list.map make).map fun entry =>
        entry.2.diagnostic s1.types entry.1) := by
      refine countP_pos_iff.2 ⟨_, mem_map_of_mem (mem_map_of_mem ha), ?_⟩
      simp [Complaint.diagnostic, hmake]
    constructor
    · rintro ⟨_, ⟨⟩⟩
    · exact fun h => absurd hpos (of_decide_eq_false h)
  unfold program
  split
  · next hdeclarations =>
    refine herrs _ (fun _ => rfl) ?_ _ s rfl
    simpa using hdeclarations
  · refine .get ?_
    cases hresolve : s.types.resolve s.scopes with
    | mk resolution types =>
      cases resolution with
      | error =>
        exact herrs _ (fun _ => rfl) (TypeTable.names_of_resolve_error hresolve) _ { s with types } rfl
      | ok =>
        exact waves_concludes (s := { s with types }) (by simp)
          fun hzero => absurd hzero (Nat.ne_of_gt hwaves)

end Analysis

/-- An item counts errors exactly if its analysis reports one, in every state; and a program is refused
exactly if its analysis reports an error. -/
theorem Program.refused_iff_reported (p : Program) (config : Config) (types : TypeTable)
    (diagnostics : Diagnostics) :
    (∀ (scope : ScopeId) (i : Item) (s : Analysis.State), ∃ added : Diagnostics,
      (Analysis.item scope i s).2.diagnostics = s.diagnostics ++ added ∧
        ((Analysis.item scope i s).1.2 = 0 ↔ added.hasErrors = false)) ∧
    (1 ≤ config.maxWaves → ∃ added : Diagnostics,
      (p.analyze config types diagnostics).diagnostics = diagnostics ++ added ∧
        ((∃ n, (p.analyze config types diagnostics).result = .ok n) ↔ added.hasErrors = false)) := by
  constructor
  · intro scope i s
    obtain ⟨added, hadded, hcounts⟩ := Analysis.item_reports
    refine ⟨added, hadded, ?_⟩
    rw [Bool.false_or, Analysis.Counts] at hcounts
    rw [← Bool.not_eq_true, hcounts, Nat.pos_iff_ne_zero, not_not]
  · intro hwaves
    exact Analysis.program_concludes hwaves p { types, scopes := p.scopes, diagnostics }

/-- A function whose switch has an undeclared value and one case, which counts as an error too. -/
def brokenSwitch : Program × Session :=
  (Session.start {}).build "switch" do
    Build.function "choose" TypeId.void [] do
      let selector ← Demo.ident "missing"
      let one ← Demo.int 1
      let label ← Build.stmt (.caseLabel · one)
      return [← Build.stmt (.switch · selector label none)]

/-- Two errors are counted and one is reported. -/
theorem Program.refused_iff_reported_brokenSwitch :
    let outcome := brokenSwitch.1.analyze {} brokenSwitch.2.types []
    outcome.result = .error (.nonConvergence 2) ∧ ∃ added : Diagnostics,
      outcome.diagnostics = [] ++ added ∧ ((∃ n, outcome.result = .ok n) ↔ added.hasErrors = false) ∧
        added.errorCount = 1 := by
  have hcount : (brokenSwitch.1.analyze {} brokenSwitch.2.types []).diagnostics.errorCount = 1 := by
    decide +kernel
  obtain ⟨added, hadded, hiff⟩ :=
    (refused_iff_reported brokenSwitch.1 {} brokenSwitch.2.types []).2 (by decide)
  rw [hadded] at hcount
  exact ⟨by decide +kernel, added, hadded, hiff, hcount⟩

end CompilerCore
