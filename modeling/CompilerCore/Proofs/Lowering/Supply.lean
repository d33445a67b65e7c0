import CompilerCore.Proofs.Lowering.Twice
import Mathlib.Data.List.Perm.Basic

/-!
# The supply of labels

The labels that a pass makes are new: each is made of a number that the pass takes from its supply,
or of the number of the switch around it and a case of that switch.  So a body whose labels are
distinct keeps distinct labels, and a body without labels gets distinct ones.
-/

namespace CompilerCore.ControlFlow

open Nat List PendingSwitch

/-! ## Names of labels -/

lemma toList_madeLabel (id : Nat) (suffix : String) :
    (madeLabel id suffix).toList = '$' :: (toDigits 10 id ++ '_' :: suffix.toList) := by
  simp [madeLabel, String.toList_append, toList_repr]

lemma toDigits_inj (h : toDigits 10 m = toDigits 10 n) : m = n := by
  rw [← ofDigitChars_ten_toDigits (n := m), h, ofDigitChars_ten_toDigits]

lemma takeWhile_toDigits : (toDigits 10 n ++ '_' :: rest).takeWhile (· != '_') = toDigits 10 n := by
  rw [takeWhile_append_of_pos]
  · simp
  · intro c hc
    rw [bne_iff_ne]
    rintro rfl
    exact underscore_not_in_toDigits hc

lemma madeLabel_inj {id : Nat} :
    madeLabel id suffix = madeLabel id' suffix' ↔ id = id' ∧ suffix = suffix' := by
  constructor
  · intro h
    have hl := congrArg String.toList h
    rw [toList_madeLabel, toList_madeLabel, cons_inj_right] at hl
    have hdigits : toDigits 10 id = toDigits 10 id' := by
      rw [← takeWhile_toDigits, hl, takeWhile_toDigits]
    rw [hdigits, append_cancel_left_eq, cons_inj_right] at hl
    exact ⟨toDigits_inj hdigits, String.toList_inj.1 hl⟩
  · rintro ⟨rfl, rfl⟩
    rfl

lemma caseSuffix_inj {l : Nat} (h : "case_" ++ toString k = "case_" ++ toString l) : k = l := by
  have hl := congrArg String.toList h
  simp only [String.toList_append, append_cancel_left_eq, toString_eq_repr,
    toList_repr] at hl
  exact toDigits_inj hl

lemma caseSuffix_ne (h : suffix.toList.head? ≠ some 'c') {k : Nat} :
    "case_" ++ toString k ≠ suffix := by
  rintro rfl
  exact h (by simp [String.toList_append])

/-- Whether a label is made of a number in a range. -/
def MadeBetween (low high : Nat) (label : String) : Prop :=
  ∃ id suffix, low ≤ id ∧ id < high ∧ label = madeLabel id suffix

/-- Whether the labels of a switch have the names that a pass gives them. -/
structure PendingSwitch.Named (pending : PendingSwitch) : Prop where
  cases_eq : pending.labels.cases.map (·.1) = (range pending.labels.cases.length).map
    fun k => madeLabel pending.id ("case_" ++ toString k)
  default_eq : pending.NamesDefault

variable {label : String} {pending : PendingSwitch} {body : Stmt} {tok : Token} {count count' : Nat}

lemma PendingSwitch.Named.mem_made (h : pending.Named) (hl : label ∈ pending.made) :
    ∃ suffix, label = madeLabel pending.id suffix ∧ suffix ≠ "head" ∧ suffix ≠ "tail" := by
  rw [made, h.cases_eq, mem_append, mem_map] at hl
  rcases hl with ⟨k, -, rfl⟩ | hl
  · exact ⟨_, rfl, caseSuffix_ne (by decide), caseSuffix_ne (by decide)⟩
  · exact ⟨"default", h.default_eq label (Option.mem_toList.1 hl), by decide, by decide⟩

lemma PendingSwitch.Named.nodup_made (h : pending.Named) : pending.made.Nodup := by
  rw [made, h.cases_eq, nodup_append]
  refine ⟨?_, ?_, ?_⟩
  · refine List.Nodup.map (fun k l hkl => ?_) nodup_range
    exact caseSuffix_inj (madeLabel_inj.1 hkl).2
  · cases pending.labels.default <;> simp
  · intro label hl label' hl' heq
    rw [mem_map] at hl
    obtain ⟨k, -, rfl⟩ := hl
    rw [h.default_eq label' (Option.mem_toList.1 hl')] at heq
    exact caseSuffix_ne (by decide) (madeLabel_inj.1 heq).2

/-! ## What a pass supplies -/

def State.made (st : State) : List String := st.switch.elim [] (·.made)

def PendingSwitch.defaults (pending : PendingSwitch) : Nat := pending.labels.default.toList.length

/-- Whether the switch around a place has room for a number of default labels. -/
def Ready (count : Nat) (st : State) : Prop :=
  ∀ pending ∈ st.switch, pending.Named ∧ count + pending.defaults ≤ 1

/-- A pass that starts with labels `old` and a number of default labels ends with labels `new`: the
new ones among them are `fresh` or belong to the switch around the place. -/
structure Supplies (st : State) (old : List String) (count : Nat) (st' : State)
    (new fresh : List String) : Prop where
  nextLabel_le : st.nextLabel ≤ st'.nextLabel
  perm : (new ++ st.made).Perm (old ++ (st'.made ++ fresh))
  nodup : fresh.Nodup
  between : ∀ label ∈ fresh, MadeBetween st.nextLabel st'.nextLabel label
  named : ∀ pending' ∈ st'.switch, pending'.Named ∧
    ∃ pending ∈ st.switch, pending'.defaults = count + pending.defaults

lemma MadeBetween.mono (h : MadeBetween low high label) (hlow : low' ≤ low) (hhigh : high ≤ high') :
    MadeBetween low' high' label := by
  obtain ⟨id, suffix, h1, h2, rfl⟩ := h
  exact ⟨id, suffix, hlow.trans h1, h2.trans_le hhigh, rfl⟩

lemma MadeBetween.ne (h : MadeBetween low mid label)
    (h' : MadeBetween mid high label') : label ≠ label' := by
  obtain ⟨id, suffix, -, h2, rfl⟩ := h
  obtain ⟨id', suffix', h1, -, rfl⟩ := h'
  intro heq
  have := (madeLabel_inj.1 heq).1
  omega

namespace Supplies

variable {st st' st'' : State} {old old' new new' fresh fresh' : List String}

lemma refl (labels : List String) (h : Ready 0 st) : Supplies st labels 0 st labels [] := by
  refine ⟨le_rfl, by simp, nodup_nil, by simp, fun pending hp => ?_⟩
  exact ⟨(h pending hp).1, pending, hp, by simp⟩

section

variable (h : Supplies st old count st' new fresh)
include h

lemma ready (hr : Ready (count + count') st) : Ready count' st' := by
  intro pending' hp'
  obtain ⟨hnamed, pending, hp, hcount⟩ := h.named pending' hp'
  have := (hr pending hp).2
  exact ⟨hnamed, by omega⟩

lemma append (h' : Supplies st' old' count' st'' new' fresh') :
    Supplies st (old ++ old') (count + count') st'' (new ++ new') (fresh ++ fresh') where
  nextLabel_le := h.nextLabel_le.trans h'.nextLabel_le
  perm := by
    rw [perm_iff_count]
    intro label
    have h1 := h.perm.count_eq label
    have h2 := h'.perm.count_eq label
    simp only [count_append] at h1 h2 ⊢
    omega
  nodup := by
    refine nodup_append.2 ⟨h.nodup, h'.nodup, fun label hl label' hl' => ?_⟩
    exact (h.between label hl).ne (h'.between label' hl')
  between := by
    intro label hl
    rcases mem_append.1 hl with hl | hl
    · exact (h.between label hl).mono le_rfl h'.nextLabel_le
    · exact (h'.between label hl).mono h.nextLabel_le le_rfl
  named := by
    intro pending'' hp''
    obtain ⟨hnamed, pending', hp', hcount'⟩ := h'.named pending'' hp''
    obtain ⟨-, pending, hp, hcount⟩ := h.named pending' hp'
    exact ⟨hnamed, pending, hp, by omega⟩

lemma congr (st1 st1' : State) (hn : st1.nextLabel = st.nextLabel) (hs : st1.switch = st.switch)
    (hn' : st1'.nextLabel = st'.nextLabel) (hs' : st1'.switch = st'.switch) :
    Supplies st1 old count st1' new fresh where
  nextLabel_le := by rw [hn, hn']; exact h.nextLabel_le
  perm := by
    unfold State.made
    rw [hs, hs']
    exact h.perm
  nodup := h.nodup
  between := by rw [hn, hn']; exact h.between
  named := by rw [hs, hs']; exact h.named

end

lemma still (hr : Ready 0 st) (h : st'.nextLabel = st.nextLabel ∧ st'.switch = st.switch) :
    ∃ fresh, Supplies st old 0 st' old fresh :=
  ⟨[], (refl old hr).congr st st' rfl rfl h.1 h.2⟩

lemma own (h : Supplies { st with nextLabel := st.nextLabel + 1 } old count st' new fresh)
    (made : List String) (hmade : made.Nodup)
    (hown : ∀ label ∈ made, ∃ suffix, label = madeLabel st.nextLabel suffix)
    (hnew : new'.Perm (made ++ new)) : Supplies st old count st' new' (made ++ fresh) where
  nextLabel_le := (le_succ _).trans h.nextLabel_le
  perm := by
    rw [perm_iff_count]
    intro label
    have h1 := h.perm.count_eq label
    have h2 := hnew.count_eq label
    have h3 : ({ st with nextLabel := st.nextLabel + 1 } : State).made = st.made := rfl
    rw [h3] at h1
    simp only [count_append] at h1 h2 ⊢
    omega
  nodup := by
    refine nodup_append.2 ⟨hmade, h.nodup, fun label hl label' hl' => ?_⟩
    obtain ⟨suffix, rfl⟩ := hown label hl
    exact MadeBetween.ne ⟨_, _, le_rfl, lt_succ_self _, rfl⟩ (h.between label' hl')
  between := by
    intro label hl
    rcases mem_append.1 hl with hl | hl
    · obtain ⟨suffix, rfl⟩ := hown label hl
      exact ⟨_, _, le_rfl, h.nextLabel_le, rfl⟩
    · exact (h.between label hl).mono (le_succ _) le_rfl
  named := h.named

end Supplies

lemma MakesExprs.same (h : MakesExprs m) (st : State) :
    (m st).2.nextLabel = st.nextLabel ∧ (m st).2.switch = st.switch ∧
      Stmt.labelsIn (m st).1 = [] := by
  obtain ⟨ss, k, hss, hrun⟩ := h
  rw [hrun]
  refine ⟨rfl, rfl, ?_⟩
  clear hrun
  induction ss with
  | nil => rfl
  | cons s _ ih =>
    obtain ⟨tok, e, rfl⟩ := hss s (.head _)
    exact ih fun s hs => hss s (.tail _ hs)

lemma Ready.congr (h : Ready count st) (hs : st'.switch = st.switch) : Ready count st' := by
  unfold Ready
  rw [hs]
  exact h

lemma Ready.left (h : Ready (count + count') st) : Ready count st := by
  intro pending hp
  obtain ⟨hnamed, hcount⟩ := h pending hp
  exact ⟨hnamed, by omega⟩

lemma labelsIn_loopStatements {cond : Expr} {head tail : String} :
    Stmt.labelsIn (loopStatements tok cond body head tail) = head :: (body.labels ++ [tail]) := by
  unfold loopStatements
  cases isAlwaysTrue cond <;> rfl

lemma labels_doAsWhile {cond : Expr} {next : String} :
    (doAsWhile tok body cond next).labels = body.labels ++ [next] := rfl

lemma labelsIn_forAsWhile {cond step : Option Expr}
    {body : Stmt} {next : String} : Stmt.labelsIn (forAsWhile tok first cond step body next) =
      first.elim [] Stmt.labels ++ (body.labels ++ [next]) := by
  cases first <;> cases step <;> simp [forAsWhile, Stmt.labels, Stmt.labelsIn]

/-- What a pass over a statement supplies, if no switch in it has two default labels and the switch
around it has room for its default labels. -/
def Supplied (s : Stmt) : Prop :=
  ∀ (c : Context) (st : State), s.hasSingleDefaults = true → Ready s.defaults st →
    ∃ fresh, Supplies st s.labels s.defaults (stmt c s st).2 (stmt c s st).1.labels fresh

lemma stmts_supplied (h : ∀ s ∈ ss, Supplied s) (c : Context) (st : State)
    (hs : Stmt.allSingleDefaults ss = true) (hr : Ready (Stmt.defaultsIn ss) st) :
    ∃ fresh, Supplies st (Stmt.labelsIn ss) (Stmt.defaultsIn ss) (stmts c ss st).2
      (Stmt.labelsIn (stmts c ss st).1) fresh := by
  induction ss generalizing st with
  | nil => exact ⟨[], .refl [] hr⟩
  | cons s _ ih =>
    rw [Stmt.allSingleDefaults, Bool.and_eq_true] at hs
    obtain ⟨fresh, hfirst⟩ := h s (.head _) c st hs.1 hr.left
    obtain ⟨fresh', hrest⟩ :=
      ih (fun s hs => h s (.tail _ hs)) _ hs.2 (hfirst.ready hr)
    exact ⟨_, hfirst.append hrest⟩

lemma Supplied.loop (ih : Supplied body) (c : Context) (st : State)
    (hs : body.hasSingleDefaults = true) (hr : Ready body.defaults st)
    (hmid : mid.nextLabel = st.nextLabel + 1 ∧ mid.switch = st.switch) (made : List String)
    (hmade : made.Nodup) (hown : ∀ label ∈ made, ∃ suffix, label = madeLabel st.nextLabel suffix)
    (hnew : new.Perm (made ++ (stmt c body mid).1.labels)) :
    ∃ fresh, Supplies st body.labels body.defaults
      { (stmt c body mid).2 with changes := (stmt c body mid).2.changes + 1 } new fresh := by
  obtain ⟨fresh, h⟩ := ih c mid hs (hr.congr hmid.2)
  have h' := h.congr { st with nextLabel := st.nextLabel + 1 }
    { (stmt c body mid).2 with changes := (stmt c body mid).2.changes + 1 }
    hmid.1.symm hmid.2.symm rfl rfl
  exact ⟨_, h'.own made hmade hown hnew⟩

lemma Supplied.whileLoop {cond : Expr} (ih : Supplied body) :
    Supplied (.whileLoop tok cond body) := by
  intro c st hs hr
  have hsame := (expr_faithful cond).same { st with nextLabel := st.nextLabel + 1 }
  refine ih.loop _ st hs hr hsame
    [madeLabel st.nextLabel "head", madeLabel st.nextLabel "tail"] ?_ ?_ ?_
  · simp [madeLabel_inj]
  · simp only [mem_cons, not_mem_nil, or_false]
    rintro label (rfl | rfl)
    · exact ⟨_, rfl⟩
    · exact ⟨_, rfl⟩
  · simp only [stmt_whileLoop, Stmt.labels, labelsIn_loopStatements]
    rw [perm_iff_count]
    simp only [count_append, count_cons, count_nil]
    omega

lemma Supplied.doLoop {cond : Expr} (ih : Supplied body) : Supplied (.doLoop tok body cond) := by
  intro c st hs hr
  have hsame := (expr_faithful cond).same { st with nextLabel := st.nextLabel + 1 }
  refine ih.loop _ st hs hr hsame [madeLabel st.nextLabel "next"] ?_ ?_ ?_
  · simp
  · simp
  · simp only [stmt_doLoop, labels_doAsWhile]
    exact perm_append_comm

lemma Supplied.forLoop {cond step : Option Expr} {first : Option Stmt}
    (ihFirst : ∀ s ∈ first, Supplied s) (ih : Supplied body) :
    Supplied (.forLoop tok first cond step body) := by
  intro c st hs hr
  have hsame (st : State) : (optionExpr step (optionExpr cond st).2).2.nextLabel =
      st.nextLabel ∧ (optionExpr step (optionExpr cond st).2).2.switch = st.switch := by
    have h := (optionExpr_faithful cond).same st
    have h' := (optionExpr_faithful step).same (optionExpr cond st).2
    exact ⟨h'.1.trans h.1, h'.2.trans h.2⟩
  cases first with
  | none =>
    refine ih.loop _ st hs hr (hsame _) [madeLabel st.nextLabel "next"] ?_ ?_ ?_
    · simp
    · simp
    · simp only [stmt_forLoop_none, Stmt.labels, labelsIn_forAsWhile, Option.elim_none,
        nil_append]
      exact perm_append_comm
  | some first =>
    -- The number is taken before the first statement, which makes labels of its own.
    rw [Stmt.hasSingleDefaults, Bool.and_eq_true] at hs
    obtain ⟨fresh, hfirst⟩ := ihFirst first rfl c { st with nextLabel := st.nextLabel + 1 } hs.1
      (hr.left.congr rfl)
    obtain ⟨fresh', hbody⟩ := ih (c.loopBody (madeLabel st.nextLabel "next"))
      (optionExpr step (optionExpr cond
        (stmt c first { st with nextLabel := st.nextLabel + 1 }).2).2).2 hs.2
      ((hfirst.ready (hr.congr rfl)).congr (hsame _).2)
    have hbody' := hbody.congr (stmt c first { st with nextLabel := st.nextLabel + 1 }).2
      (stmt c (.forLoop tok (some first) cond step body) st).2
      (hsame _).1.symm (hsame _).2.symm rfl rfl
    refine ⟨_, (hfirst.append hbody').own [madeLabel st.nextLabel "next"] ?_ ?_ ?_⟩
    · simp
    · simp
    · simp only [stmt_forLoop_some, Stmt.labels, labelsIn_forAsWhile, Option.elim_some]
      rw [perm_iff_count]
      simp only [count_append]
      omega

/-- The end of a switch that collects its labels: with its head and its end they are made of the
number that was taken for it. -/
lemma Supplies.close {st after : State} (hr : Ready 0 st) (hmade : pending.made = [])
    (hmid : mid.nextLabel = st.nextLabel + 1) (hsw : mid.switch = some pending)
    (h : Supplies mid old count after new fresh) (hafter : after.switch = some pending')
    (hframe : pending'.frame = (st.nextLabel, madeLabel st.nextLabel "head",
      madeLabel st.nextLabel "tail")) (changes : Nat) :
    ∃ fresh', Supplies st old 0 { after with switch := st.switch, changes }
      (pending'.labels.head :: (new ++ [pending'.labels.tail])) fresh' := by
  have hnamed := (h.named pending' hafter).1
  have hid : pending'.id = st.nextLabel := congrArg (·.1) hframe
  have hhead : pending'.labels.head = madeLabel st.nextLabel "head" := congrArg (·.2.1) hframe
  have htail : pending'.labels.tail = madeLabel st.nextLabel "tail" := congrArg (·.2.2) hframe
  have hbase : Supplies { st with nextLabel := st.nextLabel + 1 } old 0
      { after with switch := st.switch, changes } (old ++ fresh) fresh := by
    refine ⟨hmid ▸ h.nextLabel_le, ?_, h.nodup, hmid ▸ h.between, fun p hp => ?_⟩
    · rw [perm_iff_count]
      simp only [count_append, State.made]
      omega
    · exact ⟨(hr p hp).1, p, hp, by simp⟩
  refine ⟨_, hbase.own (pending'.labels.head :: pending'.labels.tail :: pending'.made) ?_ ?_ ?_⟩
  · rw [hhead, htail]
    refine nodup_cons.2 ⟨?_, nodup_cons.2 ⟨?_, hnamed.nodup_made⟩⟩
    · intro hmem
      rcases mem_cons.1 hmem with heq | hmem
      · exact absurd (madeLabel_inj.1 heq).2 (by decide)
      · obtain ⟨suffix, heq, hne, -⟩ := hnamed.mem_made hmem
        exact hne (madeLabel_inj.1 heq).2.symm
    · intro hmem
      obtain ⟨suffix, heq, -, hne⟩ := hnamed.mem_made hmem
      exact hne (madeLabel_inj.1 heq).2.symm
  · intro label hl
    rcases mem_cons.1 hl with rfl | hl
    · exact ⟨_, hhead⟩
    · rcases mem_cons.1 hl with rfl | hl
      · exact ⟨_, htail⟩
      · obtain ⟨suffix, rfl, -⟩ := hnamed.mem_made hl
        exact ⟨suffix, by rw [hid]⟩
  · rw [perm_iff_count]
    intro label
    have h1 := h.perm.count_eq label
    simp only [State.made, hsw, hafter, Option.elim_some, hmade, append_nil,
      count_append] at h1
    simp only [count_append, count_cons, count_nil]
    omega

lemma Supplied.switch (ih : Supplied body) : Supplied (.switch tok value body none) := by
  intro c st hs hr
  rw [Stmt.hasSingleDefaults, Bool.and_eq_true, decide_eq_true_eq] at hs
  obtain ⟨e, k, -, -, hrun⟩ := expr_faithful value
  simp only [stmt_switch_none, hrun]
  set inside := State.openSwitch { st with changes := st.changes + k }
  have hready : Ready body.defaults inside := by
    intro pending hp
    obtain rfl := Option.some.inj hp
    exact ⟨⟨rfl, fun name hname => by cases hname⟩, hs.2⟩
  obtain ⟨fresh, hbody⟩ := ih (c.switchBody (madeLabel st.nextLabel "tail")) inside hs.1 hready
  have hadv := stmt_advances body (c.switchBody (madeLabel st.nextLabel "tail")) inside
  have hframe := hadv.frame_eq
  obtain ⟨pending', hafter⟩ := Option.isSome_iff_exists.1 (hadv.isSome_eq.trans rfl)
  rw [hafter] at hframe ⊢
  exact Supplies.close hr rfl rfl rfl hbody hafter (Option.some.inj hframe) _

lemma Supplied.caseLabel (tok : Token) (value : Expr) : Supplied (.caseLabel tok value) := by
  intro c st hs hr
  cases hst : st.switch with
  | none =>
    rw [stmt_caseLabel_none c st (.inl hst)]
    exact ⟨[], .refl [] hr⟩
  | some pending =>
    cases hv : value.integer? with
    | none =>
      rw [stmt_caseLabel_none c st (.inr hv)]
      exact ⟨[], .refl [] hr⟩
    | some =>
      obtain ⟨hnamed, -⟩ := hr pending hst
      rw [stmt_caseLabel_some c st hst hv]
      refine ⟨[], le_rfl, ?_, nodup_nil, by simp, fun pending' hp' => ?_⟩
      · rw [perm_iff_count]
        simp only [State.made, hst, Option.elim_some, made, Stmt.labels,
          map_append, count_append, map_cons, map_nil, count_nil]
        omega
      · obtain rfl := Option.some.inj hp'
        refine ⟨⟨?_, hnamed.default_eq⟩, pending, hst, ?_⟩
        · rw [map_append, hnamed.cases_eq]
          simp [range_succ]
        · simp [defaults, Stmt.defaults]

lemma Supplied.defaultLabel (tok : Token) : Supplied (.defaultLabel tok) := by
  intro c st hs hr
  cases hst : st.switch with
  | none =>
    rw [stmt_defaultLabel_none c st hst]
    refine ⟨[], le_rfl, by simp, nodup_nil, by simp, fun pending' hp' => ?_⟩
    rw [hst] at hp'
    cases hp'
  | some pending =>
    obtain ⟨hnamed, hroom⟩ := hr pending hst
    have hnone : pending.labels.default = none := by
      cases h : pending.labels.default with
      | none => rfl
      | some => simp [defaults, Stmt.defaults, h] at hroom
    rw [stmt_defaultLabel_some c st hst]
    refine ⟨[], le_rfl, ?_, nodup_nil, by simp, fun pending' hp' => ?_⟩
    · rw [perm_iff_count]
      simp only [State.made, hst, Option.elim_some, made, Stmt.labels, hnone,
        count_append, count_nil, Option.toList_none, Option.toList_some]
      omega
    · obtain rfl := Option.some.inj hp'
      refine ⟨⟨hnamed.cases_eq, ?_⟩, pending, hst, ?_⟩
      · intro name hname
        exact (Option.some.inj hname).symm
      · simp [defaults, Stmt.defaults, hnone]

lemma supplied (s : Stmt) : Supplied s := by
  intro c st hs hr
  induction s using Stmt.induction generalizing c st with
  | expr _ e =>
    cases h : declaredElements? c.types e with
    | none =>
      rw [stmt_expr_none c st h]
      exact Supplies.still hr ((expr_faithful e).same st)
    | some declared =>
      rw [stmt_expr_some c st h]
      obtain ⟨hn, hsw, hl⟩ := (expandDeclaration_makesExprs c e.note declared.1 declared.2).same st
      rw [Stmt.labels, hl]
      exact Supplies.still hr ⟨hn, hsw⟩
  | block tok scope body ih | seq tok body ih => exact stmts_supplied ih c st hs hr
  | branch _ cond _ no ihYes ihNo =>
    obtain ⟨hn, hsw⟩ := (expr_faithful cond).same st
    cases no with
    | none =>
      obtain ⟨fresh, hyes⟩ := ihYes c _ hs (hr.congr hsw)
      exact ⟨fresh, hyes.congr st _ hn.symm hsw.symm rfl rfl⟩
    | some no =>
      rw [Stmt.hasSingleDefaults, Bool.and_eq_true] at hs
      obtain ⟨fresh, hyes⟩ := ihYes c _ hs.1 (hr.left.congr hsw)
      obtain ⟨fresh', hno⟩ := ihNo no rfl c _ hs.2 (hyes.ready (hr.congr hsw))
      exact ⟨_, (hyes.append hno).congr st _ hn.symm hsw.symm rfl rfl⟩
  | whileLoop _ _ _ ih => exact Supplied.whileLoop ih c st hs hr
  | doLoop _ _ _ ih => exact Supplied.doLoop ih c st hs hr
  | forLoop _ _ _ _ _ ihFirst ih => exact Supplied.forLoop ihFirst ih c st hs hr
  | breakLoop =>
    rw [stmt]
    cases c.breakTo <;> exact Supplies.still hr ⟨rfl, rfl⟩
  | continueLoop =>
    rw [stmt]
    cases c.continueTo <;> exact Supplies.still hr ⟨rfl, rfl⟩
  | ret _ value => exact Supplies.still hr ((optionExpr_faithful value).same st)
  | gotoAddress _ target => exact Supplies.still hr ((expr_faithful target).same st)
  | switch tok value body labels ih =>
    cases labels with
    | none => exact Supplied.switch ih c st hs hr
    | some labels =>
      obtain ⟨hn, hsw⟩ := (expr_faithful value).same st
      obtain ⟨fresh, hbody⟩ := ih (c.switchBody labels.tail) _ hs (hr.congr hsw)
      have hbody := hbody.congr st (stmt c (.switch tok value body (some labels)) st).2
        hn.symm hsw.symm rfl rfl
      refine ⟨fresh, hbody.nextLabel_le, ?_, hbody.nodup, hbody.between, hbody.named⟩
      rw [perm_iff_count]
      intro label
      have := hbody.perm.count_eq label
      simp only [stmt_switch_some, Stmt.labels, count_append, count_cons] at this ⊢
      omega
  | caseLabel tok value => exact Supplied.caseLabel tok value c st hs hr
  | defaultLabel tok => exact Supplied.defaultLabel tok c st hs hr
  | assertion _ cond => exact Supplies.still hr ((expr_faithful cond).same st)
  | cleanup _ _ ih => exact ih c st hs hr
  | goto tok label | label tok name | asm tok code | empty tok => exact Supplies.still hr ⟨rfl, rfl⟩

end CompilerCore.ControlFlow
