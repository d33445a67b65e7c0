import CompilerCore.Proofs.Code.Emission
import CompilerCore.Proofs.Lowering.Finished

/-!
# Labels of a method

The code of a finished body defines each of its labels once, and all its jumps lead to them.  Labels
that are made on the way have names of their own.
-/

namespace CompilerCore

open List

namespace Code

/-! ## Names of labels -/

/-- The labels that making code makes. -/
def numberedLabel (n : Nat) : String := "$L" ++ toString n

lemma toList_numberedLabel (n : Nat) :
    (numberedLabel n).toList = '$' :: 'L' :: Nat.toDigits 10 n := by
  simp [numberedLabel, String.toList_append, Nat.toList_repr]

lemma numberedLabel_inj (h : numberedLabel m = numberedLabel n) : m = n := by
  have hlist := congrArg String.toList h
  rw [toList_numberedLabel, toList_numberedLabel, cons_inj_right, cons_inj_right] at hlist
  exact ControlFlow.toDigits_inj hlist

lemma numberedLabel_ne_leaveLabel : numberedLabel n ≠ leaveLabel := by
  intro h
  have hlist := congrArg String.toList h
  rw [toList_numberedLabel] at hlist
  exact absurd (cons.inj (cons.inj hlist).2).1 (by decide)

/-! ## Drafts whose labels are in order -/

/-- The given labels are distinct and still to be defined, and so are those that will be made. -/
structure Draft.Separate (labels : List String) (d : Draft) : Prop where
  nodup : labels.Nodup
  coming : ∀ label ∈ labels, d.labels.find? label = none
  fresh : ∀ n, d.nextLabel ≤ n →
    d.labels.find? (numberedLabel n) = none ∧ numberedLabel n ∉ labels

/-- A draft in which every branch leads to a label that is defined or still to be defined.  The labels
are in order, unless labels may be defined twice. -/
structure Draft.Awaits (E : CompileError → Prop) (targets labels : List String) (d : Draft) : Prop where
  separate : (∀ method label, E (.duplicateLabel method label)) ∨ d.Separate labels
  branches : ∀ entry ∈ d.pendingBranches, (d.labels.find? entry.2).isSome ∨ entry.2 ∈ labels
  targets : ∀ label ∈ targets, (d.labels.find? label).isSome ∨ label ∈ labels

namespace Draft

variable {E : CompileError → Prop} {targets labels : List String} {d : Draft}

lemma Separate.newLabel (h : d.Separate labels) :
    d.addLabelName.Separate (d.labelName :: labels) where
  nodup := nodup_cons.2 ⟨(h.fresh _ le_rfl).2, h.nodup⟩
  coming := forall_mem_cons.2 ⟨(h.fresh _ le_rfl).1, h.coming⟩
  fresh n hn := by
    have hle : d.nextLabel + 1 ≤ n := hn
    obtain ⟨hfind, hmem⟩ := h.fresh n (Nat.le_of_succ_le hle)
    refine ⟨hfind, not_mem_cons_of_ne_of_not_mem (fun heq => ?_) hmem⟩
    exact absurd (numberedLabel_inj heq) (Nat.ne_of_gt hle)

lemma find?_addLabel_of_ne (h : other ≠ label) :
    (d.addLabel label).labels.find? other = d.labels.find? other :=
  Labels.find?_insert_of_ne h _

lemma Separate.define (h : d.Separate (label :: labels)) : (d.addLabel label).Separate labels := by
  obtain ⟨hnot, hnodup⟩ := nodup_cons.1 h.nodup
  refine ⟨hnodup, fun other hmem => ?_, fun n hn => ?_⟩
  · have hne : other ≠ label := fun heq => hnot (heq ▸ hmem)
    rw [find?_addLabel_of_ne hne]
    exact h.coming other (.tail _ hmem)
  · obtain ⟨hfind, hmem⟩ := h.fresh n hn
    rw [find?_addLabel_of_ne (ne_of_not_mem_cons hmem)]
    exact ⟨hfind, not_mem_of_not_mem_cons hmem⟩

lemma Separate.perm {labels' : List String} (h : d.Separate labels) (hperm : labels.Perm labels') :
    d.Separate labels' where
  nodup := hperm.nodup_iff.1 h.nodup
  coming label hlabel := h.coming label (hperm.mem_iff.2 hlabel)
  fresh n hn := (h.fresh n hn).imp_right fun hnot hmem => hnot (hperm.mem_iff.2 hmem)

lemma find?_addLabel (h : (d.labels.find? other).isSome ∨ other ∈ label :: labels) :
    ((d.addLabel label).labels.find? other).isSome ∨ other ∈ labels := by
  by_cases heq : other = label
  · subst heq
    exact .inl (by rw [Draft.addLabel, Labels.find?_insert]; rfl)
  · rw [find?_addLabel_of_ne heq]
    exact h.imp_right fun hmem => (mem_cons.1 hmem).resolve_left heq

lemma Awaits.quiet (h : d.Awaits E targets labels) (hquiet : d.Quiet c none strict d') :
    d'.Awaits E targets labels := by
  obtain ⟨hsep, hbranches, htargets⟩ := h
  refine ⟨hsep.imp_right ?_, ?_, ?_⟩
  · rintro ⟨hnodup, hcoming, hfresh⟩
    refine ⟨hnodup, ?_, ?_⟩
    · rwa [hquiet.labels]
    · rwa [hquiet.labels, hquiet.nextLabel]
  · rwa [hquiet.labels, hquiet.branches]
  · rwa [hquiet.labels]

lemma Awaits.branch (h : d.Awaits E targets labels) {label : String}
    (hlabel : (d.labels.find? label).isSome ∨ label ∈ labels) (i : Instruction) :
    (d.addBranch i label).Awaits E targets labels where
  separate := h.separate.imp_right fun hs => ⟨hs.nodup, hs.coming, hs.fresh⟩
  branches := forall_mem_cons.2 ⟨hlabel, h.branches⟩
  targets := h.targets

end Draft

lemma Draft.Awaits.start {targets labels : List String}
    (hlabs : (∀ method label, E (.duplicateLabel method label)) ∨
      labels.Nodup ∧ ∀ n, numberedLabel n ∉ labels) (htargets : ∀ label ∈ targets, label ∈ labels)
    {name : String} (statics : StaticLayout) : Draft.Awaits E targets labels { name, statics } where
  separate := hlabs.imp_right fun h => ⟨h.1, fun _ _ => rfl, fun n _ => ⟨rfl, h.2 n⟩⟩
  branches := nofun
  targets label hlabel := .inr (htargets label hlabel)

/-- Making code for which the labels are in order never fails because of them. -/
def awaiting (c : Env) (E : CompileError → Prop) (targets : List String) : Directing c E where
  spared := none
  strict := False
  own labels d := d.Awaits E targets labels
  targets := (· ∈ targets)
  quiet hd hquiet := hd.quiet hquiet
  result _ hd hquiet := hd.quiet hquiet
  newLabel hd :=
    { separate := hd.separate.imp_right Draft.Separate.newLabel
      branches := fun entry h => (hd.branches entry h).imp_right (.tail _)
      targets := fun label h => (hd.targets label h).imp_right (.tail _) }
  branch hd hlabel i _ _ := hd.branch (.inr hlabel) i
  duplicate hd hfind method := by
    obtain hE | hseparate := hd.separate
    · exact hE method _
    · rw [hseparate.coming _ (.head _)] at hfind
      cases hfind
  define hd _ :=
    { separate := hd.separate.imp_right Draft.Separate.define
      branches := fun entry h => Draft.find?_addLabel (hd.branches entry h)
      targets := fun label h => Draft.find?_addLabel (hd.targets label h) }
  perm hd hperm :=
    { separate := hd.separate.imp_right (·.perm hperm)
      branches := fun entry h => (hd.branches entry h).imp_right hperm.mem_iff.1
      targets := fun label h => (hd.targets label h).imp_right hperm.mem_iff.1 }
  jump hd hlabel i _ _ := hd.branch (hd.targets _ hlabel) i
  finish hd hentry hfind _ := by
    obtain hsome | hmem := hd.branches _ hentry
    · rw [show _ = none from hfind] at hsome
      cases hsome
    · cases hmem

end Code

open Code

/-! ## Finished statements -/

namespace Stmt

variable {site : Site} {s : Stmt} {c : Env}

lemma perm_labelsIn (h : ∀ s ∈ ss, s.labels.Perm (s.codeLabels ++ s.cleanups.flatMap codeLabels)) :
    (labelsIn ss).Perm (codeLabelsIn ss ++ (ss.flatMap cleanups).flatMap codeLabels) := by
  induction ss with
  | nil => exact .refl _
  | cons _ _ ih =>
    rw [forall_mem_cons] at h
    rw [labelsIn, codeLabelsIn, flatMap_cons, flatMap_append]
    refine (h.1.append (ih h.2)).trans ?_
    rw [append_assoc, append_assoc]
    exact .append_left _ (perm_append_comm_assoc _ _ _)

/-- The labels of a finished statement are those that its code defines and those of the cleanup
statements in it. -/
lemma perm_labels (h : s.DoneIn 0 site) :
    s.labels.Perm (s.codeLabels ++ s.cleanups.flatMap codeLabels) := by
  induction s using Stmt.induction generalizing site with
  | block _ _ _ ih =>
    rw [cleanups_block]
    exact perm_labelsIn fun s hs => ih s hs (allDoneIn_iff.1 h s hs)
  | seq _ _ ih =>
    rw [cleanups_seq]
    exact perm_labelsIn fun s hs => ih s hs (allDoneIn_iff.1 h s hs)
  | branch _ _ _ no ihy ihn =>
    cases no with
    | none => exact ihy h.2
    | some no =>
      rw [labels, codeLabels, cleanups_branch_some, flatMap_append]
      refine ((ihy h.2.1).append (ihn no rfl h.2.2)).trans ?_
      rw [append_assoc, append_assoc]
      exact .append_left _ (perm_append_comm_assoc _ _ _)
  | switch _ _ _ own ih =>
    cases own with
    | none => exact absurd h.1 (by decide)
    | some =>
      rw [labels, codeLabels, cleanups_switch, cons_append, append_assoc]
      refine .cons _ (((ih h.2.2).append_right _).trans ?_)
      rw [append_assoc]
      exact .append_left _ perm_append_comm
  | cleanup _ _ ih =>
    exact ih h
  | forLoop _ first =>
    cases first <;> exact absurd h.1 (by decide)
  | expr | ret | goto | gotoAddress | label | asm | empty | assertion => exact .refl _
  | _ => exact absurd h.1 (by decide)

lemma cleanup?_eq_head? : Gen.cleanup? body = body.cleanups.head? :=
  head?_filterMap.symm

lemma jumps_of_targets (h : ∀ label ∈ s.targets, arrives label) (hleave : arrives leaveLabel) :
    s.Jumps arrives := by
  cases s with
  | goto _ name => exact h name (.head _)
  | ret => exact hleave
  | switch _ _ _ own =>
    cases own with
    | none => trivial
    | some =>
      obtain ⟨-, h⟩ := forall_mem_cons.1 h
      obtain ⟨hcases, hdef⟩ := forall_mem_append.1 h
      exact ⟨forall_mem_map.1 hcases, fun name hname => hdef name (Option.mem_toList.2 hname)⟩
  | _ => trivial

lemma IsPlain.lacks (h : s.IsPlain) (hflaw : s.Flaw c error) :
    (∃ e ∈ s.needs, e.hasValue c = false) ∧ error = .voidValue := by
  refine hflaw.resolve_right fun hform => ?_
  cases s with
  | switch _ _ _ own =>
    cases own with
    | none => cases h
    | some => exact hform
  | whileLoop | doLoop | forLoop | breakLoop | continueLoop | caseLabel | defaultLabel
  | assertion => exact h
  | _ => exact hform

lemma codeLabelsIn_eq_nil (h : ∀ s ∈ ss, s.codeLabels = []) : codeLabelsIn ss = [] := by
  induction ss with
  | nil => rfl
  | cons _ _ ih =>
    rw [forall_mem_cons] at h
    rw [codeLabelsIn, h.1, ih h.2, append_nil]

lemma codeLabels_eq_nil (h : s.All IsStraight) : s.codeLabels = [] := by
  induction s using Stmt.induction with
  | expr => rfl
  | seq _ _ ih => exact codeLabelsIn_eq_nil fun s hs => ih s hs ((all_seq.1 h).2 s hs)
  | _ => exact h.self.elim

end Stmt

lemma Function.perm_codeLabels {f : Function} (h : f.body.Finished) :
    f.codeLabels.Perm (leaveLabel :: f.body.labels) := by
  have hperm := (Stmt.perm_labels h.closes).cons leaveLabel
  refine List.Perm.trans ?_ hperm.symm
  rw [codeLabels, Stmt.cleanup?_eq_head?]
  have hlen := h.cleanups
  cases hcleans : f.body.cleanups with
  | nil => exact perm_middle
  | cons _ rest =>
    rw [hcleans, length_cons] at hlen
    obtain rfl : rest = [] := eq_nil_of_length_eq_zero (by omega)
    rw [flatMap_singleton]
    exact perm_middle

/-! ## Methods whose labels are in order -/

namespace Code.Gen

variable {c : Env} {f : Function} {E : CompileError → Prop} {known : List SymbolId}
  {symbols : List (SymbolId × String)} {name : String}

lemma finished_fits (h : f.body.Finished)
    (hlabs : (∀ method label, E (.duplicateLabel method label)) ∨
      f.body.labels.Nodup ∧ leaveLabel ∉ f.body.labels ∧ ∀ n, numberedLabel n ∉ f.body.labels)
    (hflaws : f.body.All fun s => s.IsPlain → ∀ error, s.Flaw c error → E error)
    (hparams : ∀ x ∈ f.parameters, (c.scopes.symbol x).type = none → E .untyped)
    (hclears : c.ClearsAll E False (f.parameters.reverse ++ known) f.emitted)
    (hknown : ∀ x ∈ known, (symbols.lookup x).isSome) : Fits E symbols name (function c f) := by
  have hperm := Function.perm_codeLabels h
  have hbody : f.body.All (c.Passes E (· ∈ leaveLabel :: f.body.labels)) := by
    have hremains : f.body.All (Stmt.Remains (· ∈ leaveLabel :: f.body.labels)) :=
      h.closes.remains (fun _ hlabel =>
        .tail _ ((Stmt.declaredLabels_sublist f.body).subset hlabel))
        fun _ => .tail _
    intro s hs
    exact ⟨hflaws s hs (hremains s hs).plain,
      Stmt.jumps_of_targets (hremains s hs).targets (.head _)⟩
  have hcode : (∀ method label, E (.duplicateLabel method label)) ∨
      f.codeLabels.Nodup ∧ ∀ n, numberedLabel n ∉ f.codeLabels := by
    refine hlabs.imp_right fun ⟨hnodup, hleave, hnumbered⟩ => ?_
    refine ⟨hperm.nodup_iff.2 (nodup_cons.2 ⟨hleave, hnodup⟩), fun n hmem => ?_⟩
    obtain heq | hmem := mem_cons.1 (hperm.mem_iff.1 hmem)
    · exact numberedLabel_ne_leaveLabel heq
    · exact hnumbered n hmem
  have hres {labels : List String} {d : Draft} (r : Option Register)
      (hd : d.Awaits E (leaveLabel :: f.body.labels) labels) :
      { d with returnRegister := r }.Awaits E (leaveLabel :: f.body.labels) labels :=
    ⟨hd.separate.imp_right fun h => ⟨h.nodup, h.coming, h.fresh⟩, hd.branches, hd.targets⟩
  exact (function_ends (D := awaiting c E (leaveLabel :: f.body.labels)) hres hbody hparams hclears).fits
    rfl (.start hcode fun label hlabel => hperm.mem_iff.2 hlabel) hknown

lemma straight_fits {gs : List Global} (h : ∀ g ∈ gs, g.statement.All Stmt.IsStraight)
    (hclears : c.ClearsAll E False known (gs.flatMap (·.statement.emitted)))
    (hknown : ∀ x ∈ known, (symbols.lookup x).isSome) : Fits E symbols name (do
      globals c gs
      leave c none) := by
  have hbody (g : Global) (hg : g ∈ gs) : g.statement.All (c.Passes E (· ∈ [leaveLabel])) := by
    refine (h g hg).mono fun s hs => ?_
    cases s with
    | expr | seq => exact ⟨fun error hflaw => absurd hflaw (by simp [Stmt.Flaw, Stmt.needs]), trivial⟩
    | _ => exact hs.elim
  have hcode : gs.flatMap (·.statement.codeLabels) = [] :=
    flatMap_eq_nil_iff.2 fun g hg => Stmt.codeLabels_eq_nil (h g hg)
  have hlabs : [leaveLabel].Nodup ∧ ∀ n, numberedLabel n ∉ [leaveLabel] :=
    ⟨nodup_singleton _, fun n hmem => numberedLabel_ne_leaveLabel (mem_singleton.1 hmem)⟩
  have hends := initializer_ends (D := awaiting c E [leaveLabel]) hbody hclears
  rw [hcode] at hends
  exact hends.fits rfl (.start (.inr hlabs) fun _ => id) hknown

end Code.Gen

end CompilerCore
