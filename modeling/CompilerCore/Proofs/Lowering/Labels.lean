import CompilerCore.Proofs.Lowering.Meaning
import CompilerCore.Proofs.Tree.Nodes
import Mathlib.Data.List.Nodup

/-!
# Labels of a body

The labels that a jump can lead to, and where it leads.  In a body whose labels are distinct, where a
jump leads can be read off the statement that declares its label: `Located` says this of a statement
and what follows it, and passes to the parts of the statement.
-/

namespace CompilerCore

open List

mutual

/-- The labels that jumps can find in a statement. -/
def Stmt.labels : Stmt → List String
  | .label _ name => [name]
  | .block _ _ body => labelsIn body
  | .seq _ body => labelsIn body
  | .branch _ _ yes none => labels yes
  | .branch _ _ yes (some no) => labels yes ++ labels no
  | .whileLoop _ _ body => labels body
  | .doLoop _ body _ => labels body
  | .forLoop _ none _ _ body => labels body
  | .forLoop _ (some first) _ _ body => labels first ++ labels body
  | .switch _ _ body none => labels body
  | .switch _ _ body (some own) => own.head :: (labels body ++ [own.tail])
  | .cleanup _ body => labels body
  | .expr .. | .breakLoop _ | .continueLoop _ | .ret .. | .goto .. | .gotoAddress ..
  | .caseLabel .. | .defaultLabel _ | .assertion .. | .asm .. | .empty _ => []
termination_by structural s => s

def Stmt.labelsIn : List Stmt → List String
  | [] => []
  | s :: rest => labels s ++ labelsIn rest
termination_by structural ss => ss

end

namespace Stmt

lemma labelsIn_eq_flatMap (ss : List Stmt) : labelsIn ss = ss.flatMap labels := by
  induction ss with
  | nil => rfl
  | cons _ _ ih => rw [labelsIn, ih, flatMap_cons]

lemma labels_eq_flatMap (hlabel : ∀ tok name, s ≠ label tok name)
    (hsw : ∀ tok value body own, s ≠ switch tok value body (some own)) :
    s.labels = s.parts.flatMap labels := by
  cases s with
  | label tok name => exact absurd rfl (hlabel tok name)
  | switch tok value body labels =>
    cases labels with
    | none => simp [labels, parts]
    | some own => exact absurd rfl (hsw tok value body own)
  | branch _ _ _ no => cases no <;> simp [labels, parts]
  | forLoop _ first => cases first <;> simp [labels, parts]
  | _ => simp [labels, parts, labelsIn_eq_flatMap]

end Stmt

namespace Goto

lemma seekIn_eq_none (h : ∀ s ∈ body, label ∉ s.labels → ∀ rest, seek label s rest = none)
    (hl : label ∉ Stmt.labelsIn body) (rest : List Stmt) : seekIn label body rest = none := by
  induction body with
  | nil => rfl
  | cons s _ ih =>
    rw [Stmt.labelsIn, mem_append, not_or] at hl
    rw [seekIn, h s (.head _) hl.1, ih (fun s hs => h s (.tail _ hs)) hl.2]
    rfl

/-- A label that a statement does not carry is not found in it. -/
lemma seek_eq_none (label : String) (s : Stmt) (hl : label ∉ s.labels) (rest : List Stmt) :
    seek label s rest = none := by
  induction s using Stmt.induction generalizing rest with
  | block _ _ _ ih =>
    exact seekIn_eq_none (fun s hs h rest => ih s hs h rest) hl rest
  | seq _ _ ih =>
    exact seekIn_eq_none (fun s hs h rest => ih s hs h rest) hl rest
  | branch _ _ _ no ihYes ihNo =>
    cases no with
    | none => exact ihYes hl rest
    | some no =>
      rw [Stmt.labels, mem_append, not_or] at hl
      rw [seek, ihYes hl.1, ihNo no rfl hl.2]
      rfl
  | label =>
    rw [Stmt.labels, mem_singleton] at hl
    rw [seek, if_neg (Ne.symm hl)]
  | switch _ _ _ labels ih =>
    cases labels with
    | none => rfl
    | some labels =>
      simp only [Stmt.labels, mem_cons, mem_append, not_mem_nil, or_false,
        not_or] at hl
      obtain ⟨hhead, hbody, htail⟩ := hl
      rw [seek, if_neg (Ne.symm hhead), ih hbody, if_neg (Ne.symm htail)]
      rfl
  | _ => rfl

/-- Jumps to the labels of a statement lead to where they are in it, when `rest` follows it. -/
structure Located (body s : Stmt) (rest : List Stmt) : Prop where
  nodup : s.labels.Nodup
  seek_eq : ∀ label ∈ s.labels, seek label body [] = seek label s rest

/-- Jumps to the labels of statements lead to where they are in them, when `rest` follows. -/
structure LocatedIn (body : Stmt) (ss rest : List Stmt) : Prop where
  nodup : (Stmt.labelsIn ss).Nodup
  seek_eq : ∀ label ∈ Stmt.labelsIn ss, seek label body [] = seekIn label ss rest

variable {body : Stmt} {tok : Token} {rest : List Stmt}

/-- In a body that has no label twice, every jump leads to where its label is. -/
lemma Located.self (h : body.labels.Nodup) : Located body body [] :=
  ⟨h, fun _ _ => rfl⟩

lemma Located.inBlock (h : Located body (.block tok scope ss) rest) : LocatedIn body ss rest :=
  ⟨h.nodup, h.seek_eq⟩

lemma Located.inSeq (h : Located body (.seq tok ss) rest) : LocatedIn body ss rest :=
  ⟨h.nodup, h.seek_eq⟩

lemma LocatedIn.head (h : LocatedIn body (s :: ss) rest) : Located body s (ss ++ rest) := by
  have hn := h.nodup
  rw [Stmt.labelsIn, nodup_append] at hn
  refine ⟨hn.1, fun label hl => ?_⟩
  have hnot : label ∉ Stmt.labelsIn ss := fun hr => hn.2.2 label hl label hr rfl
  rw [h.seek_eq label (mem_append_left _ hl), seekIn,
    seekIn_eq_none (fun s _ hs => seek_eq_none label s hs) hnot]
  simp

lemma LocatedIn.tail (h : LocatedIn body (s :: ss) rest) : LocatedIn body ss rest := by
  have hn := h.nodup
  rw [Stmt.labelsIn, nodup_append] at hn
  refine ⟨hn.2.1, fun label hl => ?_⟩
  have hnot : label ∉ s.labels := fun hs => hn.2.2 label hs label hl rfl
  rw [h.seek_eq label (mem_append_right _ hl), seekIn, seek_eq_none label s hnot]
  rfl

lemma LocatedIn.append_right (h : LocatedIn body (ss ++ ss') rest) : LocatedIn body ss' rest := by
  induction ss with
  | nil => exact h
  | cons _ _ ih => exact ih h.tail

lemma Located.single (h : Located body s rest) : LocatedIn body [s] rest := by
  refine ⟨by simpa [Stmt.labelsIn] using h.nodup, fun label hl => ?_⟩
  rw [h.seek_eq label (by simpa [Stmt.labelsIn] using hl)]
  simp [seekIn]

lemma Located.yes {yes : Stmt} {cond : Expr} {no : Option Stmt}
    (h : Located body (.branch tok cond yes no) rest) :
    Located body yes rest := by
  cases no with
  | none => exact ⟨h.nodup, h.seek_eq⟩
  | some no =>
    have hn := h.nodup
    rw [Stmt.labels, nodup_append] at hn
    refine ⟨hn.1, fun label hl => ?_⟩
    have hnot : label ∉ no.labels := fun hr => hn.2.2 label hl label hr rfl
    rw [h.seek_eq label (mem_append_left _ hl), seek, seek_eq_none label no hnot]
    simp

lemma Located.no {yes no : Stmt} {cond : Expr}
    (h : Located body (.branch tok cond yes (some no)) rest) : Located body no rest := by
  have hn := h.nodup
  rw [Stmt.labels, nodup_append] at hn
  refine ⟨hn.2.1, fun label hl => ?_⟩
  have hnot : label ∉ yes.labels := fun hs => hn.2.2 label hs label hl rfl
  rw [h.seek_eq label (mem_append_right _ hl), seek, seek_eq_none label yes hnot]
  rfl

section Switch

variable {inner : Stmt}

/-- Jumps into a switch's body go on, after it, to the label of the switch's end. -/
lemma Located.inSwitch (h : Located body (.switch tok selector inner (some labels)) rest) :
    Located body inner (.label tok labels.tail :: rest) := by
  have hn := h.nodup
  simp only [Stmt.labels, nodup_cons, nodup_append, mem_append, mem_singleton,
    not_or] at hn
  obtain ⟨⟨hhead, -⟩, hinner, -, htail⟩ := hn
  refine ⟨hinner, fun label hl => ?_⟩
  have hne : labels.head ≠ label := fun he => hhead (he ▸ hl)
  have hne' : labels.tail ≠ label := fun he => htail label hl labels.tail rfl he.symm
  rw [h.seek_eq label (by simp [Stmt.labels, hl]), seek, if_neg hne, if_neg hne']
  simp

lemma Located.switchTail (h : Located body (.switch tok selector inner (some labels)) rest) :
    seek labels.tail body [] = some (.label tok labels.tail :: rest) := by
  have hn := h.nodup
  simp only [Stmt.labels, nodup_cons, nodup_append, mem_append, mem_singleton,
    not_or] at hn
  obtain ⟨⟨-, hne⟩, -, -, htail⟩ := hn
  have hnot : labels.tail ∉ inner.labels := fun hl => htail labels.tail hl labels.tail rfl rfl
  rw [h.seek_eq labels.tail (by simp [Stmt.labels]), seek, if_neg hne,
    seek_eq_none _ inner hnot, if_pos rfl]
  rfl

end Switch

/-- A jump to a label goes on with the label and all that follows it. -/
lemma Located.label (h : Located body (.label tok name) rest) :
    seek name body [] = some (.label tok name :: rest) := by
  rw [h.seek_eq name (by simp [Stmt.labels]), seek, if_pos rfl]

end Goto

end CompilerCore
