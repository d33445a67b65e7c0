import CompilerCore.Types.Constant
import Mathlib.Data.List.Nodup
import Mathlib.Data.List.Perm.Subperm

/-!
# Values of named constants

A constant that is given by another one has the value of a chain of constants: the number at its end, and
one more for each step to a predecessor.  Aliases lead forwards and backwards, so a chain may come back to
where it was; then there is no value.
-/

namespace CompilerCore

open List Option Int64

namespace NamedConstant

/-- The number that the constant at a position is given by itself: a literal, or zero for the first. -/
def base? (cs : List NamedConstant) (i : Nat) : Option Int :=
  cs[i]?.bind fun c =>
    match c.value with
    | .literal value => some value.toInt
    | .implicit => if i = 0 then some 0 else none
    | .alias _ => none

/-- The position of the constant that the one at a position is given by, and how much it adds to it. -/
def link? (cs : List NamedConstant) (i : Nat) : Option (Nat × Int) :=
  cs[i]?.bind fun c =>
    match c.value with
    | .alias name => (cs.findIdx? (·.name == name)).map (·, 0)
    | .implicit => if i = 0 then none else some (i - 1, 1)
    | .literal _ => none

/-- The positions on the way to the end of a chain, and the number that the chain stands for. -/
inductive Chain (cs : List NamedConstant) : List Nat → Int → Prop where
  | last : base? cs i = some n → Chain cs [i] n
  | link : link? cs i = some (j, k) → Chain cs (j :: path) n → Chain cs (i :: j :: path) (n + k)

/-- A chain from the constant of a name that passes no constant twice and stands for a number. -/
def EndsIn (cs : List NamedConstant) (name : String) (n : Int) : Prop :=
  ∃ i path, cs[i]?.map (·.name) = some name ∧ Chain cs (i :: path) n ∧ (i :: path).Nodup

variable {cs : List NamedConstant} {i j : Nat} {n m : Int} {path path' : List Nat}
  {name : String} {value : Int64}

lemma link?_of_base? (h : base? cs i = some n) : link? cs i = none := by
  obtain ⟨c, hc, h⟩ := bind_eq_some_iff.1 h
  rw [link?, hc]
  cases hvalue : c.value <;> simp_all

lemma lt_of_base? (h : base? cs i = some n) : i < cs.length := by
  by_contra hi
  simp [base?, getElem?_eq_none (Nat.le_of_not_lt hi)] at h

lemma lt_of_link? (h : link? cs i = some (j, k)) : i < cs.length := by
  by_contra hi
  simp [link?, getElem?_eq_none (Nat.le_of_not_lt hi)] at h

lemma Chain.lt (h : Chain cs path n) : ∀ i ∈ path, i < cs.length := by
  induction h with
  | last hbase => simpa using lt_of_base? hbase
  | link hlink _ ih => exact forall_mem_cons.2 ⟨lt_of_link? hlink, ih⟩

lemma Chain.unique (h : Chain cs (i :: path) n) (h' : Chain cs (i :: path') m) : path = path' := by
  generalize hpath : i :: path = chain at h
  induction h generalizing i path path' m with
  | last hbase =>
    cases hpath
    cases h' with
    | last => rfl
    | link hlink' _ => simp [link?_of_base? hbase] at hlink'
  | link hlink _ ih =>
    cases hpath
    cases h' with
    | last hbase' => simp [link?_of_base? hbase'] at hlink
    | link hlink' hnext' =>
      cases hlink.symm.trans hlink'
      rw [ih hnext' rfl]

lemma Chain.suffix (h : Chain cs path n) (hi : i ∈ path) :
    ∃ rest m, Chain cs (i :: rest) m ∧ rest.length < path.length := by
  induction h with
  | last hbase =>
    obtain rfl := mem_singleton.1 hi
    exact ⟨[], _, .last hbase, Nat.one_pos⟩
  | link hlink hnext ih =>
    rcases mem_cons.1 hi with rfl | hi
    · exact ⟨_, _, .link hlink hnext, Nat.lt_succ_self _⟩
    · obtain ⟨rest, m, hrest, hlt⟩ := ih hi
      exact ⟨rest, m, hrest, Nat.lt_succ_of_lt hlt⟩

/-- A chain that ends never comes back: from there on it would not end. -/
lemma Chain.nodup (h : Chain cs path n) : path.Nodup := by
  induction h with
  | last => exact nodup_singleton _
  | link hlink hnext ih =>
    refine nodup_cons.2 ⟨fun hi => ?_, ih⟩
    obtain ⟨rest, _, hrest, hlt⟩ := hnext.suffix hi
    rw [(Chain.link hlink hnext).unique hrest] at hlt
    exact Nat.lt_irrefl _ hlt

section

variable (hnames : (cs.map (·.name)).Nodup)
include hnames

lemma findIdx?_name {c : NamedConstant} (hc : cs[i]? = some c) :
    cs.findIdx? (·.name == c.name) = some i := by
  obtain ⟨hi, rfl⟩ := List.getElem?_eq_some_iff.1 hc
  refine findIdx?_eq_some_iff_getElem.2 ⟨hi, by simp, ?_⟩
  intro j hj hname
  have hlt := Nat.lt_trans hj hi
  exact Nat.ne_of_lt hj ((getElem?_inj (by simpa using hlt) hnames).1 (by simpa [hi, hlt] using hname))

lemma valueWithin_succ {c : NamedConstant} (hc : cs[i]? = some c) (fuel : Nat) :
    valueWithin cs (fuel + 1) c.name = ((base? cs i).map ofInt).or
      ((link? cs i).bind fun l => cs[l.1]?.bind fun d =>
        (valueWithin cs fuel d.name).map (· + ofInt l.2)) := by
  rw [valueWithin, findIdx?_name hnames hc]
  simp only [bind_eq_bind, bind_some, hc, base?, link?]
  rcases c.value with value | target | _
  · simp
  · cases hfound : cs.findIdx? (·.name == target) with
    | none => cases fuel <;> simp [valueWithin, hfound]
    | some j =>
      obtain ⟨hj, hname, -⟩ := findIdx?_eq_some_iff_getElem.1 hfound
      have hname : cs[j].name = target := by simpa using hname
      simp [hfound, getElem?_eq_getElem hj, hname]
  · cases i <;> simp

lemma Chain.valueWithin_eq (h : Chain cs (i :: path) n) (hfuel : path.length < fuel)
    {c : NamedConstant} (hc : cs[i]? = some c) :
    valueWithin cs fuel c.name = some (ofInt n) := by
  generalize hpath : i :: path = chain at h
  induction h generalizing i path fuel c with
  | last hbase =>
    cases hpath
    obtain ⟨fuel, rfl⟩ := Nat.exists_eq_succ_of_ne_zero (Nat.ne_zero_of_lt hfuel)
    simp [valueWithin_succ hnames hc, hbase]
  | @link i _ _ _ _ hlink hnext ih =>
    cases hpath
    obtain ⟨fuel, rfl⟩ := Nat.exists_eq_succ_of_ne_zero (Nat.ne_zero_of_lt hfuel)
    have hbase : base? cs i = none := by
      by_contra hsome
      obtain ⟨b, hb⟩ := ne_none_iff_exists'.1 hsome
      simp [link?_of_base? hb] at hlink
    have hd := getElem?_eq_getElem (hnext.lt _ (.head _))
    simp [valueWithin_succ hnames hc, hbase, hlink, hd, ih (Nat.lt_of_succ_lt_succ hfuel) hd rfl,
      ofInt_add]

lemma exists_chain (h : valueWithin cs fuel name = some value) :
    ∃ i path n, cs[i]?.map (·.name) = some name ∧ Chain cs (i :: path) n ∧ value = ofInt n := by
  induction fuel generalizing name value with
  | zero => cases h
  | succ fuel ih =>
    cases hfound : cs.findIdx? (·.name == name) with
    | none => simp [valueWithin, hfound] at h
    | some i =>
      obtain ⟨hi, hname, -⟩ := findIdx?_eq_some_iff_getElem.1 hfound
      obtain rfl : cs[i].name = name := by simpa using hname
      have hc := getElem?_eq_getElem hi
      rw [valueWithin_succ hnames hc] at h
      rcases or_eq_some_iff.1 h with hbase | ⟨-, hlater⟩
      · obtain ⟨n, hn, rfl⟩ := map_eq_some_iff.1 hbase
        exact ⟨i, [], n, by simp [hc], .last hn, rfl⟩
      · obtain ⟨⟨j, k⟩, hlink, hlater⟩ := bind_eq_some_iff.1 hlater
        obtain ⟨d, hd, hlater⟩ := bind_eq_some_iff.1 hlater
        obtain ⟨before, hbefore, rfl⟩ := map_eq_some_iff.1 hlater
        obtain ⟨j', path, n, hj', hchain, rfl⟩ := ih hbefore
        obtain ⟨d', hd', hname'⟩ := map_eq_some_iff.1 hj'
        have hsame := (findIdx?_name hnames hd').symm.trans (hname' ▸ findIdx?_name hnames hd)
        cases hsame
        exact ⟨i, _, n + k, by simp [hc], .link hlink hchain, (ofInt_add _ _).symm⟩

/-- As many steps as there are constants suffice for every chain. -/
lemma valueWithin_eq_some_iff (hfuel : cs.length ≤ fuel) : valueWithin cs fuel name = some value ↔
    ∃ n, EndsIn cs name n ∧ value = ofInt n := by
  constructor
  · intro h
    obtain ⟨i, path, n, hi, hchain, rfl⟩ := exists_chain hnames h
    exact ⟨n, ⟨i, path, hi, hchain, hchain.nodup⟩, rfl⟩
  · rintro ⟨n, ⟨i, path, hi, hchain, hnodup⟩, rfl⟩
    obtain ⟨c, hc, rfl⟩ := map_eq_some_iff.1 hi
    have hlength : (i :: path).length ≤ (range cs.length).length :=
      (hnodup.subperm fun j hj => mem_range.2 (hchain.lt j hj)).length_le
    rw [length_range] at hlength
    exact hchain.valueWithin_eq hnames (Nat.le_trans hlength hfuel) hc

end

end NamedConstant

namespace TypeTable

open NamedConstant

/-- A constant of a type whose constants have different names has the value `v` exactly if the chain
that starts with it ends without coming back to a constant, and `v` is the 64-bit form of the number
that the chain stands for: the literal at its end, or zero, plus the number of steps to a predecessor.
Otherwise there is no value.  Looking further does not change the answer. -/
theorem constantValue?_eq_some_iff {t : TypeTable} {id : TypeId}
    (hnames : ((t.slot id).constants.map (·.name)).Nodup) (name : String) :
    (∀ value, t.constantValue? id name = some value ↔
      ∃ n, EndsIn (t.slot id).constants name n ∧ value = ofInt n) ∧
    (t.constantValue? id name = none ↔ ∀ n, ¬EndsIn (t.slot id).constants name n) ∧
    ∀ fuel ≥ (t.slot id).constants.length,
      valueWithin (t.slot id).constants fuel name = t.constantValue? id name := by
  have hvalue (value : Int64) : t.constantValue? id name = some value ↔
      ∃ n, EndsIn (t.slot id).constants name n ∧ value = ofInt n :=
    valueWithin_eq_some_iff hnames Nat.le.refl
  refine ⟨hvalue, ?_, ?_⟩
  · simp only [eq_none_iff_forall_ne_some, ne_eq, hvalue]
    exact ⟨fun h n hn => h _ ⟨n, hn, rfl⟩, fun h _ ⟨n, hn, _⟩ => h n hn⟩
  · intro fuel hfuel
    apply ext
    intro value
    rw [hvalue, valueWithin_eq_some_iff hnames hfuel]

/-- An enum `a = d, b, c = 7, d = c, e = f, f`, in which `e` and `f` lead to each other. -/
def scattered : TypeTable :=
  ((start 8 8).declareEnum "Scattered" TypeId.i32
    [⟨"a", .alias "d"⟩, ⟨"b", .implicit⟩, ⟨"c", .literal 7⟩, ⟨"d", .alias "c"⟩, ⟨"e", .alias "f"⟩,
      ⟨"f", .implicit⟩] none).2

theorem constantValue?_eq_some_iff_scattered :
    ((scattered.slot 12).constants.map (·.name)).Nodup ∧
    (∃ n, EndsIn (scattered.slot 12).constants "b" n ∧ (8 : Int64) = ofInt n) ∧
    ∀ n, ¬EndsIn (scattered.slot 12).constants "f" n := by
  have hnames : ((scattered.slot 12).constants.map (·.name)).Nodup := by decide
  obtain ⟨hsome, -, -⟩ := constantValue?_eq_some_iff hnames "b"
  obtain ⟨-, hnone, -⟩ := constantValue?_eq_some_iff hnames "f"
  exact ⟨hnames, (hsome 8).1 (by decide), hnone.1 (by decide)⟩

end TypeTable

end CompilerCore
