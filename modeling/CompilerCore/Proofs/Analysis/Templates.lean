import CompilerCore.Analysis.Template
import Mathlib.Data.List.Chain

/-!
# Assembly templates are read back as they are written

A list of pieces is written with the signs of its texts doubled.  Reading a template gives the one list
of pieces in normal form that is written as that template, and fails exactly if a sign stands alone
after a part that is written from such a list.  Every template can be taken apart in one of these ways,
and the scanner takes it apart in no other.
-/

namespace CompilerCore.Template

open List Sign

/-! ## Writing -/

/-- A text with its signs doubled. -/
def escape (text : List Char) : List Char :=
  text.flatMap fun c => if (ofChar? c).isSome then [c, c] else [c]

/-- The characters of a template that read as a token. -/
def written : TemplateToken → List Char
  | .text text => escape text.toList
  | .identifier name => identifier.char :: name.toList
  | .register name => register.char :: name.toList

/-- The template that a list of pieces is written as. -/
def unparse (tokens : List TemplateToken) : String := String.ofList (tokens.flatMap written)

/-! ## Normal form -/

/-- A letter or an underscore, and then letters, digits and underscores. -/
def IsName : List Char → Prop
  | [] => False
  | c :: cs => isNameStart c ∧ ∀ d ∈ cs, isNameChar d

/-- Tokens that a template can have: no empty text, and names for names. -/
def Proper : TemplateToken → Prop
  | .text text => text.toList ≠ []
  | .identifier name | .register name => IsName name.toList

/-- Whether one piece may follow another: texts are joined, and a name goes as far as it can. -/
def Joins : TemplateToken → TemplateToken → Prop
  | .text _, .text _ => False
  | .identifier _, .text text | .register _, .text text => ∀ c ∈ text.toList.head?, ¬isNameChar c
  | _, _ => True

/-- Pieces as they are read from a template. -/
def WellFormed (tokens : List TemplateToken) : Prop :=
  (∀ token ∈ tokens, Proper token) ∧ tokens.IsChain Joins

/-- A sign that is followed neither by itself nor by a name, and what an error shows of it. -/
inductive Stray : List Char → String → Prop where
  | last (sign : Sign) : Stray [sign.char] (String.singleton sign.char)
  | other (sign : Sign) {c : Char} (rest : List Char) : c ≠ sign.char → ¬isNameStart c →
    Stray (sign.char :: c :: rest) (String.ofList [sign.char, c])

/-! ## Signs and names -/

namespace Sign

@[simp] lemma ofChar?_char (sign : Sign) : ofChar? sign.char = some sign := by
  cases sign <;> rfl

lemma eq_char_of_ofChar? {c : Char} {sign : Sign} (h : ofChar? c = some sign) : c = sign.char := by
  unfold ofChar? at h
  split_ifs at h with hc hc' <;> cases h <;> assumption

@[simp] lemma written_token (sign : Sign) (name : String) :
    written (sign.token name) = sign.char :: name.toList := by
  cases sign <;> rfl

@[simp] lemma proper_token (sign : Sign) (name : String) :
    Proper (sign.token name) ↔ IsName name.toList := by
  cases sign <;> rfl

lemma joins_token (sign : Sign) (name : String) (token : TemplateToken) :
    Joins token (sign.token name) := by
  cases token <;> cases sign <;> trivial

lemma token_joins_text (sign : Sign) (name text : String) :
    Joins (sign.token name) (.text text) ↔ ∀ c ∈ text.toList.head?, ¬isNameChar c := by
  cases sign <;> rfl

lemma not_isNameChar (sign : Sign) : ¬isNameChar sign.char := by
  cases sign <;> decide

lemma ne_char_of_isNameStart (sign : Sign) {c : Char} (h : isNameStart c) : c ≠ sign.char := by
  rintro rfl
  cases sign <;> revert h <;> decide

lemma text_or_token (token : TemplateToken) :
    (∃ text, token = .text text) ∨ ∃ (sign : Sign) (name : String), token = sign.token name := by
  rcases token with text | name | name
  · exact .inl ⟨text, rfl⟩
  · exact .inr ⟨.identifier, name, rfl⟩
  · exact .inr ⟨.register, name, rfl⟩

end Sign

variable {c : Char} {cs rest text : List Char} {tokens : List TemplateToken} {offset : Nat}

lemma escape_cons_of_none (h : ofChar? c = none) : escape (c :: text) = c :: escape text := by
  simp [escape, h]

lemma escape_cons_sign (sign : Sign) :
    escape (sign.char :: text) = sign.char :: sign.char :: escape text := by
  simp [escape]

lemma head?_escape (text : List Char) : (escape text).head? = text.head? := by
  cases text with
  | nil => rfl
  | cons c text =>
    cases hc : ofChar? c with
    | none => rw [escape_cons_of_none hc, head?_cons, head?_cons]
    | some sign => rw [eq_char_of_ofChar? hc, escape_cons_sign, head?_cons, head?_cons]

lemma wellFormed_nil : WellFormed [] := ⟨by simp, .nil⟩

lemma wellFormed_cons {token : TemplateToken} : WellFormed (token :: tokens) ↔
    Proper token ∧ (∀ next ∈ tokens.head?, Joins token next) ∧ WellFormed tokens := by
  simp only [WellFormed, mem_cons, forall_eq_or_imp, isChain_cons]
  tauto

/-- What may follow a name are the pieces that do not start with a character of a name. -/
lemma joins_token_iff (h : WellFormed tokens) (hrest : ∀ c ∈ rest.head?, ¬isNameChar c) (sign : Sign)
    (name : String) : (∀ next ∈ tokens.head?, Joins (sign.token name) next) ↔
      ∀ c ∈ (tokens.flatMap written ++ rest).head?, ¬isNameChar c := by
  cases tokens with
  | nil => simpa using hrest
  | cons token tokens =>
    simp only [head?_cons, Option.mem_def, Option.some.injEq, forall_eq', flatMap_cons, append_assoc]
    obtain ⟨hproper, -⟩ := wellFormed_cons.1 h
    rcases text_or_token token with ⟨text, rfl⟩ | ⟨sign', name', rfl⟩
    · have hhead : (escape text.toList ++ (tokens.flatMap written ++ rest)).head? =
          text.toList.head? := by
        obtain ⟨c, cs, hcs⟩ := exists_cons_of_ne_nil hproper
        rw [head?_append, head?_escape, hcs]
        rfl
      simp only [token_joins_text, written, hhead, Option.mem_def]
    · simp [joins_token, not_isNameChar]

/-! ## Every template can be taken apart -/

/-- How the reading of a template ends, at a byte offset: all is read, or a sign stands alone. -/
inductive Ends (offset : Nat) : List Char → Except TemplateError (List TemplateToken) → Prop where
  | finished : Ends offset [] (.ok [])
  | stray {rest : List Char} {text : String} : Stray rest text →
    Ends offset rest (.error ⟨text, offset⟩)

variable {stop : Except TemplateError (List TemplateToken)}

lemma Ends.head (h : Ends offset rest stop) : ∀ c ∈ rest.head?, ¬isNameChar c := by
  cases h with
  | finished => simp
  | stray h => cases h <;> simp [not_isNameChar]

/-- A character in front belongs to the first text, or is a text of its own. -/
lemma WellFormed.exists_cons (h : WellFormed tokens) (c : Char) :
    ∃ tokens', WellFormed tokens' ∧ tokens'.flatMap written = escape [c] ++ tokens.flatMap written := by
  have hnew (hjoins : ∀ next ∈ tokens.head?, Joins (.text (String.ofList [c])) next) :
      ∃ tokens', WellFormed tokens' ∧
        tokens'.flatMap written = escape [c] ++ tokens.flatMap written :=
    ⟨.text (String.ofList [c]) :: tokens, wellFormed_cons.2 ⟨by simp [Proper], hjoins, h⟩,
      by simp [written]⟩
  cases tokens with
  | nil => exact hnew (by simp)
  | cons token tokens =>
    rcases text_or_token token with ⟨text, rfl⟩ | ⟨sign, name, rfl⟩
    · obtain ⟨-, hnext, hwell⟩ := wellFormed_cons.1 h
      refine ⟨.text (String.ofList (c :: text.toList)) :: tokens, ?_, ?_⟩
      · refine wellFormed_cons.2 ⟨by simp [Proper], ?_, hwell⟩
        intro next hmem
        have hjoins := hnext next hmem
        cases next <;> trivial
      · simp [written, escape]
    · exact hnew (by simpa using sign.joins_token name _)

/-- A name goes as far as it can. -/
lemma WellFormed.token_cons (h : WellFormed tokens) (hrest : ∀ c ∈ rest.head?, ¬isNameChar c)
    (heq : tokens.flatMap written ++ rest = cs.dropWhile isNameChar) (hc : isNameStart c) (sign : Sign) :
    WellFormed (sign.token (String.ofList (c :: cs.takeWhile isNameChar)) :: tokens) := by
  refine wellFormed_cons.2 ⟨?_, ?_, h⟩
  · simpa [IsName, hc] using all_eq_true.1 (all_takeWhile (l := cs))
  · rw [joins_token_iff h hrest, heq]
    intro d hd
    have hstop := head?_dropWhile_not isNameChar cs
    rw [hd] at hstop
    simpa using hstop

/-- Pieces in normal form are in front of the end or of a sign that stands alone. -/
lemma exists_pieces (cs : List Char) : ∃ tokens rest, WellFormed tokens ∧
    tokens.flatMap written ++ rest = cs ∧ ∀ offset, ∃ stop, Ends offset rest stop := by
  induction hlength : cs.length using Nat.strong_induction_on generalizing cs with
  | h length ih =>
    have hpush (c : Char) (cs' : List Char) (hlt : cs'.length < length) : ∃ tokens rest,
        WellFormed tokens ∧ tokens.flatMap written ++ rest = escape [c] ++ cs' ∧
          ∀ offset, ∃ stop, Ends offset rest stop := by
      obtain ⟨tokens, rest, hwell, heq, hends⟩ := ih _ hlt cs' rfl
      obtain ⟨tokens', hwell', hwritten⟩ := hwell.exists_cons c
      exact ⟨tokens', rest, hwell', by rw [hwritten, append_assoc, heq], hends⟩
    match cs, hlength with
    | [], _ => exact ⟨[], [], wellFormed_nil, rfl, fun _ => ⟨_, .finished⟩⟩
    | c :: cs, hlength =>
      cases hc : ofChar? c with
      | none => simpa [escape, hc] using hpush c cs (by simp [← hlength])
      | some sign =>
        obtain rfl := eq_char_of_ofChar? hc
        match cs, hlength with
        | [], _ => exact ⟨[], _, wellFormed_nil, rfl, fun _ => ⟨_, .stray (.last sign)⟩⟩
        | d :: cs, hlength =>
          have hlt : cs.length < length := by
            simp only [length_cons] at hlength
            omega
          by_cases hd : d = sign.char
          · simpa [escape, hd] using hpush sign.char cs hlt
          by_cases hstart : isNameStart d
          · obtain ⟨tokens, rest, hwell, heq, hends⟩ :=
              ih _ ((dropWhile_sublist isNameChar).length_le.trans_lt hlt) _ rfl
            obtain ⟨_, hend⟩ := hends 0
            refine ⟨_, rest, hwell.token_cons hend.head heq hstart sign, ?_, hends⟩
            rw [flatMap_cons, append_assoc, heq]
            simp
          · exact ⟨[], _, wellFormed_nil, rfl, fun _ => ⟨_, .stray (.other sign cs hd hstart)⟩⟩

/-! ## Pieces in normal form are read back -/

/-- The number of bytes of a text. -/
def width (text : List Char) : Nat := (String.ofList text).utf8ByteSize

@[simp] lemma width_nil : width [] = 0 := rfl

@[simp] lemma width_cons : width (c :: text) = c.utf8Size + width text := by simp [width]

@[simp] lemma width_append : width (text ++ rest) = width text + width rest := by simp [width]

lemma scan_escape (text : List Char) (offset : Nat) (reversed : List Char) :
    scan (escape text ++ rest) offset (.text reversed) =
      scan rest (offset + width (escape text)) (.text (text.reverse ++ reversed)) := by
  induction text generalizing offset reversed with
  | nil => rfl
  | cons c text ih =>
    cases hc : ofChar? c with
    | none =>
      rw [escape_cons_of_none hc, cons_append, scan, afterText, hc, ih]
      simp [Nat.add_assoc]
    | some sign =>
      rw [eq_char_of_ofChar? hc, escape_cons_sign]
      simp only [cons_append, scan, afterText, ofChar?_char, if_true, ih]
      simp [Nat.add_assoc]

lemma scan_nameChars {name : List Char} (h : ∀ c ∈ name, isNameChar c) (offset : Nat) (sign : Sign)
    (reversed : List Char) : scan (name ++ rest) offset (.name sign reversed) =
      scan rest (offset + width name) (.name sign (name.reverse ++ reversed)) := by
  induction name generalizing offset reversed with
  | nil => rfl
  | cons c name ih =>
    rw [cons_append, scan, if_pos (h c (.head _)), ih fun d hd => h d (.tail _ hd)]
    simp [Nat.add_assoc]

lemma scan_name_end (hrest : ∀ c ∈ rest.head?, ¬isNameChar c) (sign : Sign)
    (reversed : List Char) : scan rest offset (.name sign reversed) =
      (scan rest offset (.text [])).map (sign.token (String.ofList reversed.reverse) :: ·) := by
  cases rest with
  | nil => rfl
  | cons c rest => simp only [scan, if_neg (hrest c rfl)]

lemma scan_token {name : List Char} (hname : IsName name)
    (hrest : ∀ c ∈ rest.head?, ¬isNameChar c) (sign : Sign) (reversed : List Char) :
    scan (sign.char :: name ++ rest) offset (.text reversed) =
      (scan rest (offset + width (sign.char :: name)) (.text [])).map
        (textPiece reversed ++ sign.token (String.ofList name) :: ·) := by
  cases name with
  | nil => cases hname
  | cons c name =>
    rw [cons_append, cons_append, scan, afterText, ofChar?_char]
    simp only [scan, if_neg (sign.ne_char_of_isNameStart hname.1), if_pos hname.1]
    rw [scan_nameChars hname.2, scan_name_end hrest, width_cons, width_cons, ← Nat.add_assoc,
      ← Nat.add_assoc]
    cases scan rest _ (.text []) <;> simp [Except.map]

lemma Ends.scan_text (h : Ends offset rest stop) (reversed : List Char) :
    scan rest offset (.text reversed) = stop.map (textPiece reversed ++ ·) := by
  cases h with
  | finished => simp [scan, Except.map]
  | stray h =>
    cases h with
    | last sign => simp [scan, afterText, Except.map]
    | other sign rest hne hc => simp [scan, afterText, hne, hc, Except.map]

/-- A text is only finished by the name after it, so it may have been read before. -/
lemma scan_written (h : WellFormed tokens)
    (hends : Ends (offset + width (tokens.flatMap written)) rest stop) {reversed : List Char}
    (hjoins : reversed = [] ∨
      ∀ next ∈ tokens.head?, Joins (.text (String.ofList reversed.reverse)) next) :
    scan (tokens.flatMap written ++ rest) offset (.text reversed) =
      stop.map (textPiece reversed ++ tokens ++ ·) := by
  induction tokens generalizing offset reversed with
  | nil => simpa using hends.scan_text reversed
  | cons token tokens ih =>
    obtain ⟨hproper, hnext, hwell⟩ := wellFormed_cons.1 h
    rw [flatMap_cons, width_append, ← Nat.add_assoc] at hends
    rw [flatMap_cons, append_assoc]
    rcases text_or_token token with ⟨text, rfl⟩ | ⟨sign, name, rfl⟩
    · obtain rfl : reversed = [] := hjoins.resolve_right fun hjoins => hjoins _ rfl
      rw [written] at hends ⊢
      rw [scan_escape, append_nil, ih hwell hends (.inr (by simpa using hnext))]
      have htext : text ≠ "" := by simpa [Proper] using hproper
      simp [textPiece, htext]
    · rw [written_token] at hends ⊢
      rw [scan_token ((sign.proper_token name).1 hproper)
        ((joins_token_iff hwell hends.head sign name).1 hnext), ih hwell hends (.inl rfl)]
      cases stop <;> simp [Except.map, textPiece]

lemma parse_written (h : WellFormed tokens) (hends : Ends (unparse tokens).utf8ByteSize rest stop) :
    parse (unparse tokens ++ String.ofList rest) = stop.map (tokens ++ ·) := by
  rw [← Nat.zero_add (unparse tokens).utf8ByteSize] at hends
  rw [parse, unparse, ← String.ofList_append, String.toList_ofList]
  exact scan_written h hends (.inl rfl)

/-- Reading a template gives the list of pieces in normal form that is written as the template.  It
fails exactly if a sign that is neither doubled nor followed by a name comes after a part that can be
written so, and reports the number of bytes in front of this sign. -/
theorem parse_eq_iff (template : String) :
    (∀ tokens, parse template = .ok tokens ↔ WellFormed tokens ∧ unparse tokens = template) ∧
    ∀ e, parse template = .error e ↔ ∃ tokens rest, WellFormed tokens ∧ Stray rest e.escape ∧
      unparse tokens ++ String.ofList rest = template ∧ e.offset = (unparse tokens).utf8ByteSize := by
  obtain ⟨tokens, rest, hwell, hread, hends⟩ := exists_pieces template.toList
  obtain ⟨stop, hends⟩ := hends (unparse tokens).utf8ByteSize
  obtain rfl : unparse tokens ++ String.ofList rest = template := by
    rw [unparse, ← String.ofList_append, hread, String.ofList_toList]
  have hparse := parse_written hwell hends
  constructor
  · intro tokens'
    constructor
    · intro h
      rw [hparse] at h
      cases hends with
      | finished =>
        cases h
        exact ⟨by simpa using hwell, by simp⟩
      | stray => cases h
    · rintro ⟨hwell', heq⟩
      rw [← heq]
      simpa [Except.map] using parse_written hwell' .finished
  · intro e
    constructor
    · intro h
      rw [hparse] at h
      cases hends with
      | finished => cases h
      | stray hstray =>
        cases h
        exact ⟨tokens, rest, hwell, hstray, rfl, rfl⟩
    · rintro ⟨tokens', rest', hwell', hstray, heq, hoffset⟩
      rw [← heq, parse_written hwell' (.stray hstray), ← hoffset]
      rfl

example : parse "é%%$a$$b" = .ok [.text "é%", .identifier "a", .text "$b"] := by decide

example : parse "é$a$-" = .error ⟨"$-", 4⟩ := by decide

end CompilerCore.Template
