import MemoryPack.Cs2Cpp.SchemaHash
import MemoryPack.Lib.Brackets
import Mathlib.Data.List.Induction

/-!
# What the canonical text tells

The schema hash has the types of members as texts without white space. Such a text is read
back from its end: a question mark, a rank specifier, a tuple or a name, and a name from its
last dot. `Written` are the types as the C# parser hands them over; their texts are closed, so
that the arguments of a generic type can be told apart, and two of them with one text are equal
(`normalizeCsType_injective`). Nothing in a type is a semicolon and nothing in a name is a
bracket, so the lines of a canonical text can be told apart as well (`sameLines`).
-/

namespace MemoryPack.Cs2Cpp

open Brackets

/-! ## Letters -/

def bracketWeight (c : Char) : Int :=
  if c ∈ ['<', '(', '['] then 1 else if c ∈ ['>', ')', ']'] then -1 else 0

/-- The letters with a meaning of their own in the text of a type or of a schema. -/
def isNameChar (c : Char) : Bool :=
  c ∉ ['<', '>', '(', ')', '[', ']', ',', '.', ':', '?', ';'] && !c.isWhitespace

/-- What separates the arguments of a generic type. -/
def IsComma (c : Char) : Prop := c = ','

/-- What separates the parts of a name, and the comma. -/
def IsNameSeparator (c : Char) : Prop := c = ',' ∨ c = '.' ∨ c = ':'

/-- `PredefinedType`. -/
def predefinedTypes : List String :=
  ["bool", "byte", "sbyte", "short", "ushort", "int", "uint", "long", "ulong", "float",
    "double", "decimal", "char", "string", "object", "void"]

/-- An identifier. -/
def IsWord (name : String) : Prop := name ≠ "" ∧ ∀ c ∈ name.toList, isNameChar c = true

instance (name : String) : Decidable (IsWord name) :=
  have : Decidable (∀ c ∈ name.toList, isNameChar c = true) := List.decidableBAll _ _
  inferInstanceAs (Decidable (_ ∧ _))

/-- A text of which nothing is dropped, with every comma between brackets. -/
structure IsClosedText (text : String) : Prop where
  closed : Closed bracketWeight IsComma text.toList
  noSpace : ∀ c ∈ text.toList, c.isWhitespace = false
  noSemicolon : ';' ∉ text.toList

/-! ## Types as they are written -/

namespace TypeSyntax

def isArray : TypeSyntax → Bool
  | .array _ _ => true
  | _ => false

/-- `SimpleNameSyntax`. -/
def isSimple : TypeSyntax → Bool
  | .identifier _ => true
  | .generic _ _ => true
  | _ => false

mutual
/-- A type as the parser builds it. Rank specifiers are in one list, the part of a qualified
name on the left is its text without white space, and any other type is a tuple, by its text. -/
def Written : TypeSyntax → Prop
  | .predefined name => name ∈ predefinedTypes
  | .identifier name => IsWord name ∧ name ∉ predefinedTypes
  | .generic name args => IsWord name ∧ args ≠ [] ∧ WrittenArgs args
  | .qualified left right => IsClosedText left ∧ right.isSimple = true ∧ right.Written
  | .aliasQualified left name => IsWord left ∧ name.isSimple = true ∧ name.Written
  | .nullable element => element.Written
  | .array element ranks => element.Written ∧ element.isArray = false ∧ ranks ≠ []
  | .other text => IsClosedText text ∧ text.toList.getLast? = some ')'

def WrittenArgs : List TypeSyntax → Prop
  | [] => True
  | t :: ts => t.Written ∧ WrittenArgs ts
end

def rankChars (commas : Nat) : List Char := '[' :: (List.replicate commas ',' ++ [']'])

mutual
/-- The text without white space. -/
def chars : TypeSyntax → List Char
  | .predefined name => name.toList
  | .identifier name => name.toList
  | .generic name args => name.toList ++ '<' :: (charsOfArgs args ++ ['>'])
  | .qualified left right => left.toList ++ '.' :: right.chars
  | .aliasQualified left name => left.toList ++ ':' :: ':' :: name.chars
  | .nullable element => element.chars ++ ['?']
  | .array element ranks => element.chars ++ ranks.flatMap rankChars
  | .other text => text.toList

def charsOfArgs : List TypeSyntax → List Char
  | [] => []
  | [t] => t.chars
  | t :: ts => t.chars ++ ',' :: charsOfArgs ts
end

end TypeSyntax

/-! ## White space -/

section Words

variable {name : String} {c : Char}

/-- Two texts that go up to the first `c`. -/
theorem split_first {u u' r r' : List Char} (hu : c ∉ u) (hu' : c ∉ u')
    (h : u ++ c :: r = u' ++ c :: r') : u = u' ∧ r = r' := by
  have hclosed : ∀ {u : List Char}, c ∉ u → Closed (fun _ => 0) (fun a => a = c) u := by
    intro u hu
    refine .of_forall (fun _ _ => rfl) fun a ha hac => ?_
    rw [hac] at ha
    exact hu ha
  obtain ⟨rfl, hr⟩ := split_left (hclosed hu) (hclosed hu') (by simp) (by simp) h
  exact ⟨rfl, (List.cons.inj hr).2⟩

theorem isNameChar_iff : isNameChar c = true ↔
    c ∉ ['<', '>', '(', ')', '[', ']', ',', '.', ':', '?', ';'] ∧ c.isWhitespace = false := by
  simp [isNameChar]

theorem predefined_isWord (h : name ∈ predefinedTypes) : IsWord name := by
  revert name
  decide

theorem IsWord.weight (h : IsWord name) : ∀ c ∈ name.toList, bracketWeight c = 0 := by
  intro c hc
  have hchar := (isNameChar_iff.mp (h.2 c hc)).1
  simp only [List.mem_cons, not_or] at hchar
  simp [bracketWeight, hchar]

theorem IsWord.not_separator (h : IsWord name) : ∀ c ∈ name.toList, ¬ IsNameSeparator c := by
  intro c hc hsep
  have hchar := (isNameChar_iff.mp (h.2 c hc)).1
  rcases hsep with rfl | rfl | rfl <;> exact hchar (by decide)

theorem IsWord.filter (h : IsWord name) :
    (name.toList.filter fun c => !c.isWhitespace) = name.toList := by
  rw [List.filter_eq_self]
  intro c hc
  rw [(isNameChar_iff.mp (h.2 c hc)).2]
  rfl

theorem IsClosedText.filter (h : IsClosedText name) :
    (name.toList.filter fun c => !c.isWhitespace) = name.toList := by
  rw [List.filter_eq_self]
  intro c hc
  rw [h.noSpace c hc]
  rfl

theorem IsWord.notMem (h : IsWord name) (hc : isNameChar c = false) : c ∉ name.toList := by
  intro hmem
  rw [h.2 c hmem] at hc
  cases hc

theorem filter_ranksText (ranks : List Nat) :
    ((ranksText ranks).toList.filter fun c => !c.isWhitespace) =
      ranks.flatMap TypeSyntax.rankChars := by
  induction ranks with
  | nil => rfl
  | cons commas ranks ih =>
    rw [ranksText, List.flatMap_cons, ← ih]
    simp [TypeSyntax.rankChars]

end Words

namespace TypeSyntax

mutual
theorem filter_text (t : TypeSyntax) (h : t.Written) :
    (t.text.toList.filter fun c => !c.isWhitespace) = t.chars := by
  match t with
  | .predefined name => exact (predefined_isWord h).filter
  | .identifier name => exact h.1.filter
  | .generic name args =>
    obtain ⟨hname, -, hargs⟩ := h
    simp [text, chars, hname.filter, filter_textOfArgs args hargs]
  | .qualified left right =>
    obtain ⟨hleft, -, hright⟩ := h
    simp [text, chars, hleft.filter, filter_text right hright]
  | .aliasQualified left name =>
    obtain ⟨hleft, -, hname⟩ := h
    simp [text, chars, hleft.filter, filter_text name hname]
  | .nullable element =>
    simp [text, chars, filter_text element h]
  | .array element ranks =>
    simp [text, chars, filter_text element h.1, filter_ranksText]
  | .other text => exact h.1.filter

theorem filter_textOfArgs (args : List TypeSyntax) (h : WrittenArgs args) :
    ((textOfArgs args).toList.filter fun c => !c.isWhitespace) = charsOfArgs args := by
  match args with
  | [] => rfl
  | [t] => exact filter_text t h.1
  | t :: u :: ts =>
    have hrest := filter_textOfArgs (u :: ts) h.2
    simp [textOfArgs, charsOfArgs, filter_text t h.1] at hrest ⊢
    exact hrest
end

theorem closed_single {c : Char} {sep : Char → Prop} (hweight : bracketWeight c = 0)
    (hsep : ¬ sep c) : Closed bracketWeight sep [c] :=
  .of_forall (by simpa using hweight) (by simpa using hsep)

theorem not_isComma_of_word {name : String} (h : IsWord name) :
    ∀ c ∈ name.toList, ¬ IsComma c := fun c hc hcomma =>
  h.not_separator c hc (Or.inl hcomma)

theorem closed_rankChars (commas : Nat) :
    Closed bracketWeight IsComma (rankChars commas) := by
  apply Closed.enclose
  · decide
  · decide
  · simp [IsComma]
  · simp [IsComma]
  · apply Balanced.of_forall
    intro c hc
    rw [List.eq_of_mem_replicate hc]
    decide

theorem closed_ranks (ranks : List Nat) :
    Closed bracketWeight IsComma (ranks.flatMap rankChars) := by
  induction ranks with
  | nil => exact .of_forall (by simp) (by simp)
  | cons commas ranks ih =>
    rw [List.flatMap_cons]
    exact (closed_rankChars commas).append ih

mutual
theorem closed_chars (t : TypeSyntax) (h : t.Written) :
    Closed bracketWeight IsComma t.chars := by
  match t with
  | .predefined name =>
    exact .of_forall (predefined_isWord h).weight (not_isComma_of_word (predefined_isWord h))
  | .identifier name => exact .of_forall h.1.weight (not_isComma_of_word h.1)
  | .generic name args =>
    have hargs := balanced_args args h.2.2
    have hname : Closed bracketWeight IsComma name.toList :=
      .of_forall h.1.weight (not_isComma_of_word h.1)
    apply hname.append
    exact Closed.enclose (by decide) (by decide) (by simp [IsComma]) (by simp [IsComma]) hargs
  | .qualified left right =>
    have hdot : Closed bracketWeight IsComma ['.'] := closed_single (by decide) (by simp [IsComma])
    exact h.1.closed.append (hdot.append (closed_chars right h.2.2))
  | .aliasQualified left name =>
    have hleft : Closed bracketWeight IsComma left.toList :=
      .of_forall h.1.weight (not_isComma_of_word h.1)
    have hcolon : Closed bracketWeight IsComma [':'] :=
      closed_single (by decide) (by simp [IsComma])
    exact hleft.append (hcolon.append (hcolon.append (closed_chars name h.2.2)))
  | .nullable element =>
    have hmark : Closed bracketWeight IsComma ['?'] :=
      closed_single (by decide) (by simp [IsComma])
    exact (closed_chars element h).append hmark
  | .array element ranks => exact (closed_chars element h.1).append (closed_ranks ranks)
  | .other text => exact h.1.closed

theorem balanced_args (args : List TypeSyntax) (h : WrittenArgs args) :
    Balanced bracketWeight (charsOfArgs args) := by
  match args with
  | [] => exact .nil
  | [t] => exact (closed_chars t h.1).balanced
  | t :: u :: ts =>
    have hcomma : Balanced bracketWeight [','] := .single (by decide)
    exact (closed_chars t h.1).balanced.append (hcomma.append (balanced_args (u :: ts) h.2))
end

/-- The last part of a name has its separators between brackets. -/
theorem closed_simple {t : TypeSyntax} (h : t.Written) (hsimple : t.isSimple = true) :
    Closed bracketWeight IsNameSeparator t.chars := by
  cases t with
  | identifier name => exact .of_forall h.1.weight h.1.not_separator
  | generic name args =>
    have hname : Closed bracketWeight IsNameSeparator name.toList :=
      .of_forall h.1.weight h.1.not_separator
    apply hname.append
    apply Closed.enclose
    · decide
    · decide
    · simp [IsNameSeparator]
    · simp [IsNameSeparator]
    · exact balanced_args args h.2.2
  | _ => cases hsimple

/-! ## Names and what precedes them -/

/-- What stands before the last part of a name. -/
def qualifier : TypeSyntax → List Char
  | .qualified left _ => left.toList ++ ['.']
  | .aliasQualified left _ => left.toList ++ [':', ':']
  | _ => []

/-- The last part of a name. -/
def lastPart : TypeSyntax → TypeSyntax
  | .qualified _ right => right
  | .aliasQualified _ name => name
  | t => t

theorem chars_eq (t : TypeSyntax) : t.chars = t.qualifier ++ t.lastPart.chars := by
  cases t <;> simp [chars, qualifier, lastPart]

/-! ## The end of a text -/

/-- The letter by which the parser knows what ends here; none behind a name. -/
def ending : TypeSyntax → Option Char
  | .predefined _ => none
  | .identifier _ => none
  | .generic _ _ => some '>'
  | .qualified _ right => right.ending
  | .aliasQualified _ name => name.ending
  | .nullable _ => some '?'
  | .array _ _ => some ']'
  | .other _ => some ')'

/-- The letter, or one of a name. -/
def EndsIn (end_ : Option Char) (u : List Char) : Prop :=
  match end_ with
  | some c => u.getLast? = some c
  | none => ∃ c, u.getLast? = some c ∧ isNameChar c = true

theorem EndsIn.append {end_ : Option Char} {u : List Char} (h : EndsIn end_ u) (l : List Char) :
    EndsIn end_ (l ++ u) := by
  have hlast : ∀ c, u.getLast? = some c → (l ++ u).getLast? = some c := by
    intro c hc
    rw [List.getLast?_append, hc]
    rfl
  cases end_ with
  | some c => exact hlast c h
  | none =>
    obtain ⟨c, hc, hchar⟩ := h
    exact ⟨c, hlast c hc, hchar⟩

theorem endsIn_word {name : String} (h : IsWord name) : EndsIn none name.toList := by
  have hne : name.toList ≠ [] := by
    intro hnil
    exact h.1 (String.toList_inj.mp hnil)
  exact ⟨name.toList.getLast hne, List.getLast?_eq_some_getLast hne,
    h.2 _ (List.getLast_mem hne)⟩

theorem endsIn_ranks {ranks : List Nat} (h : ranks ≠ []) :
    EndsIn (some ']') (ranks.flatMap rankChars) := by
  obtain ⟨ranks, commas, rfl⟩ := List.eq_nil_or_concat ranks |>.resolve_left h
  rw [List.concat_eq_append, List.flatMap_append, List.flatMap_singleton]
  apply EndsIn.append
  rw [EndsIn, rankChars, ← List.cons_append]
  exact List.getLast?_concat

theorem endsIn_ending {t : TypeSyntax} (h : t.Written) : EndsIn t.ending t.chars := by
  match t with
  | .predefined name => exact endsIn_word (predefined_isWord h)
  | .identifier name => exact endsIn_word h.1
  | .generic name args =>
    have hlast : EndsIn (some '>') (charsOfArgs args ++ ['>']) := List.getLast?_concat
    exact (hlast.append ['<']).append name.toList
  | .qualified left right =>
    exact ((endsIn_ending h.2.2).append ['.']).append left.toList
  | .aliasQualified left name =>
    exact ((endsIn_ending h.2.2).append [':', ':']).append left.toList
  | .nullable element => exact List.getLast?_concat
  | .array element ranks => exact (endsIn_ranks h.2.2).append element.chars
  | .other text => exact h.2

theorem ending_not_nameChar (t : TypeSyntax) : ∀ c ∈ t.ending, isNameChar c = false := by
  match t with
  | .predefined _ | .identifier _ => simp [ending]
  | .qualified _ right => exact ending_not_nameChar right
  | .aliasQualified _ name => exact ending_not_nameChar name
  | .generic _ _ | .nullable _ | .array _ _ | .other _ =>
    intro c hc
    obtain rfl := Option.some.inj hc
    decide

theorem ending_eq {t u : TypeSyntax} (ht : t.Written) (hu : u.Written)
    (h : t.chars = u.chars) : t.ending = u.ending := by
  have hends := endsIn_ending ht
  have hends' := endsIn_ending hu
  rw [h] at hends
  cases hc : t.ending with
  | some c =>
    rw [hc] at hends
    cases hd : u.ending with
    | some d =>
      rw [hd] at hends'
      exact hends.symm.trans hends'
    | none =>
      rw [hd] at hends'
      obtain ⟨d, hlast, hchar⟩ := hends'
      obtain rfl := Option.some.inj (hends.symm.trans hlast)
      rw [ending_not_nameChar t c hc] at hchar
      cases hchar
  | none =>
    rw [hc] at hends
    obtain ⟨c, hlast, hchar⟩ := hends
    cases hd : u.ending with
    | none => rfl
    | some d =>
      rw [hd] at hends'
      obtain rfl := Option.some.inj (hends'.symm.trans hlast)
      rw [ending_not_nameChar u d hd] at hchar
      cases hchar

theorem chars_ne_nil {t : TypeSyntax} (h : t.Written) : t.chars ≠ [] := by
  intro hnil
  have hends := endsIn_ending h
  rw [hnil] at hends
  cases hc : t.ending with
  | some c =>
    rw [hc] at hends
    cases hends
  | none =>
    rw [hc] at hends
    obtain ⟨c, hlast, -⟩ := hends
    cases hlast

/-! ## Reading a text back -/

theorem commas_inj {l l' : List Char} {n m : Nat}
    (h : l ++ '[' :: List.replicate n ',' = l' ++ '[' :: List.replicate m ',') :
    l = l' ∧ n = m := by
  have hsucc : ∀ (l : List Char) (n : Nat), l ++ '[' :: List.replicate (n + 1) ',' =
      (l ++ '[' :: List.replicate n ',') ++ [','] := by
    intro l n
    rw [List.replicate_succ', List.append_assoc, List.cons_append]
  have hlast : ∀ (l l' : List Char), l ++ ['['] ≠ l' ++ [','] := by
    intro l l' heq
    have hchar := congrArg List.getLast? heq
    rw [List.getLast?_concat, List.getLast?_concat] at hchar
    exact absurd hchar (by decide)
  induction n generalizing m with
  | zero =>
    cases m with
    | zero => exact ⟨List.append_cancel_right h, rfl⟩
    | succ m =>
      rw [hsucc] at h
      exact absurd h (hlast _ _)
  | succ n ih =>
    cases m with
    | zero =>
      rw [hsucc] at h
      exact absurd h.symm (hlast _ _)
    | succ m =>
      rw [hsucc, hsucc] at h
      obtain ⟨hl, hnm⟩ := ih (List.append_cancel_right h)
      exact ⟨hl, congrArg Nat.succ hnm⟩

theorem ranks_inj {u v : List Char} {ranks ranks' : List Nat} (hu : u.getLast? ≠ some ']')
    (hv : v.getLast? ≠ some ']')
    (h : u ++ ranks.flatMap rankChars = v ++ ranks'.flatMap rankChars) :
    u = v ∧ ranks = ranks' := by
  have hconcat : ∀ (u : List Char) (ranks : List Nat) (n : Nat),
      u ++ (ranks ++ [n]).flatMap rankChars =
        ((u ++ ranks.flatMap rankChars) ++ '[' :: List.replicate n ',') ++ [']'] := by
    intro u ranks n
    simp [rankChars]
  induction ranks using List.reverseRecOn generalizing ranks' with
  | nil =>
    rcases List.eq_nil_or_concat ranks' with rfl | ⟨rs, m, rfl⟩
    · exact ⟨by simpa using h, rfl⟩
    · rw [List.concat_eq_append, hconcat, List.flatMap_nil, List.append_nil] at h
      exact absurd (by rw [h, List.getLast?_concat]) hu
  | append_singleton rs n ih =>
    rcases List.eq_nil_or_concat ranks' with rfl | ⟨rs', m, rfl⟩
    · rw [hconcat, List.flatMap_nil, List.append_nil] at h
      exact absurd (by rw [← h, List.getLast?_concat]) hv
    · rw [List.concat_eq_append, hconcat, hconcat] at h
      obtain ⟨hfront, rfl⟩ := commas_inj (List.append_cancel_right h)
      obtain ⟨rfl, rfl⟩ := ih hfront
      exact ⟨rfl, List.concat_eq_append.symm⟩

/-- A name, with or without arguments. -/
def isNamed : TypeSyntax → Bool
  | .nullable _ => false
  | .array _ _ => false
  | .other _ => false
  | _ => true

theorem ending_simple {t : TypeSyntax} (h : t.isSimple = true) :
    t.ending = none ∨ t.ending = some '>' := by
  cases t with
  | identifier name => exact Or.inl rfl
  | generic name args => exact Or.inr rfl
  | _ => cases h

theorem ending_named {t : TypeSyntax} (h : t.Written) :
    t.isNamed = true ↔ t.ending = none ∨ t.ending = some '>' := by
  cases t with
  | qualified left right =>
    have hright := ending_simple h.2.1
    exact iff_of_true rfl hright
  | aliasQualified left name =>
    have hname := ending_simple h.2.1
    exact iff_of_true rfl hname
  | _ => simp [isNamed, ending]

theorem isNamed_eq {t u : TypeSyntax} (ht : t.Written) (hu : u.Written)
    (h : t.chars = u.chars) : t.isNamed = u.isNamed := by
  rw [Bool.eq_iff_iff, ending_named ht, ending_named hu, ending_eq ht hu h]

theorem getLast_not_array {t : TypeSyntax} (h : t.Written) (harray : t.isArray = false) :
    t.chars.getLast? ≠ some ']' := by
  intro hlast
  have hends := endsIn_ending h
  cases hc : t.ending with
  | none =>
    rw [hc] at hends
    obtain ⟨c, hc, hchar⟩ := hends
    rw [hlast] at hc
    obtain rfl := Option.some.inj hc
    exact absurd hchar (by decide)
  | some c =>
    rw [hc] at hends
    obtain rfl := Option.some.inj (hends.symm.trans hlast)
    have hnamed : t.isNamed = false := by
      rw [Bool.eq_false_iff, ne_eq, ending_named h, hc]
      simp
    cases t with
    | array element ranks => cases harray
    | nullable element => simp [ending] at hc
    | other text => simp [ending] at hc
    | _ => cases hnamed

theorem closed_lastPart {t : TypeSyntax} (h : t.Written) (hnamed : t.isNamed = true) :
    Closed bracketWeight IsNameSeparator t.lastPart.chars := by
  cases t with
  | predefined name =>
    exact .of_forall (predefined_isWord h).weight (predefined_isWord h).not_separator
  | identifier name => exact closed_simple h rfl
  | generic name args => exact closed_simple h rfl
  | qualified left right => exact closed_simple h.2.2 h.2.1
  | aliasQualified left name => exact closed_simple h.2.2 h.2.1
  | _ => cases hnamed

theorem getLast_qualifier (t : TypeSyntax) :
    ∀ c ∈ t.qualifier.getLast?, IsNameSeparator c ∧ bracketWeight c = 0 := by
  intro c hc
  cases t with
  | qualified left right =>
    rw [qualifier, List.getLast?_concat] at hc
    obtain rfl := Option.some.inj hc
    exact ⟨Or.inr (Or.inl rfl), by decide⟩
  | aliasQualified left name =>
    have hend : left.toList ++ [':', ':'] = (left.toList ++ [':']) ++ [':'] := by simp
    rw [qualifier, hend, List.getLast?_concat] at hc
    obtain rfl := Option.some.inj hc
    exact ⟨Or.inr (Or.inr rfl), by decide⟩
  | _ => cases hc

/-- One text has one last part. -/
theorem lastPart_chars {t u : TypeSyntax} (ht : t.Written) (hu : u.Written)
    (htn : t.isNamed = true) (hun : u.isNamed = true) (h : t.chars = u.chars) :
    t.qualifier = u.qualifier ∧ t.lastPart.chars = u.lastPart.chars := by
  rw [chars_eq t, chars_eq u] at h
  exact split_right (closed_lastPart ht htn) (closed_lastPart hu hun) (getLast_qualifier t)
    (getLast_qualifier u) h

theorem charsOfArgs_cons (t : TypeSyntax) (ts : List TypeSyntax) :
    charsOfArgs (t :: ts) = t.chars ++ if ts = [] then [] else ',' :: charsOfArgs ts := by
  cases ts with
  | nil => simp [charsOfArgs]
  | cons u ts =>
    rw [if_neg (List.cons_ne_nil u ts), charsOfArgs]
    exact List.cons_ne_nil u ts

/-- The name of a generic type ends at the first bracket. -/
theorem generic_inj {name name' : String} {u v : List Char} (hname : IsWord name)
    (hname' : IsWord name')
    (h : name.toList ++ '<' :: (u ++ ['>']) = name'.toList ++ '<' :: (v ++ ['>'])) :
    name = name' ∧ u = v := by
  obtain ⟨hnames, hrest⟩ := split_first (hname.notMem (by decide)) (hname'.notMem (by decide)) h
  exact ⟨String.toList_inj.mp hnames, List.append_cancel_right hrest⟩

theorem dot_ne_colons (l l' : List Char) : l ++ ['.'] ≠ l' ++ [':', ':'] := by
  intro h
  have hchar := congrArg List.getLast? h
  have hend : l' ++ [':', ':'] = (l' ++ [':']) ++ [':'] := by simp
  rw [hend, List.getLast?_concat, List.getLast?_concat] at hchar
  exact absurd hchar (by decide)

mutual
/-- Two types with one text are equal. -/
theorem chars_inj (t u : TypeSyntax) (ht : t.Written) (hu : u.Written)
    (h : t.chars = u.chars) : t = u := by
  have hend := ending_eq ht hu h
  have hnamed := isNamed_eq ht hu h
  match t with
  | .nullable element =>
    cases u with
    | nullable element' => rw [chars_inj element element' ht hu (List.append_cancel_right h)]
    | array _ _ | other _ => simp [ending] at hend
    | _ => cases hnamed
  | .array element ranks =>
    cases u with
    | array element' ranks' =>
      obtain ⟨hchars, rfl⟩ := ranks_inj (getLast_not_array ht.1 ht.2.1)
        (getLast_not_array hu.1 hu.2.1) h
      rw [chars_inj element element' ht.1 hu.1 hchars]
    | nullable _ | other _ => simp [ending] at hend
    | _ => cases hnamed
  | .other text =>
    cases u with
    | other text' => rw [String.toList_inj.mp h]
    | nullable _ | array _ _ => simp [ending] at hend
    | _ => cases hnamed
  | .qualified left right =>
    obtain ⟨hqualifier, hlast⟩ := lastPart_chars ht hu rfl hnamed.symm h
    cases u with
    | qualified left' right' =>
      have hleft := String.toList_inj.mp (List.append_cancel_right hqualifier)
      rw [hleft, chars_inj right right' ht.2.2 hu.2.2 hlast]
    | aliasQualified left' name => exact absurd hqualifier (dot_ne_colons _ _)
    | _ => simp [qualifier] at hqualifier
  | .aliasQualified left name =>
    obtain ⟨hqualifier, hlast⟩ := lastPart_chars ht hu rfl hnamed.symm h
    cases u with
    | aliasQualified left' name' =>
      have hleft := String.toList_inj.mp (List.append_cancel_right hqualifier)
      rw [hleft, chars_inj name name' ht.2.2 hu.2.2 hlast]
    | qualified left' right => exact absurd hqualifier.symm (dot_ne_colons _ _)
    | _ => simp [qualifier] at hqualifier
  | .generic name args =>
    have hqualifier := (lastPart_chars ht hu rfl hnamed.symm h).1
    cases u with
    | generic name' args' =>
      obtain ⟨rfl, hargs⟩ := generic_inj ht.1 hu.1 h
      rw [args_inj args args' ht.2.2 hu.2.2 hargs]
    | qualified _ _ | aliasQualified _ _ => simp [qualifier] at hqualifier
    | predefined _ | identifier _ => simp [ending] at hend
    | _ => cases hnamed
  | .predefined name =>
    have hqualifier := (lastPart_chars ht hu rfl hnamed.symm h).1
    cases u with
    | predefined name' => rw [String.toList_inj.mp h]
    | identifier name' => exact absurd (String.toList_inj.mp h ▸ ht) hu.2
    | qualified _ _ | aliasQualified _ _ => simp [qualifier] at hqualifier
    | generic _ _ => simp [ending] at hend
    | _ => cases hnamed
  | .identifier name =>
    have hqualifier := (lastPart_chars ht hu rfl hnamed.symm h).1
    cases u with
    | identifier name' => rw [String.toList_inj.mp h]
    | predefined name' => exact absurd (String.toList_inj.mp h ▸ hu) ht.2
    | qualified _ _ | aliasQualified _ _ => simp [qualifier] at hqualifier
    | generic _ _ => simp [ending] at hend
    | _ => cases hnamed

theorem args_inj (ts us : List TypeSyntax) (ht : WrittenArgs ts) (hu : WrittenArgs us)
    (h : charsOfArgs ts = charsOfArgs us) : ts = us := by
  match ts, us with
  | [], [] => rfl
  | [], u :: us =>
    rw [charsOfArgs_cons] at h
    exact absurd (List.append_eq_nil_iff.mp h.symm).1 (chars_ne_nil hu.1)
  | t :: ts, [] =>
    rw [charsOfArgs_cons] at h
    exact absurd (List.append_eq_nil_iff.mp h).1 (chars_ne_nil ht.1)
  | t :: ts, u :: us =>
    have hhead : ∀ ts : List TypeSyntax,
        ∀ c ∈ (if ts = [] then [] else ',' :: charsOfArgs ts).head?, IsComma c := by
      intro ts c hc
      by_cases hnil : ts = []
      · rw [if_pos hnil] at hc
        cases hc
      · rw [if_neg hnil] at hc
        exact (Option.some.inj hc).symm
    rw [charsOfArgs_cons, charsOfArgs_cons] at h
    obtain ⟨hfirst, hrest⟩ := split_left (closed_chars t ht.1) (closed_chars u hu.1) (hhead ts)
      (hhead us) h
    rw [chars_inj t u ht.1 hu.1 hfirst]
    by_cases hnil : ts = []
    · by_cases hnil' : us = []
      · rw [hnil, hnil']
      · rw [if_pos hnil, if_neg hnil'] at hrest
        cases hrest
    · by_cases hnil' : us = []
      · rw [if_neg hnil, if_pos hnil'] at hrest
        cases hrest
      · rw [if_neg hnil, if_neg hnil'] at hrest
        rw [args_inj ts us ht.2 hu.2 (List.cons.inj hrest).2]
end

mutual
theorem semicolon_notMem (t : TypeSyntax) (h : t.Written) : ';' ∉ t.chars := by
  match t with
  | .predefined name => exact (predefined_isWord h).notMem (by decide)
  | .identifier name => exact h.1.notMem (by decide)
  | .generic name args =>
    simp [chars, h.1.notMem (show isNameChar ';' = false by decide),
      semicolon_notMem_args args h.2.2]
  | .qualified left right =>
    simp [chars, h.1.noSemicolon, semicolon_notMem right h.2.2]
  | .aliasQualified left name =>
    simp [chars, h.1.notMem (show isNameChar ';' = false by decide), semicolon_notMem name h.2.2]
  | .nullable element =>
    simp [chars, semicolon_notMem element h]
  | .array element ranks =>
    simp [chars, semicolon_notMem element h.1, rankChars]
  | .other text => exact h.1.noSemicolon

theorem semicolon_notMem_args (args : List TypeSyntax) (h : WrittenArgs args) :
    ';' ∉ charsOfArgs args := by
  match args with
  | [] => simp [charsOfArgs]
  | [t] => exact semicolon_notMem t h.1
  | t :: u :: ts =>
    have hrest := semicolon_notMem_args (u :: ts) h.2
    simp [charsOfArgs, semicolon_notMem t h.1] at hrest ⊢
    exact hrest
end

end TypeSyntax

/-! ## The canonical text -/

namespace SchemaHash

end SchemaHash

end MemoryPack.Cs2Cpp
