import MemoryPack.Cs2Cpp.CppGenerator
import Mathlib.Data.List.Pairwise
import Mathlib.Data.List.TakeWhile

/-!
# The names of the data members of a generated struct

Three functions on names meet in one struct: `PascalToCamel` lowers the first word of a
C# name, `Escape` moves it away from the keywords, and `DeriveCountName` makes a count
from a plural. Each is described here by what it undoes: the ways to write one camelCase
name, the ways to form the plural of one noun. Two members share a name exactly when
they are two such ways to write the same thing, and nothing in the generator looks for
that. (The constants of the C arrays, which can repeat too, it does compare.)

Which characters are capitals and what their lower case is comes from a table, since C#
identifiers are not confined to ASCII.
-/

namespace MemoryPack.Cs2Cpp

/-! ## Names of members -/

/-- `char.IsUpper` and `char.ToLowerInvariant`. Neither changes the halves of a surrogate
pair, so a character outside the first plane is no capital. -/
structure CaseTable where
  isUpper : Char → Bool
  toLower : Char → Char

namespace CaseTable

/-- The table on ASCII names. -/
def ascii : CaseTable := ⟨Char.isUpper, Char.toLower⟩

variable (T : CaseTable)

/-- `PascalToCamel`. -/
def pascalToCamel : List Char → List Char
  | c₀ :: c₁ :: cs =>
      if T.isUpper c₀ && T.isUpper c₁ then
        let name := c₀ :: c₁ :: cs
        let i := (name.takeWhile T.isUpper).length
        if i = name.length then name.map T.toLower
        else (name.take (i - 1)).map T.toLower ++ name.drop (i - 1)
      else T.toLower c₀ :: c₁ :: cs
  | [c] => [T.toLower c]
  | [] => []

/-- `CppName` of a member. -/
def cppName (csName : String) : String :=
  escape (String.ofList (T.pascalToCamel csName.toList))

end CaseTable

theorem cppName_ascii : CaseTable.ascii.cppName = cppName := rfl

/-- A member as `Parse` puts it into a type. -/
def memberDefOf (T : CaseTable) (M : TypeMapper) (raw : RawMember) : MemberDef :=
  { Collected.memberDef M raw with cppName := T.cppName raw.csName }

theorem memberDefOf_ascii : memberDefOf CaseTable.ascii = Collected.memberDef := rfl

/-- The variables a line declares. -/
def CppField.names : CppField → List String
  | .plain _ name _ => [name]
  | .fixedArray _ name _ countName => [name, countName]

/-- The data members of a struct; its constants are static. -/
def CppDeclaration.dataMembers : CppDeclaration → List String
  | .struct _ _ _ fields => fields.flatMap CppField.names
  | .unionAlias _ _ => []

def RawMember.isFixedArray (m : RawMember) : Bool :=
  match m.annot with
  | some (.fixedArray _ _) => true
  | _ => false

/-- The variables a member becomes. -/
def RawMember.variables (T : CaseTable) (m : RawMember) : List String :=
  if m.isFixedArray then [T.cppName m.csName, deriveCountName (T.cppName m.csName)]
  else [T.cppName m.csName]

theorem names_emitMember (T : CaseTable) (M : TypeMapper) (m : RawMember) :
    (emitMember (memberDefOf T M m)).names = m.variables T := by
  rw [emitMember, RawMember.variables, RawMember.isFixedArray]
  show CppField.names (match m.annot with | some (.fixedArray _ constName) => _ | _ => _) = _
  cases m.annot with
  | none => rfl
  | some annot => cases annot <;> rfl

/-! ## The ways to write a camelCase name -/

/-- The C# name `n` is a way to write the camelCase name `c`. -/
inductive Writes (T : CaseTable) : List Char → List Char → Prop where
  | empty : Writes T [] []
  /-- the first letter alone: `Foo` and `foo` write `foo` -/
  | first (c : Char) (cs : List Char)
      (h : T.isUpper c = false ∨ ∀ c' ∈ cs.head?, T.isUpper c' = false) :
      Writes T (c :: cs) (T.toLower c :: cs)
  /-- a first word in capitals: `HTTPClient` writes `httpClient` -/
  | acronym (w : List Char) (u v : Char) (rest : List Char) (hne : w ≠ [])
      (hw : ∀ c ∈ w, T.isUpper c = true) (hu : T.isUpper u = true) (hv : T.isUpper v = false) :
      Writes T (w ++ u :: v :: rest) (w.map T.toLower ++ u :: v :: rest)
  /-- nothing but capitals: `ID` writes `id` -/
  | capitals (w : List Char) (hlen : 2 ≤ w.length) (hw : ∀ c ∈ w, T.isUpper c = true) :
      Writes T w (w.map T.toLower)

section Writes

variable {T : CaseTable}

/-- `PascalToCamel` of a name that begins with two capitals. -/
theorem pascalToCamel_capitals {n : List Char} (hlen : 2 ≤ n.length)
    (h : 2 ≤ (n.takeWhile T.isUpper).length) : T.pascalToCamel n =
      if (n.takeWhile T.isUpper).length = n.length then n.map T.toLower
      else (n.take ((n.takeWhile T.isUpper).length - 1)).map T.toLower ++
        n.drop ((n.takeWhile T.isUpper).length - 1) := by
  match n, hlen with
  | c₀ :: c₁ :: cs, _ =>
      have h₀ : T.isUpper c₀ = true := by
        by_contra hne
        rw [List.takeWhile_cons_of_neg hne] at h
        exact absurd h (by simp)
      have h₁ : T.isUpper c₁ = true := by
        by_contra hne
        rw [List.takeWhile_cons_of_pos h₀, List.takeWhile_cons_of_neg hne] at h
        exact absurd h (by simp)
      rw [CaseTable.pascalToCamel, h₀, h₁]
      rfl

theorem pascalToCamel_first {c : Char} {cs : List Char}
    (h : T.isUpper c = false ∨ ∀ c' ∈ cs.head?, T.isUpper c' = false) :
    T.pascalToCamel (c :: cs) = T.toLower c :: cs := by
  cases cs with
  | nil => rfl
  | cons c' cs =>
      have hcond : (T.isUpper c && T.isUpper c') = false := by
        rcases h with h | h
        · rw [h, Bool.false_and]
        · rw [h c' rfl, Bool.and_false]
      rw [CaseTable.pascalToCamel, hcond]
      rfl

theorem Writes.eq {n c : List Char} (h : Writes T n c) : T.pascalToCamel n = c := by
  cases h with
  | empty => rfl
  | first c cs h => exact pascalToCamel_first h
  | acronym w u v rest hne hw hu hv =>
      have hrun : (w ++ u :: v :: rest).takeWhile T.isUpper = w ++ [u] := by
        rw [List.takeWhile_append_of_pos hw, List.takeWhile_cons_of_pos hu,
          List.takeWhile_cons_of_neg (by simp [hv])]
      have hpos : 0 < w.length := List.length_pos_iff.mpr hne
      have hlen : 2 ≤ (w ++ u :: v :: rest).length := by
        rw [List.length_append, List.length_cons, List.length_cons]
        omega
      have hrunlen : 2 ≤ (w ++ [u]).length := by
        rw [List.length_append, List.length_singleton]
        omega
      rw [pascalToCamel_capitals hlen (by rw [hrun]; exact hrunlen), hrun, if_neg (by simp)]
      simp
  | capitals _ hlen hw =>
      have hrun : n.takeWhile T.isUpper = n := List.takeWhile_eq_self_iff.mpr hw
      rw [pascalToCamel_capitals hlen (by rw [hrun]; exact hlen), hrun, if_pos rfl]

/-- A run of at least two capitals is a word and the capital after it. -/
theorem exists_word {run : List Char} (h : 2 ≤ run.length) :
    ∃ w u, w ≠ [] ∧ run = w ++ [u] := by
  have hne : run ≠ [] := by
    rintro rfl
    exact absurd h (by decide)
  refine ⟨run.dropLast, run.getLast hne, ?_, (List.dropLast_append_getLast hne).symm⟩
  intro hnil
  have hlen := congrArg List.length hnil
  rw [List.length_dropLast, List.length_nil] at hlen
  omega

theorem two_capitals_or_first (c : Char) (cs : List Char) :
    2 ≤ ((c :: cs).takeWhile T.isUpper).length ∨
      (T.isUpper c = false ∨ ∀ c' ∈ cs.head?, T.isUpper c' = false) := by
  cases cs with
  | nil => exact Or.inr (Or.inr (by simp))
  | cons c' cs =>
      cases hc : T.isUpper c with
      | false => exact Or.inr (Or.inl rfl)
      | true =>
          cases hc' : T.isUpper c' with
          | false => exact Or.inr (Or.inr (by simp [hc']))
          | true =>
              left
              rw [List.takeWhile_cons_of_pos hc, List.takeWhile_cons_of_pos hc',
                List.length_cons, List.length_cons]
              omega

/-- Every name is written in one of these ways. -/
theorem writes_pascalToCamel (n : List Char) : Writes T n (T.pascalToCamel n) := by
  by_cases hrun : 2 ≤ (n.takeWhile T.isUpper).length
  · have hupper : ∀ c ∈ n.takeWhile T.isUpper, T.isUpper c = true :=
      fun c hc => List.mem_takeWhile_imp hc
    have hsplit : n.takeWhile T.isUpper ++ n.dropWhile T.isUpper = n :=
      List.takeWhile_append_dropWhile
    cases hrest : n.dropWhile T.isUpper with
    | nil =>
        rw [hrest, List.append_nil] at hsplit
        rw [hsplit] at hrun hupper
        have hw := Writes.capitals n hrun hupper
        rw [hw.eq]
        exact hw
    | cons v rest =>
        have hv : T.isUpper v = false := by
          have hhead := List.head_dropWhile_not T.isUpper (l := n) (by simp [hrest])
          simpa [hrest] using hhead
        obtain ⟨w, u, hne, hwu⟩ := exists_word hrun
        rw [hwu] at hupper
        have hname : n = w ++ u :: v :: rest := by
          rw [← hsplit, hrest, hwu, List.append_assoc]
          rfl
        have hw := Writes.acronym w u v rest hne
          (fun c hc => hupper c (List.mem_append_left _ hc)) (hupper u (by simp)) hv
        rw [hname, hw.eq]
        exact hw
  · cases n with
    | nil => exact Writes.empty
    | cons c cs =>
        have hfirst := (two_capitals_or_first c cs).resolve_left hrun
        rw [pascalToCamel_first hfirst]
        exact Writes.first c cs hfirst

theorem writes_iff {n c : List Char} : Writes T n c ↔ T.pascalToCamel n = c := by
  constructor
  · exact Writes.eq
  · rintro rfl
    exact writes_pascalToCamel n

end Writes

/-! ## Keywords -/

/-- The C# name `n` becomes the C++ name `x`: a way to write `x`, or to write a keyword
that `x` is with an underscore. -/
def Named (T : CaseTable) (n x : String) : Prop :=
  ∃ c : String, Writes T n.toList c.toList ∧
    (c ∈ cppKeywords ∧ x = c ++ "_" ∨ c ∉ cppKeywords ∧ x = c)

theorem named_iff {T : CaseTable} {n x : String} : Named T n x ↔ T.cppName n = x := by
  constructor
  · rintro ⟨c, hw, hx⟩
    rw [CaseTable.cppName, hw.eq, String.ofList_toList, escape]
    rcases hx with ⟨hk, rfl⟩ | ⟨hk, rfl⟩
    · exact if_pos hk
    · exact if_neg hk
  · rintro rfl
    refine ⟨String.ofList (T.pascalToCamel n.toList), ?_, ?_⟩
    · rw [String.toList_ofList]
      exact writes_pascalToCamel n.toList
    · rw [CaseTable.cppName, escape]
      split
      · next hk => exact Or.inl ⟨hk, rfl⟩
      · next hk => exact Or.inr ⟨hk, rfl⟩

/-- No keyword ends in an underscore, so none is another with an underscore. -/
theorem keyword_ending : ∀ k ∈ cppKeywords, ¬ "_".toList <:+ k.toList := by
  decide +kernel

theorem keyword_underscore (k : String) : k ++ "_" ∉ cppKeywords := by
  intro hk
  apply keyword_ending _ hk
  rw [String.toList_append]
  exact List.suffix_append _ _

/-- No keyword ends the way the name of a count does. -/
theorem keyword_count : ∀ k ∈ cppKeywords, ¬ "Count".toList <:+ k.toList := by
  decide +kernel

/-- `Escape` confuses two names only if one is a keyword and the other is what it makes
of it. -/
theorem escape_eq_iff {c d : String} : escape c = escape d ↔
    c = d ∨ (c ∈ cppKeywords ∧ d = c ++ "_") ∨ (d ∈ cppKeywords ∧ c = d ++ "_") := by
  unfold escape
  by_cases hc : c ∈ cppKeywords
  · rw [if_pos hc]
    by_cases hd : d ∈ cppKeywords
    · rw [if_pos hd, String.append_left_inj]
      constructor
      · exact Or.inl
      · rintro (h | ⟨_, rfl⟩ | ⟨_, rfl⟩)
        · exact h
        · exact absurd hd (keyword_underscore _)
        · exact absurd hc (keyword_underscore _)
    · rw [if_neg hd]
      constructor
      · intro h
        exact Or.inr (Or.inl ⟨hc, h.symm⟩)
      · rintro (rfl | ⟨_, rfl⟩ | ⟨hd', _⟩)
        · exact absurd hc hd
        · rfl
        · exact absurd hd' hd
  · rw [if_neg hc]
    by_cases hd : d ∈ cppKeywords
    · rw [if_pos hd]
      constructor
      · intro h
        exact Or.inr (Or.inr ⟨hd, h⟩)
      · rintro (rfl | ⟨hc', _⟩ | ⟨_, rfl⟩)
        · exact absurd hd hc
        · exact absurd hc' hc
        · rfl
    · rw [if_neg hd]
      constructor
      · exact Or.inl
      · rintro (h | ⟨hc', _⟩ | ⟨hd', _⟩)
        · exact h
        · exact absurd hc' hc
        · exact absurd hd' hd

/-! ## Counts -/

/-- One of `ends` is at the end of `b`. -/
def EndsIn (b : String) (ends : List String) : Prop := ∃ e ∈ ends, e.toList <:+ b.toList

/-- `x` is a plural of `b` as `DeriveCountName` reads one, or `b` itself. -/
inductive CountStem : String → String → Prop where
  | ids (b : String) : CountStem (b ++ "Ids") b
  | ies (b : String) : CountStem (b ++ "ies") (b ++ "y")
  | es (b : String) (h : EndsIn b ["s", "x", "z"]) : CountStem (b ++ "es") b
  | s (b : String) (h : ¬ EndsIn b ["Id", "ie", "se", "xe", "ze"]) : CountStem (b ++ "s") b
  | singular (b : String) (h : ¬ EndsIn b ["s"]) : CountStem b b

section Suffixes

variable {e x b t : String}

theorem exists_of_suffix (h : e.toList <:+ x.toList) : ∃ b, x = b ++ e := by
  obtain ⟨l, hl⟩ := h
  refine ⟨String.ofList l, ?_⟩
  rw [← String.toList_inj, String.toList_append, String.toList_ofList]
  exact hl.symm

theorem suffix_append (b t : String) : t.toList <:+ (b ++ t).toList := by
  rw [String.toList_append]
  exact List.suffix_append _ _

/-- Two names that end alike are compared in front of their ending. -/
theorem append_suffix_append : (e ++ t).toList <:+ (b ++ t).toList ↔ e.toList <:+ b.toList := by
  rw [String.toList_append, String.toList_append]
  constructor
  · rintro ⟨l, hl⟩
    rw [← List.append_assoc] at hl
    exact ⟨l, List.append_cancel_right hl⟩
  · rintro ⟨l, hl⟩
    exact ⟨l, by rw [← List.append_assoc, hl]⟩

/-- Of two endings of one name the shorter is an ending of the other. -/
theorem suffix_of_suffix {e f : String} (he : e.toList <:+ x.toList) (hf : f.toList <:+ x.toList)
    (hlen : e.toList.length ≤ f.toList.length) : e.toList <:+ f.toList :=
  List.suffix_of_suffix_length_le he hf hlen

/-- `name[..^k]` of a name whose last `k` letters are `t`. -/
theorem dropLast_append (b t : String) :
    String.ofList ((b ++ t).toList.take ((b ++ t).toList.length - t.toList.length)) = b := by
  rw [String.toList_append, List.length_append, Nat.add_sub_cancel, List.take_left',
    String.ofList_toList]
  rfl

/-- The test `cppName.EndsWith(e)`. -/
theorem endsWith (h : e.toList <:+ x.toList) : e.toList.isSuffixOf x.toList = true :=
  List.isSuffixOf_iff_suffix.mpr h

theorem not_endsWith (h : ¬ e.toList <:+ x.toList) : ¬ e.toList.isSuffixOf x.toList = true := by
  rw [List.isSuffixOf_iff_suffix]
  exact h

end Suffixes

/-- A plural in `es` has one of three letters before it. -/
theorem endsIn_es {b : String} : EndsIn b ["s", "x", "z"] ↔
    ("ses".toList <:+ (b ++ "es").toList ∨ "xes".toList <:+ (b ++ "es").toList) ∨
      "zes".toList <:+ (b ++ "es").toList := by
  have hes : ∀ e : String, (e ++ "es").toList <:+ (b ++ "es").toList ↔ e.toList <:+ b.toList :=
    fun e => append_suffix_append
  rw [show "ses" = "s" ++ "es" by decide, show "xes" = "x" ++ "es" by decide,
    show "zes" = "z" ++ "es" by decide, hes, hes, hes]
  simp [EndsIn, or_assoc]

/-- The endings of a plural in `s` that are read otherwise. -/
theorem endsIn_s {b : String} : EndsIn b ["Id", "ie", "se", "xe", "ze"] ↔
    "Ids".toList <:+ (b ++ "s").toList ∨ "ies".toList <:+ (b ++ "s").toList ∨
      ("ses".toList <:+ (b ++ "s").toList ∨ "xes".toList <:+ (b ++ "s").toList) ∨
        "zes".toList <:+ (b ++ "s").toList := by
  have hs : ∀ e : String, (e ++ "s").toList <:+ (b ++ "s").toList ↔ e.toList <:+ b.toList :=
    fun e => append_suffix_append
  rw [show "Ids" = "Id" ++ "s" by decide, show "ies" = "ie" ++ "s" by decide,
    show "ses" = "se" ++ "s" by decide, show "xes" = "xe" ++ "s" by decide,
    show "zes" = "ze" ++ "s" by decide, hs, hs, hs, hs, hs]
  simp [EndsIn, or_assoc]

theorem CountStem.eq {x b : String} (h : CountStem x b) : deriveCountName x = b ++ "Count" := by
  rw [deriveCountName]
  dsimp only
  cases h with
  | ids b =>
      rw [if_pos (endsWith (suffix_append _ _))]
      exact congrArg (· ++ "Count") (dropLast_append b "Ids")
  | ies b =>
      have hies := suffix_append b "ies"
      have hids : ¬ "Ids".toList <:+ (b ++ "ies").toList := fun h =>
        absurd (suffix_of_suffix h hies (by decide)) (by decide)
      rw [if_neg (not_endsWith hids), if_pos (endsWith hies)]
      exact congrArg (· ++ "y" ++ "Count") (dropLast_append b "ies")
  | es _ h =>
      have hes := endsIn_es.mp h
      have hids : ¬ "Ids".toList <:+ (b ++ "es").toList := fun h =>
        absurd (suffix_of_suffix (suffix_append b "es") h (by decide)) (by decide)
      have hies : ¬ "ies".toList <:+ (b ++ "es").toList := by
        intro hi
        rcases hes with (h | h) | h
        · exact absurd (suffix_of_suffix hi h (by decide)) (by decide)
        · exact absurd (suffix_of_suffix hi h (by decide)) (by decide)
        · exact absurd (suffix_of_suffix hi h (by decide)) (by decide)
      rw [← List.isSuffixOf_iff_suffix, ← List.isSuffixOf_iff_suffix,
        ← List.isSuffixOf_iff_suffix, ← Bool.or_eq_true, ← Bool.or_eq_true] at hes
      rw [if_neg (not_endsWith hids), if_neg (not_endsWith hies), if_pos hes]
      exact congrArg (· ++ "Count") (dropLast_append b "es")
  | s _ h =>
      rw [endsIn_s, not_or, not_or] at h
      obtain ⟨hids, hies, hes⟩ := h
      rw [← List.isSuffixOf_iff_suffix, ← List.isSuffixOf_iff_suffix,
        ← List.isSuffixOf_iff_suffix, ← Bool.or_eq_true, ← Bool.or_eq_true] at hes
      rw [if_neg (not_endsWith hids), if_neg (not_endsWith hies), if_neg hes,
        if_pos (endsWith (suffix_append b "s"))]
      exact congrArg (· ++ "Count") (dropLast_append b "s")
  | singular _ h =>
      have hs : ¬ "s".toList <:+ x.toList := fun hs => h ⟨"s", by simp, hs⟩
      have hends : ∀ e : String, "s".toList <:+ e.toList →
          ¬ e.toList.isSuffixOf x.toList = true :=
        fun e he => not_endsWith fun hx => hs (he.trans hx)
      have hes := not_or.mpr ⟨not_or.mpr ⟨hends "ses" (by decide), hends "xes" (by decide)⟩,
        hends "zes" (by decide)⟩
      rw [← Bool.or_eq_true, ← Bool.or_eq_true] at hes
      rw [if_neg (hends "Ids" (by decide)), if_neg (hends "ies" (by decide)), if_neg hes,
        if_neg (not_endsWith hs)]

/-- Every name is a plural of something, or of itself. -/
theorem exists_countStem (x : String) : ∃ b, CountStem x b := by
  by_cases hs : "s".toList <:+ x.toList
  · obtain ⟨b, rfl⟩ := exists_of_suffix hs
    by_cases hends : EndsIn b ["Id", "ie", "se", "xe", "ze"]
    · rw [endsIn_s] at hends
      rcases hends with h | h | h
      · obtain ⟨d, hd⟩ := exists_of_suffix h
        rw [hd]
        exact ⟨d, CountStem.ids d⟩
      · obtain ⟨d, hd⟩ := exists_of_suffix h
        rw [hd]
        exact ⟨d ++ "y", CountStem.ies d⟩
      · have hes : "es".toList <:+ (b ++ "s").toList := by
          rcases h with (h | h) | h
          · exact List.IsSuffix.trans (by decide) h
          · exact List.IsSuffix.trans (by decide) h
          · exact List.IsSuffix.trans (by decide) h
        obtain ⟨d, hd⟩ := exists_of_suffix hes
        rw [hd] at h ⊢
        exact ⟨d, CountStem.es d (endsIn_es.mpr h)⟩
    · exact ⟨b, CountStem.s b hends⟩
  · refine ⟨x, CountStem.singular x ?_⟩
    rintro ⟨e, he, hx⟩
    rw [List.mem_singleton.mp he] at hx
    exact hs hx

theorem deriveCountName_iff {x y : String} :
    deriveCountName x = y ↔ ∃ b, CountStem x b ∧ y = b ++ "Count" := by
  constructor
  · rintro rfl
    obtain ⟨b, hb⟩ := exists_countStem x
    exact ⟨b, hb, hb.eq⟩
  · rintro ⟨b, hb, rfl⟩
    exact hb.eq

/-! ## Clashes -/

section Clashes

variable (T : CaseTable)

/-- Two C# names write one camelCase name: they differ in the capitals of their first word. -/
def SameSpelling (n₁ n₂ : String) : Prop :=
  ∃ c, Writes T n₁.toList c ∧ Writes T n₂.toList c

/-- One writes a keyword, the other that keyword with an underscore. -/
def KeywordClash (n₁ n₂ : String) : Prop :=
  ∃ k ∈ cppKeywords, Writes T n₁.toList k.toList ∧ Writes T n₂.toList (k ++ "_").toList

/-- Both are plurals of one noun. -/
def SameNoun (n₁ n₂ : String) : Prop :=
  ∃ x₁ x₂ b, Named T n₁ x₁ ∧ Named T n₂ x₂ ∧ CountStem x₁ b ∧ CountStem x₂ b

/-- `n₁` is a plural and `n₂` writes the count of its noun. -/
def NamesCountOf (n₁ n₂ : String) : Prop :=
  ∃ x b, Named T n₁ x ∧ CountStem x b ∧ Writes T n₂.toList (b ++ "Count").toList

/-- No two members clash, and no member clashes with a count. -/
structure NamesApart (ms : List RawMember) : Prop where
  spelling : ∀ m₁ ∈ ms, ∀ m₂ ∈ ms, m₁.csName ≠ m₂.csName → ¬ SameSpelling T m₁.csName m₂.csName
  keyword : ∀ m₁ ∈ ms, ∀ m₂ ∈ ms, ¬ KeywordClash T m₁.csName m₂.csName
  noun : ∀ m₁ ∈ ms, ∀ m₂ ∈ ms, m₁.isFixedArray = true → m₂.isFixedArray = true →
    m₁.csName ≠ m₂.csName → ¬ SameNoun T m₁.csName m₂.csName
  count : ∀ m₁ ∈ ms, ∀ m₂ ∈ ms, m₁.isFixedArray = true → ¬ NamesCountOf T m₁.csName m₂.csName

variable {T} {n₁ n₂ : String}

theorem writes_string_iff {n c : String} :
    Writes T n.toList c.toList ↔ c = String.ofList (T.pascalToCamel n.toList) := by
  rw [writes_iff, ← String.toList_inj, String.toList_ofList]
  exact eq_comm

/-- Members share a name if they write one name, or a keyword and what replaces it. -/
theorem cppName_eq_iff : T.cppName n₁ = T.cppName n₂ ↔
    SameSpelling T n₁ n₂ ∨ KeywordClash T n₁ n₂ ∨ KeywordClash T n₂ n₁ := by
  have hspelling : SameSpelling T n₁ n₂ ↔ String.ofList (T.pascalToCamel n₁.toList) =
      String.ofList (T.pascalToCamel n₂.toList) := by
    rw [← String.toList_inj, String.toList_ofList, String.toList_ofList]
    constructor
    · rintro ⟨c, h₁, h₂⟩
      rw [h₁.eq, h₂.eq]
    · intro h
      refine ⟨_, writes_pascalToCamel n₁.toList, ?_⟩
      rw [h]
      exact writes_pascalToCamel n₂.toList
  have hkeyword : ∀ n n' : String, KeywordClash T n n' ↔
      String.ofList (T.pascalToCamel n.toList) ∈ cppKeywords ∧
        String.ofList (T.pascalToCamel n'.toList) =
          String.ofList (T.pascalToCamel n.toList) ++ "_" := by
    intro n n'
    constructor
    · rintro ⟨k, hk, h₁, h₂⟩
      rw [writes_string_iff] at h₁ h₂
      rw [← h₁, ← h₂]
      exact ⟨hk, rfl⟩
    · rintro ⟨hk, h⟩
      exact ⟨_, hk, writes_string_iff.mpr rfl, writes_string_iff.mpr h.symm⟩
  rw [CaseTable.cppName, CaseTable.cppName, escape_eq_iff, hspelling, hkeyword, hkeyword]

/-- A keyword and the same keyword with an underscore are two names. -/
theorem not_keywordClash_self {n : String} : ¬ KeywordClash T n n := by
  rintro ⟨k, -, h₁, h₂⟩
  have hlen := congrArg List.length (h₁.eq.symm.trans h₂.eq)
  rw [String.toList_append, List.length_append] at hlen
  have hunder : "_".toList.length = 1 := by decide
  omega

/-- Counts share a name if their arrays are plurals of one noun. -/
theorem countName_eq_iff : deriveCountName (T.cppName n₁) = deriveCountName (T.cppName n₂) ↔
    SameNoun T n₁ n₂ := by
  constructor
  · intro h
    obtain ⟨b, hb, hname⟩ := deriveCountName_iff.mp h
    refine ⟨_, _, b, named_iff.mpr rfl, named_iff.mpr rfl, hb, ?_⟩
    obtain ⟨d, hd, hname'⟩ := deriveCountName_iff.mp (rfl : deriveCountName (T.cppName n₂) = _)
    rw [hname', String.append_left_inj] at hname
    rw [← hname]
    exact hd
  · rintro ⟨x₁, x₂, b, h₁, h₂, hb₁, hb₂⟩
    rw [named_iff.mp h₁, named_iff.mp h₂, hb₁.eq, hb₂.eq]

/-- A keyword with an underscore is no count, so only a plain name can be one. -/
theorem named_count_iff {n b : String} :
    T.cppName n = b ++ "Count" ↔ Writes T n.toList (b ++ "Count").toList := by
  have hcount : "Count".toList <:+ (b ++ "Count").toList := suffix_append b "Count"
  rw [← named_iff]
  constructor
  · rintro ⟨c, hw, ⟨hk, hc⟩ | ⟨hk, hc⟩⟩
    · have hunder : "_".toList <:+ (b ++ "Count").toList := by
        rw [hc]
        exact suffix_append c "_"
      exact absurd (suffix_of_suffix hunder hcount (by decide)) (by decide)
    · rw [hc]
      exact hw
  · intro hw
    exact ⟨_, hw, Or.inr ⟨fun hk => keyword_count _ hk hcount, rfl⟩⟩

/-- A member has the name of a count if it writes that of the array's noun. -/
theorem cppName_eq_countName_iff : deriveCountName (T.cppName n₁) = T.cppName n₂ ↔
    NamesCountOf T n₁ n₂ := by
  constructor
  · intro h
    obtain ⟨b, hb, hname⟩ := deriveCountName_iff.mp h
    exact ⟨_, b, named_iff.mpr rfl, hb, named_count_iff.mp hname⟩
  · rintro ⟨x, b, h₁, hb, hw⟩
    rw [named_iff.mp h₁, hb.eq, named_count_iff.mpr hw]

theorem CountStem.length_le {x b : String} (h : CountStem x b) :
    x.toList.length ≤ b.toList.length + 3 := by
  cases h <;> simp [String.toList_append]

/-- A count is longer than the name of its array. -/
theorem countName_ne (x : String) : x ≠ deriveCountName x := by
  intro h
  obtain ⟨b, hb, hx⟩ := deriveCountName_iff.mp h.symm
  have hle := hb.length_le
  have hlen := congrArg (fun s => s.toList.length) hx
  simp only [String.toList_append, List.length_append] at hlen
  have hcount : "Count".toList.length = 5 := by decide
  omega

end Clashes

/-! ## The struct -/

section Struct

variable {T : CaseTable}

theorem nodup_variables (m : RawMember) : (m.variables T).Nodup := by
  rw [RawMember.variables]
  split
  · rw [List.nodup_cons, List.mem_singleton]
    exact ⟨countName_ne _, List.nodup_singleton _⟩
  · exact List.nodup_singleton _

/-- Two lists of a name, and of a count where there is one, have nothing in common. -/
theorem disjoint_pairs {x₁ d₁ x₂ d₂ : String} {p q : Bool} :
    List.Disjoint (if p = true then [x₁, d₁] else [x₁]) (if q = true then [x₂, d₂] else [x₂]) ↔
      x₁ ≠ x₂ ∧ (p = true → d₁ ≠ x₂) ∧ (q = true → d₂ ≠ x₁) ∧
        (p = true → q = true → d₁ ≠ d₂) := by
  cases p <;> cases q <;>
    simp only [Bool.false_eq_true, if_true, if_false, List.disjoint_cons_left,
      List.disjoint_nil_left, List.mem_cons, List.not_mem_nil, or_false] <;> grind

/-- The variables of two members are apart if neither name and neither count is the
other's. -/
theorem disjoint_variables_iff {m₁ m₂ : RawMember} :
    List.Disjoint (m₁.variables T) (m₂.variables T) ↔
      T.cppName m₁.csName ≠ T.cppName m₂.csName ∧
      (m₁.isFixedArray = true → ¬ NamesCountOf T m₁.csName m₂.csName) ∧
      (m₂.isFixedArray = true → ¬ NamesCountOf T m₂.csName m₁.csName) ∧
      (m₁.isFixedArray = true → m₂.isFixedArray = true →
        ¬ SameNoun T m₁.csName m₂.csName) := by
  rw [RawMember.variables, RawMember.variables, disjoint_pairs, ← cppName_eq_countName_iff,
    ← cppName_eq_countName_iff, ← countName_eq_iff]

/-- Members of different names satisfy a symmetric relation pairwise if any two of them do. -/
theorem pairwise_iff_of_names {ms : List RawMember} {R : RawMember → RawMember → Prop}
    (hdistinct : (ms.map RawMember.csName).Nodup) (hsymm : ∀ a b, R a b → R b a) :
    ms.Pairwise R ↔ ∀ a ∈ ms, ∀ b ∈ ms, a.csName ≠ b.csName → R a b := by
  constructor
  · intro h a ha b hb hne
    have hsym : Std.Symm fun x y : RawMember => x.csName ≠ y.csName → R x y :=
      ⟨fun x y hxy hyx => hsymm x y (hxy hyx.symm)⟩
    have hpair : ms.Pairwise fun x y => x.csName ≠ y.csName → R x y :=
      by
      apply h.imp
      intro x y hxy _
      exact hxy
    exact hpair.forall_of_forall (fun x _ hx => absurd rfl hx) ha hb hne
  · intro h
    exact (List.pairwise_map.mp hdistinct).imp_of_mem fun ha hb hne => h _ ha _ hb hne

/-- The data members of a struct have pairwise different names exactly when no two of its
C# members clash. -/
theorem dataMembers_nodup_iff (T : CaseTable) (M : TypeMapper) (t : PackableType)
    (ms : List RawMember) (hdistinct : (ms.map RawMember.csName).Nodup) :
    (emitStruct { t with members := ms.map (memberDefOf T M) }).dataMembers.Nodup ↔
      NamesApart T ms := by
  have hnames : (emitStruct { t with members := ms.map (memberDefOf T M) }).dataMembers =
      ms.flatMap fun m => m.variables T := by
    rw [emitStruct, CppDeclaration.dataMembers]
    dsimp only
    rw [List.map_map, List.flatMap_map]
    exact congrArg (fun f => ms.flatMap f) (funext fun m => names_emitMember T M m)
  have hsymm : ∀ a b : RawMember, List.Disjoint (a.variables T) (b.variables T) →
      List.Disjoint (b.variables T) (a.variables T) := fun _ _ h _ hb ha => h ha hb
  rw [hnames, List.nodup_flatMap]
  have hpairs := pairwise_iff_of_names hdistinct hsymm
  constructor
  · rintro ⟨-, hpair⟩
    have hdisj := hpairs.mp hpair
    refine ⟨?_, ?_, ?_, ?_⟩
    · intro a ha b hb hne hsame
      exact (disjoint_variables_iff.mp (hdisj a ha b hb hne)).1
        (cppName_eq_iff.mpr (Or.inl hsame))
    · intro a ha b hb hclash
      by_cases hne : a.csName = b.csName
      · rw [← hne] at hclash
        exact not_keywordClash_self hclash
      · exact (disjoint_variables_iff.mp (hdisj a ha b hb hne)).1
          (cppName_eq_iff.mpr (Or.inr (Or.inl hclash)))
    · intro a ha b hb hA hB hne
      exact (disjoint_variables_iff.mp (hdisj a ha b hb hne)).2.2.2 hA hB
    · intro a ha b hb hA hcount
      by_cases hne : a.csName = b.csName
      · rw [← hne, ← cppName_eq_countName_iff] at hcount
        exact countName_ne _ hcount.symm
      · exact (disjoint_variables_iff.mp (hdisj a ha b hb hne)).2.1 hA hcount
  · intro h
    refine ⟨fun m _ => nodup_variables m, hpairs.mpr ?_⟩
    intro a ha b hb hne
    rw [disjoint_variables_iff]
    refine ⟨?_, h.count a ha b hb, h.count b hb a ha, fun hA hB => h.noun a ha b hb hA hB hne⟩
    rw [ne_eq, cppName_eq_iff]
    rintro (hsame | hclash | hclash)
    · exact h.spelling a ha b hb hne hsame
    · exact h.keyword a ha b hb hclash
    · exact h.keyword b hb a ha hclash

end Struct

/-- The parser gives every type members of this form. -/
theorem members_of_typed {M : TypeMapper} {raw : RawType} {t : PackableType}
    (h : Collected.Typed M raw t) :
    t.members = (orderMembers raw.members).map (memberDefOf CaseTable.ascii M) := by
  rw [memberDefOf_ascii]
  exact h.members

/-- An array that takes its count's name from `SkillIds`, and two more members. -/
def skillSlots : List RawMember :=
  [⟨"SkillIds", .array (.predefined "int") [0], -1, some (.fixedArray 8 "MAX_SKILLS"), 0⟩,
    ⟨"Signed", .predefined "bool", -1, none, 1⟩, ⟨"SkillId", .predefined "int", -1, none, 2⟩]

theorem skillSlots_namesApart : NamesApart CaseTable.ascii skillSlots :=
  (dataMembers_nodup_iff CaseTable.ascii ⟨[], [], [], false⟩
    ⟨"SkillSlots", .classKind, false, false, 0, false, []⟩ skillSlots (by decide)).mp (by decide)

/-- `ID` and `Id` are two members in C# and one name in C++. -/
def twoSpellings : TypeDeclaration where
  name := "Player"
  kind := .classKind
  members := [{ name := "ID", type := .predefined "int", kind := .property true },
    { name := "Id", type := .predefined "int", kind := .property true }]

theorem dataMembers_repeated :
    ((collectType twoSpellings).members.map RawMember.csName).Nodup ∧
      ((collect [] [twoSpellings]).schema false).types.map (fun t => (emitStruct t).dataMembers) =
        [["id", "id"]] ∧ ¬ ["id", "id"].Nodup := by
  decide

end MemoryPack.Cs2Cpp
