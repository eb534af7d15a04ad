import MemoryPack.Lib.CommonSubsequence
import Mathlib.Logic.Function.Basic

/-!
# The diff `--check` prints

`TextDiff.Diff` trims what two files have in common at both ends and runs the dynamic
program for a longest common subsequence on the rest: a table filled from its last cell
backwards, and a walk over it from the first cell. The table is right cell by cell
because each cell needs only cells that were filled before it; the walk is right because
at every position the table tells how many lines can still be kept.

Lines are compared for equality and copied, never looked into.
-/

namespace MemoryPack.Cs2Cpp.TextDiff

open CommonSubsequence

variable {Line : Type} [DecidableEq Line]

/-! ## `Diff` -/

/-- `while (start < a.Length && start < b.Length && a[start] == b[start]) start++;` -/
def trimStart (a b : List Line) (start : Nat) : Nat :=
  if start < a.length ∧ start < b.length ∧ a[start]? = b[start]? then trimStart a b (start + 1)
  else start
termination_by a.length - start

/-- The loop that lowers `endA` and `endB`. What it takes and returns is one more than
they are: the number of lines up to them. -/
def trimEnd (a b : List Line) (start : Nat) : Nat → Nat → Nat × Nat
  | endA + 1, endB + 1 =>
      if endA ≥ start ∧ endB ≥ start ∧ a[endA]? = b[endB]? then trimEnd a b start endA endB
      else (endA + 1, endB + 1)
  | stopA, stopB => (stopA, stopB)

/-- `int[n + 1, m + 1]`. -/
abbrev Table := Nat × Nat → Nat

/-- The assignment to `lcs[i, j]`. -/
def fillCell (a b : List Line) (i j : Nat) (lcs : Table) : Table :=
  Function.update lcs (i, j)
    (if a[i]? = b[j]? then lcs (i + 1, j + 1) + 1 else max (lcs (i + 1, j)) (lcs (i, j + 1)))

/-- `for (var j = m - 1; j >= 0; j--)`. -/
def fillRow (a b : List Line) (i : Nat) : Nat → Table → Table
  | 0, lcs => lcs
  | j + 1, lcs => fillRow a b i j (fillCell a b i j lcs)

/-- `for (var i = n - 1; i >= 0; i--)`. -/
def fillRows (a b : List Line) : Nat → Table → Table
  | 0, lcs => lcs
  | i + 1, lcs => fillRows a b i (fillRow a b i b.length lcs)

def lcsTable (a b : List Line) : Table := fillRows a b a.length fun _ => 0

/-- The three loops over `x` and `y`; the lists are the lines from `x` and `y` on. -/
def walk (lcs : Table) (x y : Nat) : List Line → List Line → List (Char × Line)
  | p :: a, q :: b =>
      if p = q then (' ', p) :: walk lcs (x + 1) (y + 1) a b
      else if lcs (x + 1, y) ≥ lcs (x, y + 1) then ('-', p) :: walk lcs (x + 1) y a (q :: b)
      else ('+', q) :: walk lcs x (y + 1) (p :: a) b
  | a, b => a.map ('-', ·) ++ b.map ('+', ·)
termination_by a b => a.length + b.length

/-- The lines `start`, …, `stop - 1`. -/
def slice (a : List Line) (start stop : Nat) : List Line := (a.take stop).drop start

/-- What trimming leaves of the two files: the lines that `n` and `m` count. -/
def untrimmed (a b : List Line) : List Line × List Line :=
  let start := trimStart a b 0
  let stops := trimEnd a b start a.length b.length
  (slice a start stops.1, slice b start stops.2)

def diff (a b : List Line) : List (Char × Line) :=
  let start := trimStart a b 0
  let stops := trimEnd a b start a.length b.length
  let midA := slice a start stops.1
  let midB := slice b start stops.2
  (a.take start).map (' ', ·) ++
    (if midA.length * midB.length > 4000000 then midA.map ('-', ·) ++ midB.map ('+', ·)
     else walk (lcsTable midA midB) 0 0 midA midB) ++
    (a.drop stops.1).map (' ', ·)

/-! ## Reading a script -/

/-- The `' '` lines and those of one sign, in order. -/
def linesOf (sign : Char) (ops : List (Char × Line)) : List Line :=
  (ops.filter fun op => op.1 = ' ' ∨ op.1 = sign).map Prod.snd

def oldLines (ops : List (Char × Line)) : List Line := linesOf '-' ops

def newLines (ops : List (Char × Line)) : List Line := linesOf '+' ops

/-- How many lines are kept. -/
def keptCount (ops : List (Char × Line)) : Nat := (ops.filter fun op => op.1 = ' ').length

section Reading

omit [DecidableEq Line]

theorem linesOf_cons (sign k : Char) (l : Line) (ops : List (Char × Line)) :
    linesOf sign ((k, l) :: ops) =
      if k = ' ' ∨ k = sign then l :: linesOf sign ops else linesOf sign ops := by
  by_cases h : k = ' ' ∨ k = sign <;> simp [linesOf, h]

theorem linesOf_append (sign : Char) (ops ops' : List (Char × Line)) :
    linesOf sign (ops ++ ops') = linesOf sign ops ++ linesOf sign ops' := by
  rw [linesOf, List.filter_append, List.map_append]
  rfl

/-- A block of lines under one sign. -/
theorem linesOf_map (sign k : Char) (ls : List Line) :
    linesOf sign (ls.map (k, ·)) = if k = ' ' ∨ k = sign then ls else [] := by
  induction ls with
  | nil => simp [linesOf]
  | cons l ls ih =>
      rw [List.map_cons, linesOf_cons, ih]
      split <;> rfl

theorem keptCount_cons (k : Char) (l : Line) (ops : List (Char × Line)) :
    keptCount ((k, l) :: ops) = if k = ' ' then keptCount ops + 1 else keptCount ops := by
  by_cases h : k = ' ' <;> simp [keptCount, h]

theorem keptCount_append (ops ops' : List (Char × Line)) :
    keptCount (ops ++ ops') = keptCount ops + keptCount ops' := by
  rw [keptCount, List.filter_append, List.length_append]
  rfl

theorem keptCount_map (k : Char) (ls : List Line) :
    keptCount (ls.map (k, ·)) = if k = ' ' then ls.length else 0 := by
  induction ls with
  | nil => simp [keptCount]
  | cons l ls ih =>
      rw [List.map_cons, keptCount_cons, ih]
      split <;> rfl

end Reading

/-! ## Trimming -/

omit [DecidableEq Line] in
theorem drop_eq_toList_append (a : List Line) (i : Nat) :
    a.drop i = a[i]?.toList ++ a.drop (i + 1) := by
  by_cases h : i < a.length
  · rw [List.drop_eq_getElem_cons h, List.getElem?_eq_getElem h]
    rfl
  · rw [List.drop_eq_nil_of_le (by omega), List.drop_eq_nil_of_le (by omega),
      List.getElem?_eq_none (by omega)]
    rfl

/-- The loop stops behind a common prefix. -/
theorem trimStart_spec (a b : List Line) (start : Nat) (ha : start ≤ a.length)
    (hb : start ≤ b.length) (h : a.take start = b.take start) :
    trimStart a b start ≤ a.length ∧ trimStart a b start ≤ b.length ∧
      a.take (trimStart a b start) = b.take (trimStart a b start) := by
  induction start using trimStart.induct a b with
  | case1 start hcond ih =>
      obtain ⟨hlt, hlt', heq⟩ := hcond
      rw [trimStart, if_pos ⟨hlt, hlt', heq⟩]
      apply ih hlt hlt'
      rw [List.take_add_one, List.take_add_one, h, heq]
  | case2 start hcond =>
      rw [trimStart, if_neg hcond]
      exact ⟨ha, hb, h⟩

/-- The other loop stops in front of a common suffix, and not before `start`. -/
theorem trimEnd_spec (a b : List Line) (start stopA stopB : Nat) (ha : start ≤ stopA)
    (hb : start ≤ stopB) (hla : stopA ≤ a.length) (hlb : stopB ≤ b.length)
    (h : a.drop stopA = b.drop stopB) :
    start ≤ (trimEnd a b start stopA stopB).1 ∧ start ≤ (trimEnd a b start stopA stopB).2 ∧
      (trimEnd a b start stopA stopB).1 ≤ a.length ∧
      (trimEnd a b start stopA stopB).2 ≤ b.length ∧
      a.drop (trimEnd a b start stopA stopB).1 = b.drop (trimEnd a b start stopA stopB).2 := by
  induction stopA, stopB using trimEnd.induct a b start with
  | case1 endA endB hcond ih =>
      obtain ⟨hge, hge', heq⟩ := hcond
      rw [trimEnd, if_pos ⟨hge, hge', heq⟩]
      apply ih hge hge' (by omega) (by omega)
      rw [drop_eq_toList_append, drop_eq_toList_append b, h, heq]
  | case2 endA endB hcond =>
      rw [trimEnd, if_neg hcond]
      exact ⟨ha, hb, hla, hlb, h⟩
  | case3 stopA stopB hstop =>
      rw [trimEnd.eq_2 a b start stopA stopB hstop]
      exact ⟨ha, hb, hla, hlb, h⟩

omit [DecidableEq Line] in
/-- A list is its first lines, a slice and its last lines. -/
theorem take_slice_drop (a : List Line) {start stop : Nat} (h : start ≤ stop) :
    a.take start ++ slice a start stop ++ a.drop stop = a := by
  have hpre : a.take start = (a.take stop).take start := by
    rw [List.take_take, Nat.min_eq_left h]
  rw [hpre, slice, List.take_append_drop, List.take_append_drop]

/-- What the two loops leave: the same prefix and the same suffix around the rest. -/
theorem trimmed (a b : List Line) : ∃ pre suf : List Line,
    a = pre ++ (untrimmed a b).1 ++ suf ∧ b = pre ++ (untrimmed a b).2 ++ suf ∧
    a.take (trimStart a b 0) = pre ∧
    a.drop (trimEnd a b (trimStart a b 0) a.length b.length).1 = suf := by
  obtain ⟨hla, hlb, hpre⟩ := trimStart_spec a b 0 (Nat.zero_le _) (Nat.zero_le _) rfl
  obtain ⟨hsa, hsb, -, -, hsuf⟩ := trimEnd_spec a b (trimStart a b 0) a.length b.length hla hlb
    (Nat.le_refl _) (Nat.le_refl _) (by rw [List.drop_length, List.drop_length])
  refine ⟨_, _, (take_slice_drop a hsa).symm, ?_, rfl, rfl⟩
  rw [hpre, hsuf]
  exact (take_slice_drop b hsb).symm

/-! ## The table -/

/-- The last row and the last column are right, and so is every cell from `(i, j)` on in
the order of the loops. -/
def Filled (a b : List Line) (i j : Nat) (lcs : Table) : Prop :=
  ∀ i' j', i' ≤ a.length → j' ≤ b.length →
    (i' = a.length ∨ j' = b.length ∨ i < i' ∨ (i' = i ∧ j ≤ j')) →
    IsLongest (a.drop i') (b.drop j') (lcs (i', j'))

omit [DecidableEq Line] in
/-- Before the loops only the border counts, and it is zero. -/
theorem filled_zero (a b : List Line) : Filled a b a.length 0 fun _ => 0 := by
  intro i' j' hi hj hcell
  by_cases hend : i' = a.length
  · rw [hend, List.drop_length]
    exact isLongest_nil_left _
  · have hcol : j' = b.length := by omega
    rw [hcol, List.drop_length]
    exact isLongest_nil_right _

/-- A cell is computed from three cells that are filled before it. -/
theorem filled_fillCell {a b : List Line} {i j : Nat} {lcs : Table} (hi : i < a.length)
    (hj : j < b.length) (h : Filled a b i (j + 1) lcs) :
    Filled a b i j (fillCell a b i j lcs) := by
  intro i' j' hi' hj' hcell
  by_cases hself : (i', j') = (i, j)
  · obtain ⟨rfl, rfl⟩ := Prod.mk.inj hself
    have hdiag := h (i' + 1) (j' + 1) hi hj (by omega)
    have hdown := h (i' + 1) j' hi hj' (by omega)
    have hright := h i' (j' + 1) hi' hj (by omega)
    rw [fillCell, Function.update_self, List.drop_eq_getElem_cons hi,
      List.drop_eq_getElem_cons hj, List.getElem?_eq_getElem hi, List.getElem?_eq_getElem hj]
    by_cases heq : a[i'] = b[j']
    · rw [if_pos (congrArg some heq), heq]
      exact hdiag.cons_cons _
    · rw [if_neg (by rintro hsome; exact heq (Option.some.inj hsome))]
      rw [List.drop_eq_getElem_cons hj] at hdown
      rw [List.drop_eq_getElem_cons hi] at hright
      exact hdown.cons_ne heq hright
  · rw [fillCell, Function.update_of_ne hself]
    apply h i' j' hi' hj'
    rw [Prod.mk.injEq] at hself
    omega

theorem filled_fillRow {a b : List Line} {i : Nat} (hi : i < a.length) : ∀ {j : Nat} {lcs : Table},
    j ≤ b.length → Filled a b i j lcs → Filled a b i 0 (fillRow a b i j lcs)
  | 0, _, _, h => h
  | j + 1, _, hj, h => by
      rw [fillRow]
      apply filled_fillRow hi (Nat.le_of_succ_le hj)
      exact filled_fillCell hi hj h

/-- A finished row is the start of the row above it. -/
theorem filled_fillRows {a b : List Line} : ∀ {i : Nat} {lcs : Table}, i ≤ a.length →
    Filled a b i 0 lcs → Filled a b 0 0 (fillRows a b i lcs)
  | 0, _, _, h => h
  | i + 1, lcs, hi, h => by
      have habove : Filled a b i b.length lcs := by
        intro i' j' hi' hj' hcell
        apply h i' j' hi' hj'
        omega
      rw [fillRows]
      apply filled_fillRows (Nat.le_of_succ_le hi)
      exact filled_fillRow hi (Nat.le_refl _) habove

theorem lcsTable_longest (a b : List Line) {i j : Nat} (hi : i ≤ a.length) (hj : j ≤ b.length) :
    IsLongest (a.drop i) (b.drop j) (lcsTable a b (i, j)) := by
  have hfilled := filled_fillRows (Nat.le_refl _) (filled_zero a b)
  apply hfilled i j hi hj
  omega

/-! ## The walk -/

section Walk

variable (lcs : Table)

theorem oldLines_walk (x y : Nat) (a b : List Line) : oldLines (walk lcs x y a b) = a := by
  induction x, y, a, b using @walk.induct Line _ lcs with
  | case1 x y a p b ih =>
      rw [walk, if_pos rfl, oldLines, linesOf_cons, if_pos (by decide)]
      exact congrArg (p :: ·) ih
  | case2 x y p a q b hne hge ih =>
      rw [walk, if_neg hne, if_pos hge, oldLines, linesOf_cons, if_pos (by decide)]
      exact congrArg (p :: ·) ih
  | case3 x y p a q b hne hlt ih =>
      rw [walk, if_neg hne, if_neg hlt, oldLines, linesOf_cons, if_neg (by decide)]
      exact ih
  | case4 x y a b hend =>
      rw [walk.eq_2 _ _ _ _ _ hend, oldLines, linesOf_append, linesOf_map, linesOf_map,
        if_pos (by decide), if_neg (by decide), List.append_nil]

theorem newLines_walk (x y : Nat) (a b : List Line) : newLines (walk lcs x y a b) = b := by
  induction x, y, a, b using @walk.induct Line _ lcs with
  | case1 x y a p b ih =>
      rw [walk, if_pos rfl, newLines, linesOf_cons, if_pos (by decide)]
      exact congrArg (p :: ·) ih
  | case2 x y p a q b hne hge ih =>
      rw [walk, if_neg hne, if_pos hge, newLines, linesOf_cons, if_neg (by decide)]
      exact ih
  | case3 x y p a q b hne hlt ih =>
      rw [walk, if_neg hne, if_neg hlt, newLines, linesOf_cons, if_pos (by decide)]
      exact congrArg (q :: ·) ih
  | case4 x y a b hend =>
      rw [walk.eq_2 _ _ _ _ _ hend, newLines, linesOf_append, linesOf_map, linesOf_map,
        if_neg (by decide), if_pos (by decide), List.nil_append]

end Walk

omit [DecidableEq Line] in
/-- Past the end of either file nothing more is kept. -/
theorem isLongest_of_not_cons {a b : List Line}
    (h : ∀ p a' q b', a = p :: a' → b = q :: b' → False) : IsLongest a b 0 := by
  cases a with
  | nil => exact isLongest_nil_left b
  | cons p a' =>
      cases b with
      | nil => exact isLongest_nil_right _
      | cons q b' => exact absurd rfl (h p a' q b' rfl)

/-- The table is right for what lies ahead of position `(x, y)`. -/
def Ahead (lcs : Table) (x y : Nat) (a b : List Line) : Prop :=
  ∀ i j, i ≤ a.length → j ≤ b.length → IsLongest (a.drop i) (b.drop j) (lcs (x + i, y + j))

section Ahead

variable {lcs : Table} {x y : Nat} {p q : Line} {a b : List Line}

omit [DecidableEq Line]

theorem Ahead.here (h : Ahead lcs x y a b) : IsLongest a b (lcs (x, y)) :=
  h 0 0 (Nat.zero_le _) (Nat.zero_le _)

theorem Ahead.down (h : Ahead lcs x y (p :: a) b) : Ahead lcs (x + 1) y a b := by
  intro i j hi hj
  have hnext := h (i + 1) j (Nat.succ_le_succ hi) hj
  rw [Nat.add_right_comm x 1 i]
  exact hnext

theorem Ahead.right (h : Ahead lcs x y a (q :: b)) : Ahead lcs x (y + 1) a b := by
  intro i j hi hj
  have hnext := h i (j + 1) hi (Nat.succ_le_succ hj)
  rw [Nat.add_right_comm y 1 j]
  exact hnext

end Ahead

/-- The walk keeps as many lines as can be kept. At a difference it goes where the table
is larger, and on a tie to the old line. -/
theorem keptCount_walk {lcs : Table} (x y : Nat) (a b : List Line) (h : Ahead lcs x y a b) :
    IsLongest a b (keptCount (walk lcs x y a b)) := by
  induction x, y, a, b using @walk.induct Line _ lcs with
  | case1 x y a p b ih =>
      rw [walk, if_pos rfl, keptCount_cons, if_pos rfl]
      apply IsLongest.cons_cons
      exact ih h.down.right
  | case2 x y p a q b hne hge ih =>
      have hkept := ih h.down
      have hmax := hkept.cons_ne hne h.right.here
      -- what the walk keeps is what the table says, which is the larger side
      rw [hkept.unique h.down.here, Nat.max_eq_left hge] at hmax
      rw [walk, if_neg hne, if_pos hge, keptCount_cons, if_neg (by decide),
        hkept.unique h.down.here]
      exact hmax
  | case3 x y p a q b hne hlt ih =>
      have hkept := ih h.right
      have hmax := h.down.here.cons_ne hne hkept
      rw [hkept.unique h.right.here, Nat.max_eq_right (by omega)] at hmax
      rw [walk, if_neg hne, if_neg hlt, keptCount_cons, if_neg (by decide),
        hkept.unique h.right.here]
      exact hmax
  | case4 x y a b hend =>
      rw [walk.eq_2 _ _ _ _ _ hend, keptCount_append, keptCount_map, keptCount_map,
        if_neg (by decide), if_neg (by decide)]
      exact isLongest_of_not_cons hend

theorem ahead_lcsTable (a b : List Line) : Ahead (lcsTable a b) 0 0 a b := by
  intro i j hi hj
  rw [Nat.zero_add, Nat.zero_add]
  exact lcsTable_longest a b hi hj

/-! ## The script -/

/-- The operations between the common lines at both ends. -/
def middle (a b : List Line) : List (Char × Line) :=
  if a.length * b.length > 4000000 then a.map ('-', ·) ++ b.map ('+', ·)
  else walk (lcsTable a b) 0 0 a b

theorem oldLines_middle (a b : List Line) : oldLines (middle a b) = a := by
  rw [middle]
  split
  · rw [oldLines, linesOf_append, linesOf_map, linesOf_map, if_pos (by decide),
      if_neg (by decide), List.append_nil]
  · exact oldLines_walk _ 0 0 a b

theorem newLines_middle (a b : List Line) : newLines (middle a b) = b := by
  rw [middle]
  split
  · rw [newLines, linesOf_append, linesOf_map, linesOf_map, if_neg (by decide),
      if_pos (by decide), List.nil_append]
  · exact newLines_walk _ 0 0 a b

/-- A script is the common prefix, the operations in the middle and the common suffix. -/
theorem diff_eq (a b : List Line) : ∃ pre suf : List Line,
    a = pre ++ (untrimmed a b).1 ++ suf ∧ b = pre ++ (untrimmed a b).2 ++ suf ∧
    diff a b = pre.map (' ', ·) ++ middle (untrimmed a b).1 (untrimmed a b).2 ++
      suf.map (' ', ·) := by
  obtain ⟨pre, suf, ha, hb, hpre, hsuf⟩ := trimmed a b
  refine ⟨pre, suf, ha, hb, ?_⟩
  rw [← hpre, ← hsuf]
  rfl

/-- The script turns the old lines into the new ones, and while the rest is small enough
for the table no script keeps more lines. -/
theorem diff_minimal (a b : List Line) :
    oldLines (diff a b) = a ∧ newLines (diff a b) = b ∧
      ((untrimmed a b).1.length * (untrimmed a b).2.length ≤ 4000000 →
        IsLongest a b (keptCount (diff a b))) := by
  obtain ⟨pre, suf, ha, hb, hdiff⟩ := diff_eq a b
  refine ⟨?_, ?_, ?_⟩
  · have hmid := oldLines_middle (untrimmed a b).1 (untrimmed a b).2
    rw [oldLines] at hmid
    rw [hdiff, oldLines, linesOf_append, linesOf_append, linesOf_map, linesOf_map, hmid,
      if_pos (Or.inl rfl), if_pos (Or.inl rfl)]
    exact ha.symm
  · have hmid := newLines_middle (untrimmed a b).1 (untrimmed a b).2
    rw [newLines] at hmid
    rw [hdiff, newLines, linesOf_append, linesOf_append, linesOf_map, linesOf_map, hmid,
      if_pos (Or.inl rfl), if_pos (Or.inl rfl)]
    exact hb.symm
  · intro hsmall
    have hmid : IsLongest (untrimmed a b).1 (untrimmed a b).2
        (keptCount (middle (untrimmed a b).1 (untrimmed a b).2)) := by
      rw [middle, if_neg (Nat.not_lt.mpr hsmall)]
      exact keptCount_walk 0 0 _ _ (ahead_lcsTable _ _)
    have hall := (hmid.append_left pre).append_right suf
    rw [← ha, ← hb] at hall
    rw [hdiff, keptCount_append, keptCount_append, keptCount_map, keptCount_map,
      if_pos rfl, if_pos rfl]
    exact hall

/-- One line of three changed: two of them are kept. -/
theorem diff_minimal_example :
    IsLongest ["x", "a", "y"] ["x", "b", "y"] (keptCount (diff ["x", "a", "y"] ["x", "b", "y"])) :=
  (diff_minimal ["x", "a", "y"] ["x", "b", "y"]).2.2 (by
    simp [untrimmed, trimStart, trimEnd, slice])

end MemoryPack.Cs2Cpp.TextDiff
