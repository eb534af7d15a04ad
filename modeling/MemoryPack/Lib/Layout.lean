import Mathlib.Data.List.Basic
import Mathlib.Tactic.Ring

/-!
# Sequential layout

Fields one behind the other, each at the next multiple of its alignment, and a struct that
ends at a multiple of its largest one. The second half is about leaving fields out: the
others keep their places exactly if what is left out lies in padding (`inPadding_iff`), and
then the alignment of the struct is the same as well (`struct_eq_of_inPadding`).
-/

namespace Layout

/-! ## Rounding -/

def roundUp (value align : Nat) : Nat := (value + align - 1) / align * align

section RoundUp

variable {v w a q : Nat}

theorem dvd_roundUp (v a : Nat) : a ∣ roundUp v a := Nat.dvd_mul_left a _

theorem le_roundUp (ha : 0 < a) : v ≤ roundUp v a := by
  have hdiv := Nat.div_add_mod (v + a - 1) a
  have hmod := Nat.mod_lt (v + a - 1) ha
  unfold roundUp
  rw [Nat.mul_comm]
  omega

theorem roundUp_le (ha : 0 < a) (hv : v ≤ q) (hq : a ∣ q) : roundUp v a ≤ q := by
  obtain ⟨m, rfl⟩ := hq
  have hlt : (v + a - 1) / a < m + 1 := by
    rw [Nat.div_lt_iff_lt_mul ha]
    calc v + a - 1 < a * m + a := by omega
      _ = (m + 1) * a := by ring
  calc (v + a - 1) / a * a ≤ m * a := Nat.mul_le_mul_right a (Nat.lt_succ_iff.mp hlt)
    _ = a * m := Nat.mul_comm m a

theorem roundUp_of_dvd (ha : 0 < a) (hv : a ∣ v) : roundUp v a = v :=
  Nat.le_antisymm (roundUp_le ha le_rfl hv) (le_roundUp ha)

end RoundUp

/-! ## Structs -/

/-- A size and an alignment `2 ^ log`. -/
@[ext]
structure Extent where
  size : Nat
  log : Nat
  pos : 0 < size
deriving Repr

namespace Extent

instance : DecidableEq Extent := fun e e' =>
  decidable_of_iff (e.size = e'.size ∧ e.log = e'.log) Extent.ext_iff.symm

def align (e : Extent) : Nat := 2 ^ e.log

theorem align_pos (e : Extent) : 0 < e.align := Nat.two_pow_pos e.log

def pair (e : Extent) : Nat × Nat := (e.size, e.align)

/-- Without any alignment under `Pack = 1`. -/
def packed (pack1 : Bool) (e : Extent) : Extent := if pack1 then { e with log := 0 } else e

theorem packed_log_le (pack1 : Bool) (e : Extent) : (e.packed pack1).log ≤ e.log := by
  unfold packed
  split
  · exact Nat.zero_le _
  · exact le_rfl

end Extent

def offsets : Nat → List Extent → List Nat
  | _, [] => []
  | o, e :: es => roundUp o e.align :: offsets (roundUp o e.align + e.size) es

/-- The end of the last field. -/
def stop : Nat → List Extent → Nat
  | o, [] => o
  | o, e :: es => stop (roundUp o e.align + e.size) es

def maxLog (es : List Extent) : Nat := es.foldr (fun e log => max e.log log) 0

theorem two_pow_max (i j : Nat) : max (2 ^ i) (2 ^ j) = 2 ^ max i j := by
  rcases Nat.le_total i j with h | h
  · rw [max_eq_right h, max_eq_right (Nat.pow_le_pow_right (by decide) h)]
  · rw [max_eq_left h, max_eq_left (Nat.pow_le_pow_right (by decide) h)]

theorem le_stop (o : Nat) (es : List Extent) : o ≤ stop o es := by
  induction es generalizing o with
  | nil => exact le_rfl
  | cons e es ih =>
    calc o ≤ roundUp o e.align := le_roundUp e.align_pos
      _ ≤ roundUp o e.align + e.size := Nat.le_add_right _ _
      _ ≤ stop o (e :: es) := ih _

theorem stop_pos (e : Extent) (es : List Extent) : 0 < stop 0 (e :: es) :=
  calc 0 < e.size := e.pos
    _ ≤ roundUp 0 e.align + e.size := Nat.le_add_left _ _
    _ ≤ stop 0 (e :: es) := le_stop _ _

/-- Also a struct without fields has a byte. -/
def struct : List Extent → Extent
  | [] => ⟨1, 0, Nat.one_pos⟩
  | e :: es =>
      { size := roundUp (stop 0 (e :: es)) (2 ^ maxLog (e :: es))
        log := maxLog (e :: es)
        pos := Nat.lt_of_lt_of_le (stop_pos e es) (le_roundUp (Nat.two_pow_pos _)) }

theorem struct_of_ne_nil {es : List Extent} (h : es ≠ []) :
    (struct es).size = roundUp (stop 0 es) (2 ^ maxLog es) ∧ (struct es).log = maxLog es := by
  cases es with
  | nil => exact absurd rfl h
  | cons e es => exact ⟨rfl, rfl⟩

theorem log_le_maxLog {e : Extent} {es : List Extent} (h : e ∈ es) : e.log ≤ maxLog es := by
  induction es with
  | nil => cases h
  | cons f fs ih =>
    rcases List.mem_cons.mp h with rfl | h
    · exact le_max_left _ _
    · exact (ih h).trans (le_max_right _ _)

theorem maxLog_le {log : Nat} {es : List Extent} (h : ∀ e ∈ es, e.log ≤ log) :
    maxLog es ≤ log := by
  induction es with
  | nil => exact Nat.zero_le _
  | cons e es ih =>
    exact max_le (h e List.mem_cons_self) (ih fun f hf => h f (List.mem_cons_of_mem _ hf))

theorem struct_log_le {log : Nat} {es : List Extent} (h : ∀ e ∈ es, e.log ≤ log) :
    (struct es).log ≤ log := by
  cases es with
  | nil => exact Nat.zero_le _
  | cons e es => exact maxLog_le h

theorem le_offsets {o p : Nat} {es : List Extent} (h : p ∈ offsets o es) : o ≤ p := by
  induction es generalizing o with
  | nil => cases h
  | cons e es ih =>
    have hle : o ≤ roundUp o e.align := le_roundUp e.align_pos
    rcases List.mem_cons.mp h with rfl | h
    · exact hle
    · exact hle.trans ((Nat.le_add_right _ _).trans (ih h))

/-- No two fields stand at the same place. -/
theorem offsets_increasing (o : Nat) (es : List Extent) : (offsets o es).Pairwise (· < ·) := by
  induction es generalizing o with
  | nil => exact List.Pairwise.nil
  | cons e es ih =>
    refine List.Pairwise.cons (fun p hp => ?_) (ih _)
    exact Nat.lt_of_lt_of_le (Nat.lt_add_of_pos_right e.pos) (le_offsets hp)

/-! ## Leaving fields out -/

/-- Fields, marked with whether they are kept. -/
abbrev Fields := List (Extent × Bool)

namespace Fields

def all (fs : Fields) : List Extent := fs.map Prod.fst

def kept (fs : Fields) : List Extent := (fs.filter Prod.snd).map Prod.fst

/-- The offsets of the kept fields among all. -/
def keptOffsets : Nat → Fields → List Nat
  | _, [] => []
  | o, (e, true) :: fs => roundUp o e.align :: keptOffsets (roundUp o e.align + e.size) fs
  | o, (e, false) :: fs => keptOffsets (roundUp o e.align + e.size) fs

/-- The fields end at `k` without the others and at `o` with them. What is left out between
two kept fields ends before the second could start, and behind the last one before the
struct, which has the alignment `2 ^ log`, could end. -/
def FitsFrom (log : Nat) : Nat → Nat → Fields → Prop
  | k, o, [] => roundUp k (2 ^ log) = roundUp o (2 ^ log)
  | k, o, (e, true) :: fs =>
      roundUp k e.align = roundUp o e.align ∧
        FitsFrom log (roundUp o e.align + e.size) (roundUp o e.align + e.size) fs
  | k, o, (e, false) :: fs => FitsFrom log k (roundUp o e.align + e.size) fs

instance decidableFitsFrom (log : Nat) : ∀ k o fs, Decidable (FitsFrom log k o fs)
  | k, o, [] => inferInstanceAs (Decidable (roundUp k (2 ^ log) = roundUp o (2 ^ log)))
  | _, o, (e, true) :: fs =>
      have := decidableFitsFrom log (roundUp o e.align + e.size) (roundUp o e.align + e.size) fs
      inferInstanceAs (Decidable (_ ∧ _))
  | k, o, (e, false) :: fs => decidableFitsFrom log k (roundUp o e.align + e.size) fs

/-- What is left out lies in padding of the rest; a struct that keeps nothing has one byte. -/
def InPadding (fs : Fields) : Prop :=
  if fs.kept = [] then (struct fs.all).size = 1 else FitsFrom (maxLog fs.all) 0 0 fs

instance (fs : Fields) : Decidable fs.InPadding :=
  inferInstanceAs (Decidable
    (if fs.kept = [] then (struct fs.all).size = 1 else FitsFrom (maxLog fs.all) 0 0 fs))

section

variable {log k o : Nat} {fs : Fields}

theorem kept_sublist (fs : Fields) : fs.kept.Sublist fs.all :=
  List.filter_sublist.map Prod.fst

theorem keptOffsets_sublist (o : Nat) (fs : Fields) :
    (keptOffsets o fs).Sublist (offsets o fs.all) := by
  induction fs generalizing o with
  | nil => exact List.Sublist.refl []
  | cons f fs ih =>
    obtain ⟨e, _ | _⟩ := f
    · exact (ih _).cons _
    · exact (ih _).cons_cons _

theorem keptOffsets_increasing (o : Nat) (fs : Fields) : (keptOffsets o fs).Pairwise (· < ·) :=
  (offsets_increasing o fs.all).sublist (keptOffsets_sublist o fs)

theorem length_keptOffsets (o : Nat) (fs : Fields) :
    (keptOffsets o fs).length = fs.kept.length := by
  induction fs generalizing o with
  | nil => rfl
  | cons f fs ih =>
    obtain ⟨e, _ | _⟩ := f
    · exact ih _
    · exact congrArg Nat.succ (ih _)

theorem fitsFrom_iff : FitsFrom log k o fs ↔ offsets k fs.kept = keptOffsets o fs ∧
    roundUp (stop k fs.kept) (2 ^ log) = roundUp (stop o fs.all) (2 ^ log) := by
  induction fs generalizing k o with
  | nil => exact (and_iff_right rfl).symm
  | cons f fs ih =>
    obtain ⟨e, _ | _⟩ := f
    · exact ih
    · show (roundUp k e.align = roundUp o e.align ∧ _) ↔
        (roundUp k e.align :: offsets (roundUp k e.align + e.size) _ = _ :: _ ∧ _)
      rw [List.cons.injEq, and_assoc]
      refine and_congr_right fun hhead => ?_
      rw [ih]
      show _ ↔ _ ∧ roundUp (stop (roundUp k e.align + e.size) (kept fs)) _ =
        roundUp (stop (roundUp o e.align + e.size) (all fs)) _
      rw [← hhead]
      rfl

/-- The omitted fields so far end before a multiple of some alignment. -/
theorem FitsFrom.exists_le (h : FitsFrom log k o fs) (hlog : ∀ e ∈ fs.all, e.log ≤ log) :
    ∃ j ≤ log, o ≤ roundUp k (2 ^ j) := by
  induction fs generalizing o with
  | nil => exact ⟨log, le_rfl, h ▸ le_roundUp (Nat.two_pow_pos log)⟩
  | cons f fs ih =>
    obtain ⟨e, _ | _⟩ := f
    · obtain ⟨j, hj, hle⟩ := ih h fun f hf => hlog f (List.mem_cons_of_mem _ hf)
      refine ⟨j, hj, Nat.le_trans ?_ hle⟩
      exact (le_roundUp e.align_pos).trans (Nat.le_add_right _ _)
    · refine ⟨e.log, hlog e List.mem_cons_self, ?_⟩
      exact h.1 ▸ le_roundUp e.align_pos

/-- A field that lies in padding has less than the largest alignment: its own place would
be one for what follows. -/
theorem FitsFrom.omitted_log_lt (h : FitsFrom log k o fs) (hko : k ≤ o)
    (hlog : ∀ e ∈ fs.all, e.log ≤ log) : ∀ e, (e, false) ∈ fs → e.log < log := by
  induction fs generalizing k o with
  | nil => simp
  | cons f fs ih =>
    have hlog' : ∀ e ∈ all fs, e.log ≤ log := fun e he => hlog e (List.mem_cons_of_mem _ he)
    obtain ⟨f, _ | _⟩ := f
    · intro e he
      have hplace : k ≤ roundUp o f.align := hko.trans (le_roundUp f.align_pos)
      rcases List.mem_cons.mp he with heq | he
      · obtain ⟨rfl, -⟩ := Prod.mk.inj heq
        have hrest : FitsFrom log k (roundUp o e.align + e.size) fs := h
        obtain ⟨j, hj, hle⟩ := hrest.exists_le hlog'
        refine Nat.lt_of_lt_of_le (Nat.lt_of_not_le fun hje => ?_) hj
        have hdvd : 2 ^ j ∣ roundUp o e.align := (Nat.pow_dvd_pow 2 hje).trans (dvd_roundUp o _)
        have hsmall := roundUp_le (Nat.two_pow_pos j) hplace hdvd
        have := e.pos
        omega
      · exact ih h (hplace.trans (Nat.le_add_right _ _)) hlog' e he
    · intro e he
      rcases List.mem_cons.mp he with heq | he
      · cases (Prod.mk.inj heq).2
      · exact ih h.2 le_rfl hlog' e he

theorem FitsFrom.maxLog_kept (h : FitsFrom (maxLog fs.all) k o fs) (hko : k ≤ o) :
    maxLog fs.kept = maxLog fs.all := by
  have homitted := h.omitted_log_lt hko fun e he => log_le_maxLog he
  refine Nat.le_antisymm (maxLog_le fun e he => log_le_maxLog ((kept_sublist fs).subset he)) ?_
  -- otherwise all fields, kept or not, would have less than the largest alignment
  by_contra hlt
  rw [Nat.not_le] at hlt
  have hall : ∀ e ∈ fs.all, e.log ≤ maxLog fs.all - 1 := by
    intro e he
    obtain ⟨⟨e, b⟩, hf, rfl⟩ := List.mem_map.mp he
    cases b with
    | false => exact Nat.le_sub_one_of_lt (homitted e hf)
    | true =>
      have hkept : e ∈ fs.kept := List.mem_map.mpr ⟨(e, true), List.mem_filter.mpr ⟨hf, rfl⟩, rfl⟩
      exact Nat.le_sub_one_of_lt (Nat.lt_of_le_of_lt (log_le_maxLog hkept) hlt)
  have := maxLog_le hall
  omega

theorem all_ne_nil (h : fs.kept ≠ []) : fs.all ≠ [] := by
  intro hall
  have hsub := kept_sublist fs
  rw [hall] at hsub
  exact h (List.sublist_nil.mp hsub)

/-- Without fields that matter, the layout is the same. -/
theorem struct_eq_of_inPadding (h : fs.InPadding) : struct fs.kept = struct fs.all := by
  have hext : ∀ {e f : Extent}, e.size = f.size → e.log = f.log → e = f := by
    rintro ⟨_, _, _⟩ ⟨_, _, _⟩ rfl rfl
    rfl
  unfold InPadding at h
  split at h
  case isTrue hnil =>
    rw [hnil]
    refine hext h.symm ?_
    by_cases hall : fs.all = []
    · rw [hall]
    · obtain ⟨hsize, hlog⟩ := struct_of_ne_nil hall
      rw [hlog]
      rw [hsize] at h
      have hdvd := dvd_roundUp (stop 0 fs.all) (2 ^ maxLog fs.all)
      rw [h, Nat.dvd_one] at hdvd
      exact ((Nat.pow_eq_one.mp hdvd).resolve_left (by decide)).symm
  case isFalse hkept =>
    obtain ⟨hsize, hlog⟩ := struct_of_ne_nil hkept
    obtain ⟨hsize', hlog'⟩ := struct_of_ne_nil (all_ne_nil hkept)
    have hmax := h.maxLog_kept le_rfl
    refine hext ?_ ?_
    · rw [hsize, hsize', hmax]
      exact (fitsFrom_iff.mp h).2
    · rw [hlog, hlog', hmax]

theorem inPadding_iff : fs.InPadding ↔
    offsets 0 fs.kept = keptOffsets 0 fs ∧ (struct fs.kept).size = (struct fs.all).size := by
  constructor
  · intro h
    refine ⟨?_, congrArg Extent.size (struct_eq_of_inPadding h)⟩
    unfold InPadding at h
    split at h
    case isTrue hnil =>
      have hlen := length_keptOffsets 0 fs
      rw [hnil, List.length_nil] at hlen
      rw [hnil, List.length_eq_zero_iff.mp hlen]
      rfl
    case isFalse => exact (fitsFrom_iff.mp h).1
  · rintro ⟨hoffsets, hsize⟩
    unfold InPadding
    split
    case isTrue hnil =>
      rw [hnil] at hsize
      exact hsize.symm
    case isFalse hkept =>
      rw [(struct_of_ne_nil hkept).1, (struct_of_ne_nil (all_ne_nil hkept)).1] at hsize
      refine fitsFrom_iff.mpr ⟨hoffsets, ?_⟩
      -- the size is a multiple of the larger alignment, and too small for the next one
      have hle : maxLog fs.kept ≤ maxLog fs.all :=
        maxLog_le fun e he => log_le_maxLog ((kept_sublist fs).subset he)
      have hdvd : 2 ^ maxLog fs.all ∣ roundUp (stop 0 fs.kept) (2 ^ maxLog fs.kept) :=
        hsize ▸ dvd_roundUp _ _
      refine Nat.le_antisymm ?_ ?_
      · rw [← hsize]
        exact roundUp_le (Nat.two_pow_pos _) (le_roundUp (Nat.two_pow_pos _)) hdvd
      · rw [← hsize]
        refine roundUp_le (Nat.two_pow_pos _) (le_roundUp (Nat.two_pow_pos _)) ?_
        exact (Nat.pow_dvd_pow 2 hle).trans (dvd_roundUp _ _)

end

end Fields

end Layout
