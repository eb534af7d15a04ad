import Mathlib.Data.List.Nodup
import Mathlib.Logic.Relation

/-!
# Depth-first post-order

A walk over the nodes of a directed graph that lists each node behind its children. A node
on the current path is not entered again, so the walk ends on cyclic graphs too; there the
order is broken on the cycles and every node is still listed once.
-/

namespace DepthFirst

open Relation

variable {α : Type*} [DecidableEq α] (children : α → Option (List α))

/-- Lists `x` behind its children, unless it is listed or on the path already. What has no
children at all, not even the empty list, is not a node. -/
def visit : Nat → List α → List α → α → Option (List α)
  | 0, _, _, _ => none
  | fuel + 1, visiting, emitted, x =>
      if x ∈ emitted ∨ x ∈ visiting then some emitted
      else
        match children x with
        | none => some emitted
        | some cs => do
            let emitted ← cs.foldlM (visit fuel (x :: visiting)) emitted
            return if x ∈ emitted then emitted else emitted ++ [x]

/-- From several roots, one after the other. -/
def visitAll (fuel : Nat) (visiting emitted : List α) (xs : List α) : Option (List α) :=
  xs.foldlM (visit children fuel visiting) emitted

def IsNode (x : α) : Prop := (children x).isSome

/-- An edge between two nodes. -/
def Edge (x y : α) : Prop := (∃ cs, children x = some cs ∧ y ∈ cs) ∧ IsNode children y

def Acyclic : Prop := ∀ x, ¬ TransGen (Edge children) x x

variable {children} {visiting emitted emitted' : List α} {fuel : Nat} {x : α}

/-- The four ways through `visit`. -/
theorem visit_cases (h : visit children (fuel + 1) visiting emitted x = some emitted') :
    ((x ∈ emitted ∨ x ∈ visiting) ∧ emitted' = emitted) ∨
    ((x ∉ emitted ∧ x ∉ visiting) ∧ children x = none ∧ emitted' = emitted) ∨
    (x ∉ emitted ∧ x ∉ visiting) ∧ ∃ cs mid, children x = some cs ∧
      visitAll children fuel (x :: visiting) emitted cs = some mid ∧
      emitted' = if x ∈ mid then mid else mid ++ [x] := by
  rw [visit] at h
  split at h
  case isTrue hseen => exact .inl ⟨hseen, (Option.some.inj h).symm⟩
  case isFalse hnew =>
    rw [not_or] at hnew
    split at h
    case h_1 hnone => exact .inr (.inl ⟨hnew, hnone, (Option.some.inj h).symm⟩)
    case h_2 cs hcs =>
      obtain ⟨mid, hmid, heq⟩ := Option.bind_eq_some_iff.mp h
      exact .inr (.inr ⟨hnew, cs, mid, hcs, hmid, (Option.some.inj heq).symm⟩)

theorem visitAll_cons {c : α} {cs : List α}
    (h : visitAll children fuel visiting emitted (c :: cs) = some emitted') :
    ∃ mid, visit children fuel visiting emitted c = some mid ∧
      visitAll children fuel visiting mid cs = some emitted' := by
  rw [visitAll, List.foldlM_cons] at h
  exact Option.bind_eq_some_iff.mp h

/-! ## Every node is listed once -/

/-- What a visit adds: nodes that were neither listed nor on the path, each once. -/
structure Grows (children : α → Option (List α)) (visiting emitted emitted' : List α) :
    Prop where
  le : emitted <+: emitted'
  nodup : emitted'.Nodup
  new : ∀ y ∈ emitted', y ∉ emitted → IsNode children y ∧ y ∉ visiting

omit [DecidableEq α] in
theorem Grows.refl (h : emitted.Nodup) : Grows children visiting emitted emitted :=
  ⟨List.prefix_refl _, h, fun _ hy hn => absurd hy hn⟩

theorem Grows.trans {mid : List α} (h : Grows children visiting emitted mid)
    (h' : Grows children visiting mid emitted') : Grows children visiting emitted emitted' := by
  refine ⟨h.le.trans h'.le, h'.nodup, fun y hy hn => ?_⟩
  by_cases hmid : y ∈ mid
  · exact h.new y hmid hn
  · exact h'.new y hy hmid

theorem visitAll_grows {cs : List α}
    (hvisit : ∀ {emitted emitted' c}, emitted.Nodup →
      visit children fuel visiting emitted c = some emitted' →
        Grows children visiting emitted emitted')
    (hnodup : emitted.Nodup) (h : visitAll children fuel visiting emitted cs = some emitted') :
    Grows children visiting emitted emitted' := by
  induction cs generalizing emitted with
  | nil =>
    obtain rfl := Option.some.inj h
    exact Grows.refl hnodup
  | cons c cs ih =>
    obtain ⟨mid, hmid, hrest⟩ := visitAll_cons h
    have hgrow := hvisit hnodup hmid
    exact hgrow.trans (ih hgrow.nodup hrest)

theorem visit_grows (hnodup : emitted.Nodup)
    (h : visit children fuel visiting emitted x = some emitted') :
    Grows children visiting emitted emitted' ∧
      (IsNode children x → x ∉ visiting → x ∈ emitted') := by
  induction fuel generalizing visiting emitted emitted' x with
  | zero => cases h
  | succ fuel ih =>
    rcases visit_cases h with ⟨hseen, rfl⟩ | ⟨-, hnone, rfl⟩ | ⟨hnew, cs, mid, hcs, hmid, rfl⟩
    · exact ⟨Grows.refl hnodup, fun _ hnot => hseen.resolve_right hnot⟩
    · refine ⟨Grows.refl hnodup, fun hnode => ?_⟩
      rw [IsNode, hnone] at hnode
      cases hnode
    · have hgrow := visitAll_grows (fun hn hv => (ih hn hv).1) hnodup hmid
      -- `x` was on the path meanwhile
      have hx : x ∉ mid := fun hx => (hgrow.new x hx hnew.1).2 (List.mem_cons_self ..)
      rw [if_neg hx]
      have hnode : IsNode children x := by rw [IsNode, hcs]; rfl
      refine ⟨⟨hgrow.le.trans (List.prefix_append _ _), ?_, fun y hy hn => ?_⟩, fun _ _ => by simp⟩
      · rw [List.nodup_append]
        refine ⟨hgrow.nodup, List.nodup_singleton x, ?_⟩
        rintro y hy z hz rfl
        exact hx (List.mem_singleton.mp hz ▸ hy)
      · rcases List.mem_append.mp hy with hy | hy
        · obtain ⟨hnode', hnot⟩ := hgrow.new y hy hn
          exact ⟨hnode', fun hv => hnot (List.mem_cons_of_mem _ hv)⟩
        · rw [List.mem_singleton.mp hy]
          exact ⟨hnode, hnew.2⟩

/-- All roots that are nodes and not on the path are listed in the end. -/
theorem visitAll_spec {cs : List α} (hnodup : emitted.Nodup)
    (h : visitAll children fuel visiting emitted cs = some emitted') :
    Grows children visiting emitted emitted' ∧
      ∀ c ∈ cs, IsNode children c → c ∉ visiting → c ∈ emitted' := by
  refine ⟨visitAll_grows (fun hn hv => (visit_grows hn hv).1) hnodup h, ?_⟩
  induction cs generalizing emitted with
  | nil => simp
  | cons c cs ih =>
    obtain ⟨mid, hmid, hrest⟩ := visitAll_cons h
    obtain ⟨hgrow, hc⟩ := visit_grows hnodup hmid
    have hgrow' := visitAll_grows (fun hn hv => (visit_grows hn hv).1) hgrow.nodup hrest
    rintro y hy hnode hnot
    rcases List.mem_cons.mp hy with rfl | hy
    · exact hgrow'.le.subset (hc hnode hnot)
    · exact ih hgrow.nodup hrest y hy hnode hnot

/-! ## Children come first -/

/-- Behind every listed node its children are listed, and none of them later. -/
structure Ordered (children : α → Option (List α)) (emitted : List α) : Prop where
  closed : ∀ y ∈ emitted, ∀ c, Edge children y c → c ∈ emitted
  sorted : emitted.Pairwise fun y z => ¬ Edge children y z

omit [DecidableEq α] in
theorem Ordered.nil : Ordered children [] := ⟨by simp, List.Pairwise.nil⟩

omit [DecidableEq α] in
theorem Ordered.concat (h : Ordered children emitted) (hx : x ∉ emitted)
    (hcs : ∀ c, Edge children x c → c ∈ emitted) :
    Ordered children (emitted ++ [x]) := by
  refine ⟨fun y hy c hc => ?_, ?_⟩
  · rcases List.mem_append.mp hy with hy | hy
    · exact List.mem_append_left _ (h.closed y hy c hc)
    · rw [List.mem_singleton.mp hy] at hc
      exact List.mem_append_left _ (hcs c hc)
  · rw [List.pairwise_append]
    refine ⟨h.sorted, List.pairwise_singleton _ _, ?_⟩
    intro y hy z hz hedge
    rw [List.mem_singleton.mp hz] at hedge
    exact hx (h.closed y hy x hedge)

theorem visitAll_ordered {cs : List α}
    (hvisit : ∀ {emitted emitted' c}, c ∈ cs → emitted.Nodup → Ordered children emitted →
      visit children fuel visiting emitted c = some emitted' → Ordered children emitted')
    (hnodup : emitted.Nodup) (hord : Ordered children emitted)
    (h : visitAll children fuel visiting emitted cs = some emitted') :
    Ordered children emitted' := by
  induction cs generalizing emitted with
  | nil =>
    obtain rfl := Option.some.inj h
    exact hord
  | cons c cs ih =>
    obtain ⟨mid, hmid, hrest⟩ := visitAll_cons h
    exact ih (fun hc => hvisit (List.mem_cons_of_mem _ hc)) (visit_grows hnodup hmid).1.nodup
      (hvisit (List.mem_cons_self ..) hnodup hord hmid) hrest

/-- The path leads to the node that is visited: no child of it can be on the path. -/
theorem visit_ordered (hacyclic : Acyclic children) (hnodup : emitted.Nodup)
    (hord : Ordered children emitted)
    (hpath : IsNode children x → ∀ s ∈ visiting, TransGen (Edge children) s x)
    (h : visit children fuel visiting emitted x = some emitted') : Ordered children emitted' := by
  induction fuel generalizing visiting emitted emitted' x with
  | zero => cases h
  | succ fuel ih =>
    rcases visit_cases h with ⟨-, rfl⟩ | ⟨-, -, rfl⟩ | ⟨hnew, cs, mid, hcs, hmid, rfl⟩
    · exact hord
    · exact hord
    · have hnode : IsNode children x := by rw [IsNode, hcs]; rfl
      have hreach : ∀ c ∈ cs, IsNode children c →
          ∀ s ∈ x :: visiting, TransGen (Edge children) s c := by
        intro c hc hnodec s hs
        have hedge : Edge children x c := ⟨⟨cs, hcs, hc⟩, hnodec⟩
        rcases List.mem_cons.mp hs with rfl | hs
        · exact TransGen.single hedge
        · exact (hpath hnode s hs).tail hedge
      have hordmid : Ordered children mid :=
        visitAll_ordered (fun hc hn ho hv => ih hn ho (hreach _ hc) hv) hnodup hord hmid
      obtain ⟨hgrow, hall⟩ := visitAll_spec hnodup hmid
      have hx : x ∉ mid := fun hx => (hgrow.new x hx hnew.1).2 (List.mem_cons_self ..)
      rw [if_neg hx]
      refine hordmid.concat hx fun c hedge => ?_
      obtain ⟨⟨cs', hcs', hc⟩, hnodec⟩ := hedge
      rw [hcs] at hcs'
      obtain rfl := Option.some.inj hcs'
      exact hall c hc hnodec fun hon => hacyclic c (hreach c hc hnodec c hon)

omit [DecidableEq α] in
/-- A child stands before its parent. -/
theorem Ordered.sublist {c : α} (h : Ordered children emitted) (hx : x ∈ emitted)
    (hedge : Edge children x c) (hne : x ≠ c) : [c, x].Sublist emitted := by
  have hc := h.closed x hx c hedge
  obtain ⟨before, after, rfl⟩ := List.append_of_mem hx
  rcases List.mem_append.mp hc with hc | hc
  · exact (List.singleton_sublist.mpr hc).append (List.cons_sublist_cons.mpr (List.nil_sublist _))
  · have hafter : c ∈ after := List.mem_of_ne_of_mem hne.symm hc
    have hsorted := (List.pairwise_append.mp h.sorted).2.1
    exact absurd hedge (List.rel_of_pairwise_cons hsorted hafter)

omit [DecidableEq α] in
theorem acyclic_of_rank (rank : α → Nat) (h : ∀ x y, Edge children x y → rank y < rank x) :
    Acyclic children := by
  have hlt : ∀ {x y}, TransGen (Edge children) x y → rank y < rank x := by
    intro x y hxy
    induction hxy with
    | single hedge => exact h _ _ hedge
    | tail _ hedge ih => exact Nat.lt_trans (h _ _ hedge) ih
  exact fun x hx => Nat.lt_irrefl _ (hlt hx)

/-! ## The walk ends -/

section Ends

variable {nodes : List α} (hnodes : ∀ y, IsNode children y → y ∈ nodes)

theorem length_filter_cons (hx : x ∈ nodes) (hnot : x ∉ visiting) :
    (nodes.filter (· ∉ x :: visiting)).length < (nodes.filter (· ∉ visiting)).length := by
  have hsub : nodes.filter (· ∉ x :: visiting) = (nodes.filter (· ∉ visiting)).filter (· ≠ x) := by
    rw [List.filter_filter]
    congr 1
    funext y
    simp
  rw [hsub]
  refine List.length_filter_lt_length_iff_exists.mpr ⟨x, ?_, by simp⟩
  simp [hx, hnot]

include hnodes in
/-- Each nested visit has one more node on the path. -/
theorem visit_ends (hfuel : (nodes.filter (· ∉ visiting)).length < fuel) :
    ∃ emitted', visit children fuel visiting emitted x = some emitted' := by
  induction fuel generalizing visiting emitted x with
  | zero => exact absurd hfuel (Nat.not_lt_zero _)
  | succ fuel ih =>
    rw [visit]
    split
    · exact ⟨_, rfl⟩
    case isFalse hnew =>
      rw [not_or] at hnew
      split
      · exact ⟨_, rfl⟩
      case h_2 cs hcs =>
        have hx : x ∈ nodes := hnodes x (by rw [IsNode, hcs]; rfl)
        have hless := length_filter_cons hx hnew.2
        have hall : ∀ (cs : List α) emitted,
            ∃ mid, visitAll children fuel (x :: visiting) emitted cs = some mid := by
          intro cs
          induction cs with
          | nil => exact fun emitted => ⟨emitted, rfl⟩
          | cons c cs ihcs =>
            intro emitted
            obtain ⟨mid, hmid⟩ := @ih (x :: visiting) emitted c (by omega)
            obtain ⟨last, hlast⟩ := ihcs mid
            refine ⟨last, ?_⟩
            rw [visitAll, List.foldlM_cons, hmid]
            exact hlast
        obtain ⟨mid, hmid⟩ := hall cs emitted
        refine ⟨if x ∈ mid then mid else mid ++ [x], ?_⟩
        show (visitAll children fuel (x :: visiting) emitted cs).bind _ = _
        rw [hmid]
        rfl

include hnodes in
theorem visitAll_ends (hfuel : nodes.length < fuel) (cs : List α) :
    ∃ emitted', visitAll children fuel [] emitted cs = some emitted' := by
  induction cs generalizing emitted with
  | nil => exact ⟨emitted, rfl⟩
  | cons c cs ih =>
    have hle : (nodes.filter (· ∉ ([] : List α))).length < fuel :=
      Nat.lt_of_le_of_lt (List.length_filter_le _ _) hfuel
    obtain ⟨mid, hmid⟩ := @visit_ends _ _ _ _ emitted _ c _ hnodes hle
    obtain ⟨last, hlast⟩ := @ih mid
    refine ⟨last, ?_⟩
    rw [visitAll, List.foldlM_cons, hmid]
    exact hlast

end Ends

end DepthFirst
