import MemoryPack.Cs2Cpp.Operators

/-!
# The values of enum members

An expression is `Faithful` if none of its operators is one at which `TryEvalConstant` and
C# part. By induction this is equivalent to both agreeing on every subexpression, and over
the members of an enum to both agreeing on every member.
-/

namespace MemoryPack.Cs2Cpp

/-! ## Expressions -/

/-- No operator in the expression is one at which the evaluators part. -/
def Faithful (base : Integral) (env : List (String × Int)) : Expression → Prop
  | .unary op e =>
      Faithful base env e ∧ ∀ c, Constant.eval base env e = some c → UnaryFaithful op c
  | .parenthesized e => Faithful base env e
  | .binary op l r =>
      (Faithful base env l ∧ Faithful base env r) ∧
        ∀ c d, Constant.eval base env l = some c → Constant.eval base env r = some d →
          BinaryFaithful op c d
  | _ => True

/-- The evaluators agree on an expression, as far as both give it a value. -/
def AgreeOn (base : Integral) (env : List (String × Int)) (byName : List (String × BitVec 64))
    (e : Expression) : Prop :=
  ∀ c v, Constant.eval base env e = some c → tryEvalConstant byName e = some v →
    v.toInt = c.value

/-- The same members are known to both, with equal values. -/
structure SameMembers (base : Integral) (env : List (String × Int))
    (byName : List (String × BitVec 64)) : Prop where
  holds : ∀ name x, env.lookup name = some x → base.Holds x
  agree : ∀ name x v, env.lookup name = some x → byName.lookup name = some v → v.toInt = x

theorem ofLiteral_spec {n : Nat} {suffix : Suffix} {c : Constant}
    (h : Constant.ofLiteral n suffix = some c) : c.Valid ∧ c.value = n := by
  obtain ⟨t, ht, heq⟩ := Option.bind_eq_some_iff.mp h
  obtain rfl := Option.some.inj heq
  have hfound := List.find?_some ht
  have hholds : t.Holds n := of_decide_eq_true hfound
  exact ⟨hholds, rfl⟩

theorem convertToInt64_spec {n : Nat} {v : BitVec 64} (h : convertToInt64 n = some v) :
    n < 2 ^ 63 ∧ v.toInt = n := by
  unfold convertToInt64 at h
  split at h
  case isTrue hn =>
    obtain rfl := Option.some.inj h
    exact ⟨hn, (BitVec.toInt_ofNat' ..).trans (bmod_long (by omega) (by omega))⟩
  · cases h

theorem ofNegated_cases {e : Expression} {c : Constant} (h : Constant.ofNegated e = some c) :
    ∃ n suffix, e = .number true n suffix ∧
      (n = 2 ^ 31 ∧ c = ⟨.integral .int, -2 ^ 31⟩ ∨ n = 2 ^ 63 ∧ c = ⟨.integral .long, -2 ^ 63⟩) := by
  unfold Constant.ofNegated at h
  split at h
  case h_1 n suffix =>
    refine ⟨n, suffix, rfl, ?_⟩
    split at h
    case isTrue h31 => exact .inl ⟨h31.1, (Option.some.inj h).symm⟩
    case isFalse =>
      split at h
      case isTrue h63 => exact .inr ⟨h63.1, (Option.some.inj h).symm⟩
      case isFalse => cases h
  · cases h

theorem mem_parts_self (e : Expression) : e ∈ e.parts := by
  cases e <;> simp [Expression.parts]

section Expressions

variable {base : Integral} {env : List (String × Int)} {byName : List (String × BitVec 64)}

theorem eval_unary_cases {op : UnaryOp} {e : Expression} {c : Constant}
    (h : Constant.eval base env (.unary op e) = some c) :
    op = .minus ∧ Constant.ofNegated e = some c ∨
      ∃ c', Constant.eval base env e = some c' ∧ Constant.unary op c' = some c := by
  unfold Constant.eval at h
  split at h
  case h_1 hneg => exact .inl ⟨rfl, hneg.trans h⟩
  case h_2 => exact .inr (Option.bind_eq_some_iff.mp h)

theorem agreeOn_iff {e : Expression} {c : Constant} {v : BitVec 64}
    (hc : Constant.eval base env e = some c) (hv : tryEvalConstant byName e = some v) :
    AgreeOn base env byName e ↔ v.toInt = c.value := by
  constructor
  · intro h
    exact h c v hc hv
  · intro h c' v' hc' hv'
    rw [hc] at hc'
    rw [hv] at hv'
    rw [← Option.some.inj hc', ← Option.some.inj hv', h]

variable (henv : SameMembers base env byName)

include henv in
theorem eval_valid {e : Expression} {c : Constant} (h : Constant.eval base env e = some c) :
    c.Valid := by
  induction e generalizing c with
  | number decimal n suffix => exact (ofLiteral_spec h).1
  | character ch =>
    obtain rfl := Option.some.inj h
    have := ch.toNat_lt
    exact ⟨Int.natCast_nonneg _, by show (ch.toNat : Int) ≤ 65535; omega⟩
  | unary op e ih =>
    rcases eval_unary_cases h with ⟨-, hneg⟩ | ⟨c', hc', hop⟩
    · obtain ⟨n, suffix, -, ⟨-, rfl⟩ | ⟨-, rfl⟩⟩ := ofNegated_cases hneg
      · exact Integral.holds_int.mpr (by decide)
      · exact Integral.holds_long.mpr (by decide)
    · exact (unary_spec (v := 0) (ih hc') hop).1
  | identifier name =>
    obtain ⟨x, hx, rfl⟩ := Option.map_eq_some_iff.mp h
    exact henv.holds name x hx
  | parenthesized e ih => exact ih h
  | binary op l r ihl ihr =>
    obtain ⟨cl, hl, h⟩ := Option.bind_eq_some_iff.mp h
    obtain ⟨cr, hr, h⟩ := Option.bind_eq_some_iff.mp h
    exact (binary_spec (l := 0) (r := 0) (ihl hl) (ihr hr) h).1
  | other => cases h

include henv in
/-- One case for each kind of node: the operands agree by induction, and then `unary_spec`
and `binary_spec` decide about the node. -/
theorem faithful_iff {e : Expression} {c : Constant} {v : BitVec 64}
    (hc : Constant.eval base env e = some c) (hv : tryEvalConstant byName e = some v) :
    Faithful base env e ↔ ∀ s ∈ e.parts, AgreeOn base env byName s := by
  induction e generalizing c v with
  | number decimal n suffix =>
    refine iff_of_true trivial fun s hs => ?_
    obtain rfl := List.mem_singleton.mp hs
    rw [agreeOn_iff hc hv, (ofLiteral_spec hc).2, (convertToInt64_spec hv).2]
  | character ch =>
    refine iff_of_true trivial fun s hs => ?_
    obtain rfl := List.mem_singleton.mp hs
    obtain rfl := Option.some.inj hc
    obtain rfl := Option.some.inj hv
    have hlt := ch.toNat_lt
    rw [agreeOn_iff rfl rfl]
    exact (BitVec.toInt_ofNat' ..).trans (bmod_long (by omega) (by omega))
  | unary op e ih =>
    obtain ⟨v', hv', hopv⟩ := Option.bind_eq_some_iff.mp hv
    rw [Expression.parts, List.forall_mem_cons, agreeOn_iff hc hv]
    rcases eval_unary_cases hc with ⟨rfl, hneg⟩ | ⟨c', hc', hop⟩
    · -- the literal 2^31 behind its minus sign; 2^63 is no `long`
      obtain ⟨n, suffix, rfl, ⟨rfl, rfl⟩ | ⟨rfl, -⟩⟩ := ofNegated_cases hneg
      · obtain ⟨-, hval⟩ := convertToInt64_spec hv'
        obtain rfl := Option.some.inj hopv
        refine iff_of_true ⟨trivial, fun _ _ h => by cases h⟩ ⟨?_, fun s hs => ?_⟩
        · rw [BitVec.toInt_neg, hval]
          decide
        · obtain rfl := List.mem_singleton.mp hs
          intro c v hc hv
          rw [(ofLiteral_spec hc).2, (convertToInt64_spec hv).2]
      · obtain ⟨hlt, -⟩ := convertToInt64_spec hv'
        exact absurd hlt (by decide)
    · obtain ⟨-, w, hw, hiff⟩ := unary_spec (v := v') (eval_valid henv hc') hop
      rw [hw] at hopv
      obtain rfl := Option.some.inj hopv
      show (Faithful base env e ∧ ∀ c, _ → UnaryFaithful op c) ↔ _
      rw [ih hc' hv']
      constructor
      · rintro ⟨hparts, hf⟩
        have hagree := hparts e (mem_parts_self e) c' v' hc' hv'
        exact ⟨(hiff hagree).mpr (hf c' hc'), hparts⟩
      · rintro ⟨hval, hparts⟩
        have hagree := hparts e (mem_parts_self e) c' v' hc' hv'
        refine ⟨hparts, fun c'' hc'' => ?_⟩
        rw [hc'] at hc''
        exact Option.some.inj hc'' ▸ (hiff hagree).mp hval
  | identifier name =>
    refine iff_of_true trivial fun s hs => ?_
    obtain rfl := List.mem_singleton.mp hs
    obtain ⟨x, hx, rfl⟩ := Option.map_eq_some_iff.mp hc
    rw [agreeOn_iff hc hv]
    exact henv.agree name x v hx hv
  | parenthesized e ih =>
    rw [Expression.parts, List.forall_mem_cons]
    show Faithful base env e ↔ _
    rw [ih hc hv]
    exact ⟨fun h => ⟨h e (mem_parts_self e), h⟩, fun h => h.2⟩
  | binary op l r ihl ihr =>
    obtain ⟨cl, hcl, hc'⟩ := Option.bind_eq_some_iff.mp hc
    obtain ⟨cr, hcr, hop⟩ := Option.bind_eq_some_iff.mp hc'
    obtain ⟨vl, hvl, hv'⟩ := Option.bind_eq_some_iff.mp hv
    obtain ⟨vr, hvr, hopv⟩ := Option.bind_eq_some_iff.mp hv'
    obtain ⟨-, w, hw, hiff⟩ := binary_spec (l := vl) (r := vr) (eval_valid henv hcl)
      (eval_valid henv hcr) hop
    rw [hw] at hopv
    obtain rfl := Option.some.inj hopv
    rw [Expression.parts, List.forall_mem_cons, agreeOn_iff hc hv, List.forall_mem_append]
    show ((Faithful base env l ∧ Faithful base env r) ∧ ∀ c d, _ → _ → BinaryFaithful op c d) ↔ _
    rw [ihl hcl hvl, ihr hcr hvr]
    constructor
    · rintro ⟨⟨hl, hr⟩, hf⟩
      have hagl := hl l (mem_parts_self l) cl vl hcl hvl
      have hagr := hr r (mem_parts_self r) cr vr hcr hvr
      exact ⟨(hiff hagl hagr).mpr (hf cl cr hcl hcr), hl, hr⟩
    · rintro ⟨hval, hl, hr⟩
      have hagl := hl l (mem_parts_self l) cl vl hcl hvl
      have hagr := hr r (mem_parts_self r) cr vr hcr hvr
      refine ⟨⟨hl, hr⟩, fun c d hc hd => ?_⟩
      rw [hcl] at hc
      rw [hcr] at hd
      rw [← Option.some.inj hc, ← Option.some.inj hd]
      exact (hiff hagl hagr).mp hval
  | other => cases hc

end Expressions

/-! ## Members -/

/-- The same for the members behind one of the value `prev`: every initialiser is faithful,
and a member without one does not follow the greatest `long`. -/
def MembersFaithful (base : Integral) :
    Option Int → List (String × Int) → List EnumMember → Prop
  | _, _, [] => True
  | prev, env, m :: ms =>
      (match m.equalsValue with
        | some e => Faithful base env e
        | none => ∀ x, prev = some x → x + 1 < 2 ^ 63) ∧
      ∀ x, m.constant base prev env = some x →
        MembersFaithful base (some x) ((m.name, x) :: env) ms

/-- The value that `CollectEnum` gives a member. -/
def EnumMember.collected (next : BitVec 64) (byName : List (String × BitVec 64))
    (m : EnumMember) : BitVec 64 :=
  match m.equalsValue with
  | none => next
  | some e => (tryEvalConstant byName e).getD next

/-- The evaluators agree on every subexpression of every initialiser and on every member. -/
def MembersAgree (base : Integral) : Option Int → List (String × Int) → BitVec 64 →
    List (String × BitVec 64) → List EnumMember → Prop
  | _, _, _, _, [] => True
  | prev, env, next, byName, m :: ms =>
      (∀ e, m.equalsValue = some e → ∀ s ∈ e.parts, AgreeOn base env byName s) ∧
      ∀ x, m.constant base prev env = some x →
        (m.collected next byName).toInt = x ∧
          MembersAgree base (some x) ((m.name, x) :: env) (m.collected next byName + 1)
            ((m.name, m.collected next byName) :: byName) ms

theorem collectMembers_cons (enumName : String) (next : BitVec 64)
    (byName : List (String × BitVec 64)) (m : EnumMember) (ms : List EnumMember) :
    (collectMembers enumName next byName (m :: ms)).1 =
        ⟨escape m.name, m.collected next byName⟩ ::
          (collectMembers enumName (m.collected next byName + 1)
            ((m.name, m.collected next byName) :: byName) ms).1 ∧
      ((collectMembers enumName next byName (m :: ms)).2 = [] ↔
        (∀ e, m.equalsValue = some e → (tryEvalConstant byName e).isSome) ∧
          (collectMembers enumName (m.collected next byName + 1)
            ((m.name, m.collected next byName) :: byName) ms).2 = []) := by
  rcases m with ⟨name, _ | e⟩
  · simp [collectMembers, EnumMember.collected]
  · rcases htry : tryEvalConstant byName e with _ | v <;>
      simp [collectMembers, EnumMember.collected, htry]

/-- What the next member without an initialiser gets in both. -/
structure NextAgrees (prev : Option Int) (next : BitVec 64) : Prop where
  first : prev = none → next = 0
  behind : ∀ x, prev = some x → ∃ v : BitVec 64, v.toInt = x ∧ next = v + 1

section Members

variable {base : Integral} {prev : Option Int} {env : List (String × Int)} {next : BitVec 64}
  {byName : List (String × BitVec 64)}

theorem SameMembers.cons (henv : SameMembers base env byName) (name : String) {x : Int}
    {v : BitVec 64} (hx : base.Holds x) (hv : v.toInt = x) :
    SameMembers base ((name, x) :: env) ((name, v) :: byName) := by
  have hnew : ∀ {β : Type} (n : String) (y : β) (ps : List (String × β)), n ≠ name →
      ((name, y) :: ps).lookup n = ps.lookup n := by
    intro β n y ps hne
    rw [List.lookup_cons, beq_false_of_ne hne]
  refine ⟨fun n y hy => ?_, fun n y w hy hw => ?_⟩
  · by_cases hn : n = name
    · rw [hn, List.lookup_cons_self] at hy
      exact Option.some.inj hy ▸ hx
    · rw [hnew n x env hn] at hy
      exact henv.holds n y hy
  · by_cases hn : n = name
    · rw [hn, List.lookup_cons_self] at hy hw
      rw [← Option.some.inj hy, ← Option.some.inj hw, hv]
    · rw [hnew n x env hn] at hy
      rw [hnew n v byName hn] at hw
      exact henv.agree n y w hy hw

/-- A single member. -/
theorem member_spec (henv : SameMembers base env byName) (hnext : NextAgrees prev next)
    {m : EnumMember} {x : Int} (hx : m.constant base prev env = some x)
    (hsome : ∀ e, m.equalsValue = some e → (tryEvalConstant byName e).isSome) :
    base.Holds x ∧
      ((match m.equalsValue with
        | some e => Faithful base env e
        | none => ∀ y, prev = some y → y + 1 < 2 ^ 63) ↔
        (∀ e, m.equalsValue = some e → ∀ s ∈ e.parts, AgreeOn base env byName s) ∧
          (m.collected next byName).toInt = x) := by
  rcases m with ⟨name, _ | e⟩
  · -- the previous member plus one
    simp only [EnumMember.constant] at hx
    split at hx
    case isTrue hholds =>
      obtain rfl := Option.some.inj hx
      refine ⟨hholds, ?_⟩
      simp only [EnumMember.collected, reduceCtorEq, IsEmpty.forall_iff, implies_true, true_and]
      cases prev with
      | none => simp [hnext.first rfl]
      | some y =>
        obtain ⟨v, rfl, rfl⟩ := hnext.behind y rfl
        obtain ⟨hlo, hhi⟩ := toInt_long v
        simp only [Option.some.injEq, forall_eq', Option.map_some, Option.getD_some]
        rw [BitVec.toInt_add, show (1 : BitVec 64).toInt = 1 from rfl,
          bmod_long_iff (by omega) (by omega)]
    · cases hx
  · simp only [EnumMember.constant] at hx
    obtain ⟨c, hc, hconv⟩ := Option.bind_eq_some_iff.mp hx
    split at hconv
    case isTrue hconv' =>
      obtain rfl := Option.some.inj hconv
      obtain ⟨v, hv⟩ := Option.isSome_iff_exists.mp (hsome e rfl)
      refine ⟨hconv'.holds (eval_valid henv hc), ?_⟩
      simp only [EnumMember.collected, hv, Option.getD_some, Option.some.injEq, forall_eq']
      rw [faithful_iff henv hc hv]
      exact ⟨fun h => ⟨h, h e (mem_parts_self e) c v hc hv⟩, fun h => h.1⟩
    · cases hconv

theorem enumConstants_cons {m : EnumMember} {ms : List EnumMember} {xs : List Int}
    (h : enumConstants base prev env (m :: ms) = some xs) :
    ∃ x xs', m.constant base prev env = some x ∧
      enumConstants base (some x) ((m.name, x) :: env) ms = some xs' ∧ xs = x :: xs' := by
  rw [enumConstants] at h
  split at h
  · cases h
  · obtain ⟨x, hx, h⟩ := Option.bind_eq_some_iff.mp h
    obtain ⟨xs', hxs, h⟩ := Option.bind_eq_some_iff.mp h
    exact ⟨x, xs', hx, hxs, (Option.some.inj h).symm⟩

theorem membersFaithful_iff (enumName : String) {ms : List EnumMember} {xs : List Int}
    (henv : SameMembers base env byName) (hnext : NextAgrees prev next)
    (hxs : enumConstants base prev env ms = some xs)
    (hw : (collectMembers enumName next byName ms).2 = []) :
    MembersFaithful base prev env ms ↔ MembersAgree base prev env next byName ms := by
  induction ms generalizing prev env next byName xs with
  | nil => exact Iff.rfl
  | cons m ms ih =>
    obtain ⟨x, xs', hx, hrest, -⟩ := enumConstants_cons hxs
    obtain ⟨hsome, hw'⟩ := (collectMembers_cons enumName next byName m ms).2.mp hw
    obtain ⟨hholds, hiff⟩ := member_spec henv hnext hx hsome
    have hstep : (m.collected next byName).toInt = x →
        (MembersFaithful base (some x) ((m.name, x) :: env) ms ↔
          MembersAgree base (some x) ((m.name, x) :: env) (m.collected next byName + 1)
            ((m.name, m.collected next byName) :: byName) ms) := by
      intro hv
      refine ih (henv.cons m.name hholds hv) ⟨fun h => (by cases h), ?_⟩ hrest hw'
      rintro y hy
      exact ⟨_, hv.trans (Option.some.inj hy), rfl⟩
    rw [MembersFaithful, MembersAgree, hiff]
    simp only [hx, Option.some.injEq, forall_eq']
    constructor
    · rintro ⟨⟨hparts, hv⟩, hms⟩
      exact ⟨hparts, hv, (hstep hv).mp hms⟩
    · rintro ⟨hparts, hv, hms⟩
      exact ⟨⟨hparts, hv⟩, (hstep hv).mpr hms⟩

theorem MembersAgree.values (enumName : String) {ms : List EnumMember} {xs : List Int}
    (h : MembersAgree base prev env next byName ms)
    (hxs : enumConstants base prev env ms = some xs) :
    (collectMembers enumName next byName ms).1.map (fun m => m.value.toInt) = xs := by
  induction ms generalizing prev env next byName xs with
  | nil => exact (Option.some.inj hxs)
  | cons m ms ih =>
    obtain ⟨x, xs', hx, hrest, rfl⟩ := enumConstants_cons hxs
    obtain ⟨hv, hms⟩ := h.2 x hx
    rw [(collectMembers_cons enumName next byName m ms).1, List.map_cons, ih hms hrest, hv]

end Members

def EnumDeclaration.Faithful (d : EnumDeclaration) : Prop :=
  MembersFaithful d.underlying none [] d.members

def EnumDeclaration.AgreesThroughout (d : EnumDeclaration) : Prop :=
  MembersAgree d.underlying none [] 0 [] d.members

/-- A faithful enum has the values of C#; and being faithful is just what it takes for both
evaluators to agree on every subexpression on the way. -/
theorem enum_values_of_faithful (d : EnumDeclaration) {xs : List Int} (hxs : d.constants = some xs)
    (hw : (collectEnum d).2 = []) :
    (d.Faithful → (collectEnum d).1.members.map (fun m => m.value.toInt) = xs) ∧
      (d.Faithful ↔ d.AgreesThroughout) := by
  have henv : SameMembers d.underlying [] [] :=
    ⟨fun _ _ h => (by cases h), fun _ _ _ h => (by cases h)⟩
  have hnext : NextAgrees none 0 := ⟨fun _ => rfl, fun _ h => (by cases h)⟩
  have hiff := membersFaithful_iff d.name henv hnext hxs hw
  exact ⟨fun h => (hiff.mp h).values d.name hxs, hiff⟩

/-- `enum Access : byte { Write = 1 << 4, Both }`. -/
def accessEnum : EnumDeclaration where
  name := "Access"
  baseType := some (.byte, .keyword)
  members := [⟨"Write", some (.binary .lessThanLessThan (.number true 1 .none)
    (.number true 4 .none))⟩, ⟨"Both", none⟩]

theorem accessEnum_faithful : accessEnum.Faithful := by
  have hl : Constant.eval .byte [] (.number true 1 .none) = some ⟨.integral .int, 1⟩ := by decide
  have hr : Constant.eval .byte [] (.number true 4 .none) = some ⟨.integral .int, 4⟩ := by decide
  have hop : Constant.operatorType Constant.operatorTypes [⟨.integral .int, 1⟩] = some .int := by
    decide
  have hmember : EnumMember.constant .byte none [] ⟨"Write",
      some (.binary .lessThanLessThan (.number true 1 .none) (.number true 4 .none))⟩ = some 16 := by
    decide
  refine ⟨⟨⟨trivial, trivial⟩, fun c d hc hd t ht => ?_⟩, fun x hx => ⟨fun y hy => ?_, fun _ _ => trivial⟩⟩
  · obtain rfl := Option.some.inj (hl.symm.trans hc)
    obtain rfl := Option.some.inj (hr.symm.trans hd)
    obtain rfl := Option.some.inj (hop.symm.trans ht)
    exact .inl (by decide)
  · obtain rfl := Option.some.inj (hmember.symm.trans hx)
    obtain rfl := Option.some.inj hy
    decide

theorem enum_values_of_faithful_access :
    accessEnum.constants = some [16, 17] ∧ (collectEnum accessEnum).2 = [] ∧
      (collectEnum accessEnum).1.members.map (fun m => m.value.toInt) = [16, 17] :=
  ⟨by decide, by decide,
    (enum_values_of_faithful accessEnum (by decide) (by decide)).1 accessEnum_faithful⟩

/-- `enum Mask : uint { All = ~0u }`: 4294967295 in C#, -1 in the generated header. -/
theorem complement_of_uint_is_negative :
    let mask : EnumDeclaration :=
      ⟨"Mask", some (.uint, .keyword), [⟨"All", some (.unary .tilde (.number true 0 .u))⟩]⟩
    mask.constants = some [4294967295] ∧ (collectEnum mask).2 = [] ∧
      (collectEnum mask).1.members.map (fun m => m.value.toInt) = [-1] := by
  decide

end MemoryPack.Cs2Cpp
