import MemoryPack.Wire.RoundTrip

/-!
# Two programs on one wire

Programs that are compiled from different declarations are compared type by type. Two types
are alike if nothing on the wire tells them apart: one may have a vector where the other has
an array, and an optional text where the other has a text. A value that belongs to both of
them has one encoding (`encode_alike`), so that both programs emit the same bytes for it
(`serialize_alike`).
-/

namespace MemoryPack

/-- What a range on the wire is a range of. -/
def Ty.element : Ty → Option Ty
  | .vector t => some t
  | .sequence _ t => some t
  | .array _ t => some t
  | .set _ t => some t
  | .map _ k t => some (.pair k t)
  | _ => none

/-- Types of two programs, which have the objects `D` in common. -/
inductive Ty.Alike (D : Nat → Prop) : Ty → Ty → Prop
  | scalar (s : Scalar) : Ty.Alike D (.scalar s) (.scalar s)
  | string : Ty.Alike D .string .string
  | stringOptional : Ty.Alike D .string (.optional .string)
  | optionalString : Ty.Alike D (.optional .string) .string
  | dotNet (d : DotNet) : Ty.Alike D (.dotNet d) (.dotNet d)
  | unmanaged (u : Unmanaged) : Ty.Alike D (.unmanaged u) (.unmanaged u)
  | object (i : Nat) (h : D i) : Ty.Alike D (.object i) (.object i)
  | range {r r' t t' : Ty} (hr : r.element = some t) (hr' : r'.element = some t')
      (h : Ty.Alike D t t') : Ty.Alike D r r'
  | pair {a a' b b' : Ty} (ha : Ty.Alike D a a') (hb : Ty.Alike D b b') :
      Ty.Alike D (.pair a b) (.pair a' b')
  | optional {t t' : Ty} (h : Ty.Alike D t t')
      (hnull : wireNullEncoding t = wireNullEncoding t') :
      Ty.Alike D (.optional t) (.optional t')
  | variant (tags : List UInt16) {ts : List Ty} (h : ∀ t ∈ ts, Ty.Alike D t t) :
      Ty.Alike D (.variant tags ts) (.variant tags ts)

/-- User types of two programs with members that are alike. -/
structure Decl.Alike (D : Nat → Prop) (d d' : Decl) : Prop where
  kind : d.kind = d'.kind
  members : List.Forall₂ (Ty.Alike D) d.members d'.members

section

variable {S S' : Schema} {D : Nat → Prop} {r t t' : Ty} {v : Val} {vs : List Val}

theorem encode_range (h : r.element = some t) (vs : List Val) :
    encode S r (.seq vs) = encodeCounted (encodeEach S t vs) := by
  cases r with
  | vector | sequence | array | set | map =>
    obtain rfl := Option.some.inj h
    rw [encode]
  | _ => cases h

theorem encodable_range (h : r.element = some t) (hv : Encodable S r v) :
    ∃ vs, v = .seq vs ∧ ∀ w ∈ vs, Encodable S t w := by
  cases r with
  | vector | sequence | array | set | map =>
    obtain rfl := Option.some.inj h
    cases v with
    | seq vs =>
      rw [Encodable] at hv
      refine ⟨vs, rfl, encodableEach_iff.mp ?_⟩
      first | exact hv.2 | exact hv.2.1
    | _ => simp [Encodable] at hv
  | _ => cases h

theorem wireNullEncoding_range (h : r.element = some t) :
    wireNullEncoding r ≠ .nullableValue := by
  cases r with
  | vector | sequence | array | set | map => simp [wireNullEncoding]
  | _ => cases h

/-- A `Nullable<T>` copies the value's memory, so its type has to be the same. -/
theorem Ty.Alike.eq_of_nullableValue (h : Ty.Alike D t t')
    (ht : wireNullEncoding t = .nullableValue) : t = t' := by
  cases h with
  | scalar | unmanaged => rfl
  | range hr => exact absurd ht (wireNullEncoding_range hr)
  | _ => cases ht

theorem encodeNull_alike (h : Ty.Alike D t t')
    (hnull : wireNullEncoding t = wireNullEncoding t') : encodeNull t = encodeNull t' := by
  cases hk : wireNullEncoding t with
  | nullableValue => rw [h.eq_of_nullableValue hk]
  | object | collection | string =>
    rw [hk] at hnull
    simp only [encodeNull, hk, ← hnull]

theorem encodeEach_alike (hvs : ∀ v ∈ vs, encode S t v = encode S' t' v) :
    encodeEach S t vs = encodeEach S' t' vs := by
  rw [encodeEach_eq, encodeEach_eq]
  exact List.map_congr_left hvs

theorem encodeMembers_alike {ts ts' : List Ty} (hts : List.Forall₂ (Ty.Alike D) ts ts')
    (h : EncodableMembers S ts vs) (h' : EncodableMembers S' ts' vs)
    (hvs : ∀ v ∈ vs, ∀ {t t'}, Ty.Alike D t t' → Encodable S t v → Encodable S' t' v →
      encode S t v = encode S' t' v) :
    encodeMembers S ts vs = encodeMembers S' ts' vs := by
  induction hts generalizing vs with
  | nil =>
    cases vs with
    | nil => rfl
    | cons => exact h.elim
  | @cons t t' ts ts' ht _ ih =>
    cases vs with
    | nil => exact h.elim
    | cons v vs =>
      rw [EncodableMembers] at h h'
      obtain ⟨hv, hrest⟩ := List.forall_mem_cons.mp hvs
      rw [encodeMembers, encodeMembers, hv ht h.1 h'.1, ih h.2 h'.2 hrest]

/-- What two programs write for one value. The induction is on the value, as objects may
contain themselves. -/
theorem encode_alike (hD : ∀ i, D i → Decl.Alike D (S.decl i) (S'.decl i)) (v : Val) :
    ∀ {t t'}, Ty.Alike D t t' → Encodable S t v → Encodable S' t' v →
      encode S t v = encode S' t' v := by
  induction v with
  | scalar n =>
    intro t t' ht h h'
    cases ht with
    | scalar s => rw [encode, encode]
    | dotNet d => rfl
    | range hr =>
      obtain ⟨vs, hv, -⟩ := encodable_range hr h
      cases hv
    | _ => simp [Encodable] at h
  | bytes bs =>
    intro t t' ht h h'
    cases ht with
    | string => rw [encode, encode]
    | stringOptional => simp [Encodable] at h'
    | dotNet d => rfl
    | unmanaged u => rw [encode, encode]
    | range hr =>
      obtain ⟨vs, hv, -⟩ := encodable_range hr h
      cases hv
    | _ => simp [Encodable] at h
  | units us =>
    intro t t' ht h h'
    cases ht with
    | dotNet d => rfl
    | range hr =>
      obtain ⟨vs, hv, -⟩ := encodable_range hr h
      cases hv
    | _ => simp [Encodable] at h
  | seq vs ih =>
    intro t t' ht h h'
    cases ht with
    | dotNet d => rfl
    | range hr hr' ht =>
      obtain ⟨_, heq, hvs⟩ := encodable_range hr h
      obtain rfl := Val.seq.inj heq
      obtain ⟨_, heq', hvs'⟩ := encodable_range hr' h'
      obtain rfl := Val.seq.inj heq'
      rw [encode_range hr, encode_range hr',
        encodeEach_alike fun v hv => ih v hv ht (hvs v hv) (hvs' v hv)]
    | object i hi =>
      obtain ⟨hkind, hmembers⟩ := hD i hi
      rw [Encodable] at h h'
      rw [encode, encode, ← hkind, hmembers.length_eq,
        encodeMembers_alike hmembers h.1 h'.1 fun v hv => ih v hv]
    | _ => simp [Encodable] at h
  | pair a b iha ihb =>
    intro t t' ht h h'
    cases ht with
    | dotNet d => rfl
    | range hr =>
      obtain ⟨vs, hv, -⟩ := encodable_range hr h
      cases hv
    | pair ha hb =>
      rw [Encodable] at h h'
      rw [encode, encode, iha ha h.1 h'.1, ihb hb h.2 h'.2]
    | _ => simp [Encodable] at h
  | none =>
    intro t t' ht h h'
    cases ht with
    | dotNet d => rfl
    | range hr =>
      obtain ⟨vs, hv, -⟩ := encodable_range hr h
      cases hv
    | optional ht hnull =>
      rw [encode, encode]
      exact encodeNull_alike ht hnull
    | optionalString => simp [Encodable] at h'
    | _ => simp [Encodable] at h
  | some v ih =>
    intro t t' ht h h'
    cases ht with
    | dotNet d => rfl
    | range hr =>
      obtain ⟨vs, hv, -⟩ := encodable_range hr h
      cases hv
    | @optional t t' ht hnull =>
      rw [Encodable] at h h'
      rw [encode, encode, ← hnull]
      cases hk : wireNullEncoding t with
      | nullableValue => rw [ht.eq_of_nullableValue hk]
      | object | collection | string => exact ih ht h h'
    | optionalString => simp [Encodable] at h'
    | _ => simp [Encodable] at h
  | alt i v ih =>
    intro t t' ht h h'
    cases ht with
    | dotNet d => rfl
    | range hr =>
      obtain ⟨vs, hv, -⟩ := encodable_range hr h
      cases hv
    | @variant tags ts hts =>
      rw [Encodable] at h h'
      have hmem : ts.getD i .string ∈ ts := by
        rw [List.getD_eq_getElem?_getD, List.getElem?_eq_getElem h.1.2.2, Option.getD_some]
        exact List.getElem_mem _
      rw [encode, encode, ih (hts _ hmem) h.2 h'.2]
    | _ => simp [Encodable] at h

theorem serialize_alike {B : Build} (hB : B.Supports S t) (hB' : B.Supports S' t')
    (hD : ∀ i, D i → Decl.Alike D (S.decl i) (S'.decl i)) (ht : Ty.Alike D t t')
    (h : Encodable S t v) (h' : Encodable S' t' v) : serialize S B t v = serialize S' B t' v := by
  rw [serialize_eq_encode hB h, serialize_eq_encode hB' h', encode_alike hD v ht h h']

end

end MemoryPack
