import RooTransport.Rpc.Serialization

/-!
# What serialization writes

The encoding of a value, without a buffer: every member after its length. Serializing appends it,
whatever the nesting, or fails for a member that does not fit or that reports a failure itself;
deserializing accepts exactly the encodings of values that fit.
-/

namespace RooTransport.Rpc

open RooTransport.Base

universe u

/-- A member as it is written. -/
def lengthPrefixed (bs : List UInt8) : List UInt8 := beBytes 2 bs.length ++ bs

/-- The length takes two bytes. -/
@[simp] theorem length_lengthPrefixed (bs : List UInt8) :
    (lengthPrefixed bs).length = bs.length + 2 := by
  simp [lengthPrefixed]
  omega

/-! ### The buffer -/

namespace DynamicSerialized

/-- Padding reaches up to the position. -/
@[simp] theorem length_padded (s : DynamicSerialized) :
    s.padded.length = max s.data.length s.pos := by
  simp [padded]
  omega

private theorem write_of_eos {s : DynamicSerialized} (h : s.data.length ≤ s.pos)
    (buf : List UInt8) :
    s.write buf = { s with data := s.padded ++ buf, pos := s.pos + buf.length } := by
  have hlen : s.padded.length = s.pos := by simp [h]
  simp [write, hlen]

/-- Two writes at the end are one. -/
theorem write_write {s : DynamicSerialized} (h : s.data.length ≤ s.pos) (a b : List UInt8) :
    (s.write a).write b = s.write (a ++ b) := by
  have hlen : s.padded.length = s.pos := by simp [h]
  have hnext : (s.write a).data.length ≤ (s.write a).pos := by simp [write_of_eos h, hlen]
  rw [write_of_eos hnext, write_of_eos h, write_of_eos h]
  simp [padded]
  omega

/-- The length goes where the position was moved past. -/
theorem seek_writeBeU16 {s : DynamicSerialized} (h : s.data.length ≤ s.pos) (buf : List UInt8)
    (x : UInt16) :
    ((((s.seek (s.pos + 2)).write buf).seek s.pos).writeBeU16 x).seek (s.pos + 2 + buf.length) =
      s.write (beBytes 2 x.toNat ++ buf) := by
  have hseek : (s.seek (s.pos + 2)).data.length ≤ (s.seek (s.pos + 2)).pos := by
    simp only [seek]
    omega
  have hzeros : (s.seek (s.pos + 2)).padded = s.padded ++ [0, 0] := by
    have hk : s.pos + 2 - s.data.length = (s.pos - s.data.length) + 2 := by omega
    simp [padded, seek, hk, List.replicate_add]
  have hlen : s.padded.length = s.pos := by simp [h]
  rw [write_of_eos hseek, write_of_eos h, hzeros]
  simp [writeBeU16, beBytes, writeByte, eos, seek, hlen]
  omega

end DynamicSerialized

/-! ### Encodings -/

section Types

variable {L : Type u} (leaves : Leaves L)

mutual

/-- What a value is encoded to, member by member. -/
def Ty.encoding : (t : Ty L) → t.Val leaves → List UInt8
  | .leaf l, val => ((leaves.serializer l).serialize val).data
  | .pair a b, val => lengthPrefixed (a.encoding val.1) ++ lengthPrefixed (b.encoding val.2)
  | .tuple ts, val => ts.encoding val

/-- What the members of a tuple are encoded to. -/
def Tys.encoding : (ts : Tys L) → ts.Val leaves → List UInt8
  | .one t, val => lengthPrefixed (t.encoding val)
  | .cons t ts, val => lengthPrefixed (t.encoding val.1) ++ ts.encoding val.2

end

variable {leaves}

mutual

/-- Every member at every level has the property. -/
def Ty.AllMembers (P : (t : Ty L) → t.Val leaves → Prop) : (t : Ty L) → t.Val leaves → Prop
  | .leaf _, _ => True
  | .pair a b, val =>
    (P a val.1 ∧ a.AllMembers P val.1) ∧ P b val.2 ∧ b.AllMembers P val.2
  | .tuple ts, val => ts.AllMembers P val

/-- Every member of a tuple at every level has the property. -/
def Tys.AllMembers (P : (t : Ty L) → t.Val leaves → Prop) : (ts : Tys L) → ts.Val leaves → Prop
  | .one t, val => P t val ∧ t.AllMembers P val
  | .cons t ts, val => (P t val.1 ∧ t.AllMembers P val.1) ∧ ts.AllMembers P val.2

end

/-- The length of the encoding can be written. -/
def Ty.Fits (t : Ty L) (val : t.Val leaves) : Prop := (t.encoding leaves val).length ≤ 65535

/-- What is not put together, and tells of a failure through the buffer, does not fail. -/
def Ty.Reports : (t : Ty L) → t.Val leaves → Prop
  | .leaf l, val => (leaves.serializer l).serializeInto = none ∨
      ((leaves.serializer l).serialize val).status = .ok
  | .pair _ _, _ => True
  | .tuple _, _ => True

/-! ### Serializing -/

/-- An application's `serializeInto` does what its `serialize` says, at the end of any buffer.
`Failed` is what it leaves behind when it fails. -/
structure Leaves.Coherent (leaves : Leaves L) (Failed : DynamicSerialized → Prop) : Prop where
  status_ne : ∀ {out}, Failed out → out.status ≠ .ok
  tooLong : Failed ⟨.invalidArgument, [], 0⟩
  write : ∀ {l f}, (leaves.serializer l).serializeInto = some f → ∀ {val out}, out.status = .ok →
    out.data.length ≤ out.pos → ((leaves.serializer l).serialize val).status = .ok →
    f val out = out.write ((leaves.serializer l).serialize val).data
  fail : ∀ {l f}, (leaves.serializer l).serializeInto = some f → ∀ {val out}, out.status = .ok →
    out.data.length ≤ out.pos → ((leaves.serializer l).serialize val).status ≠ .ok →
    Failed (f val out)

variable {Failed : DynamicSerialized → Prop}

/-- At the end of a buffer without failures, the bytes are appended if `Ok`. -/
def Appends (Failed : DynamicSerialized → Prop) (into : DynamicSerialized → DynamicSerialized)
    (bs : List UInt8) (Ok : Prop) : Prop :=
  ∀ ⦃out : DynamicSerialized⦄, out.status = .ok → out.data.length ≤ out.pos →
    (Ok → into out = out.write bs) ∧ (¬ Ok → Failed (into out))

/-- One after the other, the second only if the first does not fail. -/
theorem Appends.andThen {into into' : DynamicSerialized → DynamicSerialized} {bs bs' : List UInt8}
    {Ok Ok' : Prop} (hcoh : leaves.Coherent Failed) (h : Appends Failed into bs Ok)
    (h' : Appends Failed into' bs' Ok') :
    Appends Failed (fun out ↦ if (into out).status ≠ .ok then into out else into' (into out))
      (bs ++ bs') (Ok ∧ Ok') := by
  intro out hout hend
  by_cases hok : Ok
  · have hinto := (h hout hend).1 hok
    have hstatus : (out.write bs).status = .ok := hout
    have hnext : (out.write bs).data.length ≤ (out.write bs).pos := by
      simp [DynamicSerialized.write_of_eos hend, hend]
    simp only [hinto, hstatus, ne_eq, not_true_eq_false, if_false, hok, true_and,
      ← DynamicSerialized.write_write hend]
    exact h' hstatus hnext
  · have hfailed := (h hout hend).2 hok
    simp [hok, hcoh.status_ne hfailed, hfailed]

private theorem appends_memberInto {α : Type} {s : Serializer α} {val : α} {bs : List UInt8}
    {Ok : Prop} (hcoh : leaves.Coherent Failed) (h : Appends Failed (s.into val) bs Ok) :
    Appends Failed (s.memberInto val) (lengthPrefixed bs) (Ok ∧ bs.length ≤ 65535) := by
  intro out hout hend
  have hseek : (out.seek (out.pos + 2)).data.length ≤ (out.seek (out.pos + 2)).pos := by
    simp only [DynamicSerialized.seek]
    omega
  obtain ⟨hwrite, hfail⟩ := @h (out.seek (out.pos + 2)) hout hseek
  by_cases hok : Ok
  · have hinto := hwrite hok
    have hstatus : ((out.seek (out.pos + 2)).write bs).status = .ok := hout
    have hpos : ((out.seek (out.pos + 2)).write bs).pos = out.pos + 2 + bs.length := rfl
    have hsub : out.pos + 2 + bs.length - (out.pos + 2) = bs.length := by omega
    have hle : ¬ out.pos + 2 + bs.length < out.pos + 2 := by omega
    simp only [Serializer.memberInto, hinto, hstatus, hpos, hsub, hle, ne_eq, not_true_eq_false,
      if_false, false_or, hok, true_and]
    constructor
    · intro hlen
      have hnat : (UInt16.ofNat bs.length).toNat = bs.length := by
        simp
        omega
      rw [if_neg (by omega), DynamicSerialized.seek_writeBeU16 hend, hnat, lengthPrefixed]
    · intro hlen
      rw [if_pos (by omega)]
      exact hcoh.tooLong
  · have hfailed := hfail hok
    simp [Serializer.memberInto, hok, hcoh.status_ne hfailed, hfailed]

/-- A member of which nothing goes wrong, what it consists of apart. -/
def Ty.Writable (t : Ty L) (val : t.Val leaves) : Prop := t.Reports val ∧ t.Fits val

private theorem Appends.member {t : Ty L} {val : t.Val leaves} {Members : Prop}
    (hcoh : leaves.Coherent Failed)
    (h : Appends Failed ((t.serializer leaves).into val) (t.encoding leaves val)
      (t.Reports val ∧ Members)) :
    Appends Failed ((t.serializer leaves).memberInto val) (lengthPrefixed (t.encoding leaves val))
      (t.Writable val ∧ Members) := by
  have hiff : (t.Writable val ∧ Members) ↔ ((t.Reports val ∧ Members) ∧ t.Fits val) :=
    and_right_comm
  rw [hiff]
  exact appends_memberInto hcoh h

mutual

/-- What serializing a value into a buffer does. -/
theorem Ty.appends (hcoh : leaves.Coherent Failed) : (t : Ty L) → (val : t.Val leaves) →
    Appends Failed ((t.serializer leaves).into val) (t.encoding leaves val)
      (t.Reports val ∧ t.AllMembers Ty.Writable val)
  | .leaf l, val => by
    intro out hout hend
    simp only [Ty.Reports, Ty.AllMembers, and_true, Ty.serializer, Ty.encoding, Serializer.into]
    cases hf : (leaves.serializer l).serializeInto with
    | none => simp
    | some f =>
      simp only [reduceCtorEq, false_or]
      exact ⟨hcoh.write hf hout hend, hcoh.fail hf hout hend⟩
  | .pair a b, val => by
    have ha := (a.appends hcoh val.1).member hcoh
    have hb := (b.appends hcoh val.2).member hcoh
    rw [Ty.Reports, true_and, Ty.AllMembers, Ty.encoding, Ty.serializer]
    exact ha.andThen hcoh hb
  | .tuple ts, val => by
    rw [Ty.Reports, true_and, Ty.AllMembers, Ty.encoding, Ty.serializer]
    exact ts.appends hcoh val

private theorem Tys.appends (hcoh : leaves.Coherent Failed) : (ts : Tys L) → (val : ts.Val leaves) →
    Appends Failed (ts.serializeRecursive leaves val) (ts.encoding leaves val)
      (ts.AllMembers Ty.Writable val)
  | .one t, val => by
    have ht := (t.appends hcoh val).member hcoh
    rw [Tys.AllMembers, Tys.encoding]
    exact ht
  | .cons t ts, val => by
    have ht := (t.appends hcoh val.1).member hcoh
    rw [Tys.AllMembers, Tys.encoding]
    exact ht.andThen hcoh (ts.appends hcoh val.2)

end

/-- An aggregate is serialized if nothing goes wrong of any member. -/
theorem Ty.serialize_spec (hcoh : leaves.Coherent Failed) {t : Ty L} (val : t.Val leaves)
    (ht : ∀ l, t ≠ .leaf l) :
    (t.AllMembers Ty.Writable val →
      (t.serializer leaves).serialize val = ⟨.ok, t.encoding leaves val⟩) ∧
    (¬ t.AllMembers Ty.Writable val →
      ∃ out, Failed out ∧ (t.serializer leaves).serialize val = out.serialized) := by
  have happends := t.appends hcoh val
  have h := @happends .new rfl (Nat.le_refl 0)
  have hinto : (t.serializer leaves).serialize val =
      ((t.serializer leaves).into val .new).serialized := by
    cases t with
    | leaf l => exact absurd rfl (ht l)
    | pair a b => rfl
    | tuple ts => rfl
  have hreports : t.Reports val := by
    cases t with
    | leaf l => exact absurd rfl (ht l)
    | pair a b => exact trivial
    | tuple ts => exact trivial
  rw [hinto]
  constructor
  · intro hall
    rw [h.1 ⟨hreports, hall⟩, DynamicSerialized.write_of_eos (s := .new) (Nat.le_refl 0)]
    rfl
  · intro hall
    exact ⟨_, h.2 fun hok ↦ hall hok.2, rfl⟩

/-! ### Deserializing -/

private theorem beNat_two_le (data : List UInt8) : beNat (data.take 2) ≤ 65535 := by
  have hlt := beNat_lt (data.take 2)
  have hle : 256 ^ (data.take 2).length ≤ 256 ^ 2 :=
    Nat.pow_le_pow_right (by omega) (List.length_take_le ..)
  omega

/-- Taking a member apart undoes the prefix. -/
theorem Deserializer.member_eq_ok {α : Type} {d : Deserializer α} {data rest : List UInt8}
    {result val : α} :
    d.member data result = (.ok, val, rest) ↔
      ∃ bs, bs.length ≤ 65535 ∧ data = lengthPrefixed bs ++ rest ∧ d bs result = (.ok, val) := by
  constructor
  · intro h
    simp only [Deserializer.member] at h
    split at h
    · simp [RpcStatus.invalidArgument, RpcStatus.ok] at h
    next hlen =>
    split at h
    · simp [RpcStatus.invalidArgument, RpcStatus.ok] at h
    next hmember =>
    split at h
    · next hstatus =>
      rw [Prod.mk.injEq] at h
      exact absurd h.1 hstatus
    next hstatus =>
    simp only [Prod.mk.injEq, true_and, ne_eq, not_not] at h hstatus
    have htake : ((data.drop 2).take (beNat (data.take 2))).length = beNat (data.take 2) := by
      simp
      omega
    refine ⟨(data.drop 2).take (beNat (data.take 2)), ?_, ?_, Prod.ext hstatus h.1⟩
    · rw [htake]
      exact beNat_two_le data
    · have hprefix : beBytes 2 (beNat (data.take 2)) = data.take 2 := by
        have htwo : (data.take 2).length = 2 := by
          simp
          omega
        have hbytes := beBytes_beNat (data.take 2)
        rwa [htwo] at hbytes
      rw [lengthPrefixed, htake, hprefix, List.append_assoc, ← h.2, List.take_append_drop,
        List.take_append_drop]
  · rintro ⟨bs, hbs, rfl, hd⟩
    have hnum : beNat ((lengthPrefixed bs ++ rest).take 2) = bs.length := by
      have htake : (lengthPrefixed bs ++ rest).take 2 = beBytes 2 bs.length := by
        simp [lengthPrefixed]
      rw [htake, beNat_beBytes]
      omega
    have hdrop : (lengthPrefixed bs ++ rest).drop 2 = bs ++ rest := by
      simp [lengthPrefixed]
    simp only [Deserializer.member, hnum, hdrop, List.take_left', List.drop_left', hd]
    have hlen : (lengthPrefixed bs ++ rest).length = bs.length + 2 + rest.length := by simp
    rw [if_neg (by omega), if_neg (by omega)]
    simp

/-- What is accepted is exactly what is serialized. -/
def Inverse {α : Type} (s : Serializer α) (d : Deserializer α) : Prop :=
  ∀ bs result val, d bs result = (.ok, val) ↔ s.serialize val = ⟨.ok, bs⟩

/-- Types not put together whose serializers are simple. -/
structure Leaves.Lawful (leaves : Leaves L) : Prop where
  plain : ∀ l, (leaves.serializer l).serializeInto = none
  inverse : ∀ l, Inverse (leaves.serializer l) (leaves.deserializer l)
  status : ∀ l val, ((leaves.serializer l).serialize val).status = .ok

private theorem member_iff {α : Type} {d : Deserializer α} {bs : List UInt8}
    (result val : α) {Members : Prop}
    (h : ∀ data, d data result = (.ok, val) ↔ data = bs ∧ Members) (data rest : List UInt8) :
    d.member data result = (.ok, val, rest) ↔
      data = lengthPrefixed bs ++ rest ∧ bs.length ≤ 65535 ∧ Members := by
  rw [Deserializer.member_eq_ok]
  constructor
  · rintro ⟨_, hlen, hdata, hd⟩
    obtain ⟨rfl, hmembers⟩ := (h _).mp hd
    exact ⟨hdata, hlen, hmembers⟩
  · rintro ⟨hdata, hlen, hmembers⟩
    exact ⟨bs, hlen, hdata, (h bs).mpr ⟨rfl, hmembers⟩⟩

private theorem Deserializer.last_eq_ok {α : Type} {d : Deserializer α} {data : List UInt8}
    {result val : α} :
    d.last data result = (.ok, val) ↔ d.member data result = (.ok, val, []) := by
  rcases hd : d.member data result with ⟨status, val', rest⟩
  simp only [Deserializer.last, hd]
  constructor
  · intro h
    split at h
    · next hstatus => exact absurd (Prod.ext_iff.mp h).1 hstatus
    next hstatus =>
    split at h
    · simp [RpcStatus.invalidArgument, RpcStatus.ok] at h
    next hrest =>
    simp_all
  · intro h
    simp_all

private theorem Deserializer.next_eq_ok {α β : Type} {d : Deserializer α} {ds : Deserializer β}
    {data : List UInt8} {result val : α × β} :
    d.next ds data result = (.ok, val) ↔
      ∃ rest, d.member data result.1 = (.ok, val.1, rest) ∧ ds rest result.2 = (.ok, val.2) := by
  rcases hd : d.member data result.1 with ⟨status, val', rest⟩
  rcases he : ds rest result.2 with ⟨status', vals⟩
  obtain ⟨first, second⟩ := val
  simp only [Deserializer.next, hd, he]
  constructor
  · intro h
    split at h
    · next hstatus => exact absurd (Prod.ext_iff.mp h).1 hstatus
    next hstatus =>
    simp_all
  · rintro ⟨_, h, h'⟩
    simp_all

/-- A pair is read as a tuple of two is. -/
theorem Deserializer.pair_eq_next {α β : Type} (d : Deserializer α) (e : Deserializer β) :
    d.pair e = d.next e.last := by
  funext data result
  rcases hd : d.member data result.1 with ⟨status, first, rest⟩
  simp only [Deserializer.pair, Deserializer.next, Deserializer.last, hd]
  split
  · rfl
  split
  · rfl
  split
  · rfl
  · rfl

private theorem Deserializer.pair_eq_ok {α β : Type} {d : Deserializer α} {e : Deserializer β}
    {data : List UInt8} {result val : α × β} :
    d.pair e data result = (.ok, val) ↔
      ∃ rest, d.member data result.1 = (.ok, val.1, rest) ∧
        e.member rest result.2 = (.ok, val.2, []) := by
  rw [Deserializer.pair_eq_next, Deserializer.next_eq_ok]
  simp only [Deserializer.last_eq_ok]

private theorem Leaves.Lawful.encoding_eq (hl : leaves.Lawful) {l : L} {bs : List UInt8}
    {val : leaves.Val l} :
    (leaves.serializer l).serialize val = ⟨.ok, bs⟩ ↔
      bs = ((leaves.serializer l).serialize val).data := by
  constructor
  · intro h
    rw [h]
  · rintro rfl
    rw [← hl.status l val]

mutual

/-- Deserializing accepts the encodings of the values that fit. -/
theorem Ty.deserialize_eq_ok (hl : leaves.Lawful) : (t : Ty L) → (bs : List UInt8) →
    (result val : t.Val leaves) → t.deserializer leaves bs result = (.ok, val) ↔
      bs = t.encoding leaves val ∧ t.AllMembers Ty.Fits val
  | .leaf l, bs, result, val => by
    simp only [Ty.AllMembers, and_true, Ty.encoding, Ty.deserializer]
    exact (hl.inverse l bs result val).trans hl.encoding_eq
  | .pair a b, bs, result, val => by
    have ha := member_iff result.1 val.1 (a.deserialize_eq_ok hl · result.1 val.1)
    have hb := member_iff result.2 val.2 (b.deserialize_eq_ok hl · result.2 val.2)
    refine Deserializer.pair_eq_ok.trans ?_
    simp only [ha, hb, Ty.AllMembers, Ty.encoding, Ty.Fits]
    constructor
    · rintro ⟨_, ⟨rfl, ha⟩, rfl, hb⟩
      exact ⟨by simp, ha, hb⟩
    · rintro ⟨rfl, ha, hb⟩
      exact ⟨_, ⟨rfl, ha⟩, by simp, hb⟩
  | .tuple ts, bs, result, val => by
    rw [Ty.AllMembers, Ty.encoding, Ty.deserializer]
    exact ts.deserialize_eq_ok hl bs result val

private theorem Tys.deserialize_eq_ok (hl : leaves.Lawful) : (ts : Tys L) → (bs : List UInt8) →
    (result val : ts.Val leaves) → ts.deserializeRecursive leaves bs result = (.ok, val) ↔
      bs = ts.encoding leaves val ∧ ts.AllMembers Ty.Fits val
  | .one t, bs, result, val => by
    have ht := member_iff result val (t.deserialize_eq_ok hl · result val) bs []
    rw [List.append_nil] at ht
    exact Deserializer.last_eq_ok.trans ht
  | .cons t ts, bs, result, val => by
    have ht := member_iff result.1 val.1 (t.deserialize_eq_ok hl · result.1 val.1)
    refine Deserializer.next_eq_ok.trans ?_
    simp only [ht, ts.deserialize_eq_ok hl, Tys.AllMembers, Tys.encoding, Ty.Fits]
    constructor
    · rintro ⟨_, ⟨rfl, ht⟩, rfl, hts⟩
      exact ⟨rfl, ht, hts⟩
    · rintro ⟨rfl, ht, hts⟩
      exact ⟨_, ⟨rfl, ht⟩, rfl, hts⟩

end

private theorem Leaves.Lawful.coherent (hl : leaves.Lawful) :
    leaves.Coherent (· = ⟨.invalidArgument, [], 0⟩) where
  status_ne := by
    rintro _ rfl
    decide
  tooLong := rfl
  write {l} _ hf := by simp [hl.plain l] at hf
  fail {l} _ hf := by simp [hl.plain l] at hf

private theorem Leaves.Lawful.writable_iff (hl : leaves.Lawful) (t : Ty L) (val : t.Val leaves) :
    t.Writable val ↔ t.Fits val := by
  have hreports : t.Reports val := by
    cases t with
    | leaf l => exact .inl (hl.plain l)
    | pair a b => exact trivial
    | tuple ts => exact trivial
  simp [Ty.Writable, hreports]

/-- What serializing gives. -/
theorem Leaves.Lawful.serialize_eq (hl : leaves.Lawful) (t : Ty L) (val : t.Val leaves) :
    (t.AllMembers Ty.Fits val →
      (t.serializer leaves).serialize val = ⟨.ok, t.encoding leaves val⟩) ∧
    (¬ t.AllMembers Ty.Fits val →
      (t.serializer leaves).serialize val = ⟨.invalidArgument, []⟩) := by
  have hwritable : @Ty.Writable L leaves = Ty.Fits :=
    funext fun t ↦ funext fun val ↦ propext (hl.writable_iff t val)
  by_cases hleaf : ∃ l, t = .leaf l
  · obtain ⟨l, rfl⟩ := hleaf
    simp only [Ty.AllMembers, not_true_eq_false, false_implies, and_true, true_implies]
    exact hl.encoding_eq.mpr rfl
  · have hspec := Ty.serialize_spec hl.coherent val (not_exists.mp hleaf)
    rw [hwritable] at hspec
    refine ⟨hspec.1, fun hnot ↦ ?_⟩
    obtain ⟨_, rfl, hout⟩ := hspec.2 hnot
    exact hout

/-- What holds of the types not put together holds of every nesting of them. -/
theorem Leaves.Lawful.inverse_nested (hl : leaves.Lawful) (t : Ty L) :
    Inverse (t.serializer leaves) (t.deserializer leaves) := by
  intro bs result val
  obtain ⟨hfit, hunfit⟩ := hl.serialize_eq t val
  rw [t.deserialize_eq_ok hl]
  constructor
  · rintro ⟨rfl, hall⟩
    exact hfit hall
  · intro hok
    by_cases hall : t.AllMembers Ty.Fits val
    · rw [hfit hall, Serialized.mk.injEq] at hok
      exact ⟨hok.2.symm, hall⟩
    · rw [hunfit hall, Serialized.mk.injEq] at hok
      exact absurd hok.1 (by decide)

end Types

/-! ### The basic types -/

private theorem fixed_inverse {α : Type} {width : Nat} {bits : α → Nat} {ofBits : Nat → α}
    (hlt : ∀ val, bits val < 256 ^ width) (hval : ∀ val, ofBits (bits val) = val)
    (hbits : ∀ n < 256 ^ width, bits (ofBits n) = n) :
    Inverse (.fixed width bits) (.fixed width ofBits) := by
  intro bs result val
  simp only [Deserializer.fixed, Serializer.fixed, Serialized.static, Serialized.mk.injEq, true_and]
  constructor
  · intro h
    split at h
    · simp [RpcStatus.invalidArgument, RpcStatus.ok] at h
    next hlen =>
    obtain ⟨-, rfl⟩ := Prod.ext_iff.mp h
    have hwidth : bs.length = width := not_not.mp hlen
    subst hwidth
    rw [hbits _ (beNat_lt bs), beBytes_beNat]
  · rintro rfl
    simp [beNat_beBytes, Nat.mod_eq_of_lt (hlt val), hval]

private theorem void_inverse : Inverse Serializer.void Deserializer.void := by
  intro bs result val
  cases bs with
  | nil => simp [Deserializer.void, Serializer.void, Serialized.null]
  | cons x bs => simp [Deserializer.void, Serializer.void, Serialized.null,
      RpcStatus.invalidArgument, RpcStatus.ok]

private theorem bool_inverse : Inverse Serializer.bool Deserializer.bool := by
  intro bs result val
  simp only [Deserializer.bool, Serializer.bool, Serializer.fixed, Serialized.static,
    Serialized.mk.injEq, true_and]
  constructor
  · intro h
    split at h
    · simp [RpcStatus.invalidArgument, RpcStatus.ok] at h
    next hlen =>
    split at h
    · simp [RpcStatus.invalidArgument, RpcStatus.ok] at h
    next hone =>
    obtain ⟨-, rfl⟩ := Prod.ext_iff.mp h
    have hbytes := beBytes_beNat bs
    rw [not_not.mp hlen] at hbytes
    have hbit : (decide (beNat bs ≠ 0)).toNat = beNat bs := by
      by_cases hzero : beNat bs = 0
      · simp [hzero]
      · simp [hzero]
        omega
    rw [hbit, hbytes]
  · rintro rfl
    cases val <;> simp [beBytes, beNat]

private theorem int8_inverse : Inverse Serializer.int8 Deserializer.int8 :=
  fixed_inverse (fun val ↦ val.toUInt8.toNat_lt) (by simp) (by simp)

private theorem uint8_inverse : Inverse Serializer.uint8 Deserializer.uint8 :=
  fixed_inverse UInt8.toNat_lt (by simp) (by simp)

private theorem int16_inverse : Inverse Serializer.int16 Deserializer.int16 :=
  fixed_inverse (fun val ↦ val.toUInt16.toNat_lt) (by simp) (by simp)

private theorem uint16_inverse : Inverse Serializer.uint16 Deserializer.uint16 :=
  fixed_inverse UInt16.toNat_lt (by simp) (by simp)

private theorem int32_inverse : Inverse Serializer.int32 Deserializer.int32 :=
  fixed_inverse (fun val ↦ val.toUInt32.toNat_lt) (by simp) (by simp)

private theorem uint32_inverse : Inverse Serializer.uint32 Deserializer.uint32 :=
  fixed_inverse UInt32.toNat_lt (by simp) (by simp)

private theorem int64_inverse : Inverse Serializer.int64 Deserializer.int64 :=
  fixed_inverse (fun val ↦ val.toUInt64.toNat_lt) (by simp) (by simp)

private theorem uint64_inverse : Inverse Serializer.uint64 Deserializer.uint64 :=
  fixed_inverse UInt64.toNat_lt (by simp) (by simp)

private theorem stringView_inverse : Inverse Serializer.stringView Deserializer.stringView := by
  intro bs result val
  simp [Deserializer.stringView, Serializer.stringView, Serialized.static, eq_comm]

/-- The serializers of the basic types never fail, and their deserializers undo them. -/
theorem scalars_lawful : scalars.Lawful where
  plain l := by cases l <;> rfl
  status l val := by cases l <;> rfl
  inverse
    | .void => void_inverse
    | .bool => bool_inverse
    | .int8 => int8_inverse
    | .uint8 => uint8_inverse
    | .int16 => int16_inverse
    | .uint16 => uint16_inverse
    | .int32 => int32_inverse
    | .uint32 => uint32_inverse
    | .int64 => int64_inverse
    | .uint64 => uint64_inverse
    | .stringView => stringView_inverse

/-- Serializing and deserializing values of any nesting are inverse to each other, and a value is
refused exactly if a member at some level is longer than its length field can say. -/
theorem serialization_inverse (t : Ty Scalar) (val result : t.Val scalars) (bs : List UInt8) :
    (((t.serializer scalars).serialize val).status = .ok ↔ t.AllMembers Ty.Fits val) ∧
    (¬ t.AllMembers Ty.Fits val →
      (t.serializer scalars).serialize val = ⟨.invalidArgument, []⟩) ∧
    (((t.serializer scalars).serialize val).status = .ok →
      t.deserializer scalars ((t.serializer scalars).serialize val).data result = (.ok, val)) ∧
    (t.deserializer scalars bs result = (.ok, val) →
      (t.serializer scalars).serialize val = ⟨.ok, bs⟩) := by
  obtain ⟨hfit, hunfit⟩ := scalars_lawful.serialize_eq t val
  have hinverse := (scalars_lawful.inverse_nested t · result val)
  have hstatus : ((t.serializer scalars).serialize val).status = .ok ↔
      t.AllMembers Ty.Fits val := by
    constructor
    · intro hok
      by_contra hnot
      rw [hunfit hnot] at hok
      exact absurd hok (by decide)
    · intro hall
      rw [hfit hall]
  refine ⟨hstatus, hunfit, ?_, ?_⟩
  · intro hok
    rw [hinverse, hfit (hstatus.mp hok)]
  · exact (hinverse bs).mp

/-- An empty member inside a pair inside a tuple. -/
example :
    let t : Ty Scalar := .tuple (.cons (.pair (.leaf .void) (.leaf .bool)) (.one (.leaf .uint16)))
    (t.serializer scalars).serialize (((), true), (0x102 : UInt16)) =
      ⟨.ok, [0, 5, 0, 0, 0, 1, 1, 0, 2, 1, 2]⟩ := by
  decide

end RooTransport.Rpc
