import Mathlib.Data.Nat.Basic
import Mathlib.Data.UInt

/-!
# Tiny frames

Support library. Consistent overhead byte stuffing of a buffer of at most 256 bytes between two
sentinels, in place: every zero byte, and the sentinel in front, is replaced by the distance
to the next, the sentinel at the end by zero.
-/

namespace RooTransport.Base

namespace Tinyframe

/-- The distance to the next zero byte, or to the end, and the encoded bytes. -/
def stuff : List UInt8 → Nat × List UInt8
  | [] => (1, [])
  | b :: rest =>
    let (k, encoded) := stuff rest
    if b = 0 then (1, UInt8.ofNat k :: encoded) else (k + 1, b :: encoded)

/-- Go on for `k` bytes to the next distance. -/
def unstuff : Nat → List UInt8 → Option (List UInt8)
  | _, [] => none
  | 0, b :: rest =>
    if b = 0 then if rest = [] then some [] else none
    else (unstuff (b.toNat - 1) rest).map (0 :: ·)
  | k + 1, b :: rest => if b = 0 then none else (unstuff k rest).map (b :: ·)

/-- What stands at both ends of a buffer that is not encoded. -/
def sentinel : UInt8 := 0x5A

/-- Encode a buffer that starts and ends with a sentinel, and say whether it did. -/
def encode (buf : List UInt8) : List UInt8 × Bool :=
  if 2 ≤ buf.length ∧ buf.length ≤ 256 ∧ buf.head? = some sentinel ∧
      buf.getLast? = some sentinel then
    let (k, encoded) := stuff (buf.tail.dropLast)
    (UInt8.ofNat k :: encoded ++ [0], true)
  else (buf, false)

/-- Undo `encode`, and say whether the piece was well formed. -/
def decode (piece : List UInt8) : List UInt8 × Bool :=
  match piece with
  | [] => (piece, false)
  | first :: rest =>
    match if first = 0 then none else unstuff (first.toNat - 1) rest with
    | none => (piece, false)
    | some body => (sentinel :: body ++ [sentinel], true)

private theorem stuff_spec (body : List UInt8) : (stuff body).2.length = body.length ∧
    1 ≤ (stuff body).1 ∧ (stuff body).1 ≤ body.length + 1 := by
  induction body with
  | nil => simp [stuff]
  | cons b rest ih =>
    rw [stuff]
    dsimp only
    split
    · simp [ih.1]
    · simp only [List.length_cons]
      omega

private theorem toNat_distance {k : Nat} (h : 1 ≤ k) (h' : k ≤ 255) :
    (UInt8.ofNat k).toNat = k ∧ UInt8.ofNat k ≠ 0 := by
  have hk : (UInt8.ofNat k).toNat = k := UInt8.toNat_ofNat_of_lt' (by show k < 256; omega)
  refine ⟨hk, fun hzero ↦ ?_⟩
  rw [hzero] at hk
  simp at hk
  omega

private theorem zero_notMem_stuff {body : List UInt8} (h : body.length ≤ 254) :
    0 ∉ (stuff body).2 := by
  induction body with
  | nil => simp [stuff]
  | cons b rest ih =>
    rw [List.length_cons] at h
    obtain ⟨-, hpos, hle⟩ := stuff_spec rest
    have hrest := ih (by omega)
    rw [stuff]
    dsimp only
    split
    · simp only [List.mem_cons, not_or]
      exact ⟨(toNat_distance hpos (by omega)).2.symm, hrest⟩
    · next hb =>
      simp only [List.mem_cons, not_or]
      exact ⟨Ne.symm hb, hrest⟩

private theorem unstuff_stuff {body : List UInt8} (h : body.length ≤ 254) :
    unstuff ((stuff body).1 - 1) ((stuff body).2 ++ [0]) = some body := by
  induction body with
  | nil => rfl
  | cons b rest ih =>
    rw [List.length_cons] at h
    obtain ⟨-, hpos, hle⟩ := stuff_spec rest
    have hrest := ih (by omega)
    rw [stuff]
    dsimp only
    split
    · next hb =>
      obtain ⟨hnat, hne⟩ := toNat_distance hpos (by omega)
      subst hb
      rw [Nat.sub_self, List.cons_append, unstuff, if_neg hne, hnat, hrest]
      rfl
    · next hb =>
      obtain ⟨k, hk⟩ : ∃ k, (stuff rest).1 = k + 1 := ⟨(stuff rest).1 - 1, by omega⟩
      rw [hk, Nat.add_sub_cancel] at hrest
      rw [hk, Nat.add_sub_cancel, List.cons_append, unstuff, if_neg hb, hrest]
      rfl

private theorem length_unstuff {k : Nat} {rest body : List UInt8} (h : unstuff k rest = some body) :
    body.length + 1 = rest.length := by
  induction rest generalizing k body with
  | nil => cases k <;> cases h
  | cons b rest ih =>
    cases k with
    | zero =>
      rw [unstuff] at h
      split at h
      · split at h
        · next hrest =>
          cases h
          rw [hrest]
          rfl
        · cases h
      · obtain ⟨body', hbody, rfl⟩ := Option.map_eq_some_iff.mp h
        have := ih hbody
        simp only [List.length_cons]
        omega
    | succ k =>
      rw [unstuff] at h
      split at h
      · cases h
      · obtain ⟨body', hbody, rfl⟩ := Option.map_eq_some_iff.mp h
        have := ih hbody
        simp only [List.length_cons]
        omega

/-- A buffer between sentinels is encoded, with one zero byte, at the end. -/
theorem encode_eq {body : List UInt8} (h : body.length + 2 ≤ 256) :
    encode (sentinel :: body ++ [sentinel]) =
      (UInt8.ofNat (stuff body).1 :: (stuff body).2 ++ [0], true) := by
  have hlast : (sentinel :: body ++ [sentinel]).getLast? = some sentinel := List.getLast?_concat
  have hlen : (sentinel :: body ++ [sentinel]).length = body.length + 2 := by simp
  unfold encode
  rw [if_pos ⟨by omega, by omega, rfl, hlast⟩]
  simp

/-- An encoded buffer has no zero byte before its end. -/
theorem zero_notMem_encode {body : List UInt8} (h : body.length + 2 ≤ 256) :
    0 ∉ UInt8.ofNat (stuff body).1 :: (stuff body).2 := by
  obtain ⟨-, hpos, hle⟩ := stuff_spec body
  rw [List.mem_cons, not_or]
  exact ⟨(toNat_distance hpos (by omega)).2.symm, zero_notMem_stuff (by omega)⟩

/-- Encoding keeps the length. -/
theorem length_encode (buf : List UInt8) : (encode buf).1.length = buf.length := by
  unfold encode
  split
  · next h =>
    simp only [List.cons_append, List.length_cons, List.length_append, (stuff_spec _).1,
      List.length_dropLast, List.length_tail, List.length_nil]
    omega
  · rfl

/-- Decoding keeps the length. -/
theorem length_decode (piece : List UInt8) : (decode piece).1.length = piece.length := by
  unfold decode
  split
  · rfl
  next first rest =>
  split
  · rfl
  · next body h =>
    split at h
    · cases h
    · have := length_unstuff h
      simp only [List.cons_append, List.length_cons, List.length_append, List.length_nil]
      omega

/-- Decoding restores what was between the sentinels. -/
theorem decode_encode {body : List UInt8} (h : body.length + 2 ≤ 256) :
    decode (encode (sentinel :: body ++ [sentinel])).1 =
      (sentinel :: body ++ [sentinel], true) := by
  obtain ⟨-, hpos, hle⟩ := stuff_spec body
  obtain ⟨hnat, hne⟩ := toNat_distance hpos (by omega)
  rw [encode_eq h, List.cons_append, decode]
  rw [if_neg hne, hnat, unstuff_stuff (by omega)]

end Tinyframe

end RooTransport.Base
