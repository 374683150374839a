import Mathlib.Algebra.BigOperators.Intervals
import RooTransport.Packets.FrameRoundTrip

/-!
# Bounded receive callbacks

`Esp32SerialLinkTransport::receiveAvailable` (`link/arduino/esp32/reliable_serial.h:138–148`).
The serial stream is the sequence of what its reads give, at most 256 bytes each and possibly
none; what arrives in between is part of it. `int` has 32 bits, and `size_t` has at least as
many. The loop is given a number of reads it may make, and has no result where it would make
more.
-/

namespace RooTransport.Packets

open RooTransport.Base

/-! ### Draining a source -/

/-- Reads of the given sizes until there are `goal` bytes, or one gives nothing: the number of
reads and of bytes, after some already made. At most `fuel` more are made. -/
def drain (goal : Nat) (sizes : Nat → Nat) : Nat → Nat → Nat → Option (Nat × Nat)
  | 0, made, total => if total < goal then none else some (made, total)
  | fuel + 1, made, total =>
    if total < goal then
      if sizes made = 0 then some (made + 1, total)
      else drain goal sizes fuel (made + 1) (total + sizes made)
    else some (made, total)

section

variable {goal : Nat} {sizes : Nat → Nat}

/-- What a drain makes of a source that gives at most `bound` bytes at a time. -/
structure Drains (goal bound : Nat) (sizes : Nat → Nat) (made total made' total' : Nat) : Prop where
  le : made ≤ made'
  reads : made' ≤ made + (goal - total)
  total : total' = total + ∑ i ∈ Finset.Ico made made', sizes i
  lt : total' < goal + bound
  short : total' < goal → ∃ i, made ≤ i ∧ i < made' ∧ sizes i = 0

/-- As every read but the last gives something, one read for each missing byte is enough. -/
theorem drain_spec {bound : Nat} (hsizes : ∀ i, sizes i ≤ bound) (goal fuel : Nat) :
    ∀ made total : Nat, goal ≤ total + fuel → total < goal + bound →
      ∃ made' total', drain goal sizes fuel made total = some (made', total') ∧
        Drains goal bound sizes made total made' total' := by
  have hdone {made total : Nat} (hge : ¬ total < goal) (hlt : total < goal + bound) :
      Drains goal bound sizes made total made total :=
    ⟨le_rfl, Nat.le_add_right _ _, by simp, hlt, fun h ↦ absurd h hge⟩
  induction fuel with
  | zero =>
    intro made total hfuel hlt
    have hge : ¬ total < goal := by omega
    exact ⟨made, total, if_neg hge, hdone hge hlt⟩
  | succ fuel ih =>
    intro made total hfuel hlt
    rw [drain]
    by_cases hless : total < goal
    · rw [if_pos hless]
      by_cases hzero : sizes made = 0
      · rw [if_pos hzero]
        refine ⟨made + 1, total, rfl, by omega, by omega, by simp [hzero], hlt, fun _ ↦ ?_⟩
        exact ⟨made, le_rfl, Nat.lt_succ_self made, hzero⟩
      · rw [if_neg hzero]
        have hbound := hsizes made
        obtain ⟨made', total', heq, hd⟩ := ih (made + 1) (total + sizes made) (by omega)
          (by omega)
        have hle := hd.le
        refine ⟨made', total', heq, by omega, ?_, ?_, hd.lt, ?_⟩
        · have := hd.reads
          omega
        · rw [hd.total, Finset.sum_eq_sum_Ico_succ_bot hle, Nat.add_assoc]
        · intro hshort
          obtain ⟨i, hi, hlast, hnil⟩ := hd.short hshort
          exact ⟨i, by omega, hlast, hnil⟩
    · rw [if_neg hless]
      exact ⟨made, total, rfl, hdone hless hlt⟩

end

namespace PacketReceiverOverStream

variable {w : Nat}

/-! ### The callback -/

/-- What a read of the serial stream gives. -/
def Read := { bytes : List UInt8 // bytes.length ≤ 256 }

/-- `packet_receiver_over_stream.cpp:34–37`, with what the read gives. -/
def tryReceiveRead (codec : Codec) (r : PacketReceiverOverStream w) (read : Read) :
    PacketReceiverOverStream w × List (List UInt8) :=
  { r with tmp := r.tmp.copy 0 read.1 (by have := read.2; omega) }.processIncoming codec
    read.1.length read.2

/-- A read that gives something is one of the chunks of `tryReceive`, and one that gives nothing
is a call of it when nothing is there. -/
theorem tryReceiveRead_eq (codec : Codec) (r : PacketReceiverOverStream w) (reads : List Chunk) :
    (∀ chunk : Chunk, r.tryReceive codec true (chunk :: reads) =
      ((r.tryReceiveRead codec ⟨chunk.1, chunk.2.2⟩).1, reads,
        (r.tryReceiveRead codec ⟨chunk.1, chunk.2.2⟩).2)) ∧
    r.tryReceive codec false reads =
      ((r.tryReceiveRead codec ⟨[], by decide⟩).1, reads,
        (r.tryReceiveRead codec ⟨[], by decide⟩).2) := by
  refine ⟨fun chunk ↦ rfl, ?_⟩
  have hcopy : r.tmp.copy 0 [] (by decide) = r.tmp := by
    apply Subtype.ext
    simp [Buffer.copy]
  have hread : r.tryReceiveRead codec ⟨[], by decide⟩ = r.processIncoming codec 0 (by decide) := by
    unfold tryReceiveRead
    simp only [hcopy]
    rfl
  rw [hread]
  cases reads <;> rfl

/-- What the callback leaves behind: the receiver, the number of reads made, and the packets
that `process_fn_` was called with. -/
structure Drained (w : Nat) where
  receiver : PacketReceiverOverStream w
  reads : Nat
  packets : List (List UInt8)

/-- `reliable_serial.h:142–147`, after `made` reads. -/
def receiveLoop (codec : Codec) (initialBytes : BitVec w) (available : Int32) (reads : Nat → Read) :
    Nat → Nat → PacketReceiverOverStream w → Option (Drained w)
  | 0, made, r =>
    if r.bytesReceived - initialBytes < BitVec.ofInt w available.toInt then none
    else some ⟨r, made, []⟩
  | fuel + 1, made, r =>
    if r.bytesReceived - initialBytes < BitVec.ofInt w available.toInt then
      let previousBytes := r.bytesReceived
      let (r, packets) := r.tryReceiveRead codec (reads made)
      if r.bytesReceived = previousBytes then some ⟨r, made + 1, packets⟩
      else
        (receiveLoop codec initialBytes available reads fuel (made + 1) r).map fun out ↦
          { out with packets := packets ++ out.packets }
    else some ⟨r, made, []⟩

/-- `reliable_serial.h:138–148`; `available` is what `serial_.available()` gave. -/
def receiveAvailable (codec : Codec) (r : PacketReceiverOverStream w) (available : Int32)
    (reads : Nat → Read) (fuel : Nat) : Option (Drained w) :=
  if available ≤ 0 then some ⟨r, 0, []⟩
  else receiveLoop codec r.bytesReceived available reads fuel 0 r

/-! ### What is drained -/

section

variable (codec : Codec)

private theorem processPacket_received (r : PacketReceiverOverStream w) (piece : List UInt8) :
    (r.processPacket codec piece).1.bytesReceived = r.bytesReceived := by
  unfold processPacket
  dsimp only
  split
  · rfl
  · split <;> rfl

private theorem finish_received (r : PacketReceiverOverStream w) (data increment : Nat)
    (h : data + increment ≤ 256) :
    (r.finish codec data increment h).1.bytesReceived = r.bytesReceived := by
  unfold finish
  split
  · split
    · exact processPacket_received codec _ _
    · exact processPacket_received codec _ _
  · rfl

private theorem processLoop_received (r : PacketReceiverOverStream w) (data len : Nat)
    (h : data + len ≤ 256) :
    (r.processLoop codec data len h).1.bytesReceived = r.bytesReceived := by
  fun_induction processLoop with
  | case1 => rfl
  | case2 r data len h hpos hle increment hfinished r' packet hfinish r'' packets hrest ih =>
    have hfirst := finish_received codec r data (increment + 1) (by omega)
    rw [hfinish] at hfirst
    rw [hrest] at ih
    exact ih.trans hfirst
  | case3 r data len h hpos hle increment hheld ih =>
    apply ih.trans
    unfold hold
    split <;> rfl

private theorem tryReceiveRead_received (r : PacketReceiverOverStream w) (read : Read) :
    (r.tryReceiveRead codec read).1.bytesReceived =
      r.bytesReceived + BitVec.ofNat w read.1.length :=
  processLoop_received codec _ _ _ _

end

section

variable {codec : Codec} {available : Int32} {reads : Nat → Read} {initialBytes : BitVec w}
  {r : PacketReceiverOverStream w} {total : Nat}

-- The loop's test, where the count of bytes has not come round.
private theorem below_iff (hw : 32 ≤ w) (hpos : 0 < available)
    (hr : r.bytesReceived = initialBytes + BitVec.ofNat w total) (ht : total < 2 ^ 32) :
    r.bytesReceived - initialBytes < BitVec.ofInt w available.toInt ↔
      total < available.toInt.toNat := by
  have hpow : 2 ^ 32 ≤ 2 ^ w := Nat.pow_le_pow_right (by norm_num) hw
  have hlow : 0 < available.toInt := Int32.lt_iff_toInt_lt.mp hpos
  have hhigh := available.toInt_lt
  have hgoal : available.toInt % ((2 ^ w : Nat) : Int) = available.toInt :=
    Int.emod_eq_of_lt hlow.le (by omega)
  rw [hr, BitVec.add_comm, BitVec.add_sub_cancel, BitVec.lt_def, BitVec.toNat_ofNat,
    BitVec.toNat_ofInt, hgoal, Nat.mod_eq_of_lt (by omega)]

-- A read was empty where the count has not moved.
private theorem unmoved_iff (hw : 32 ≤ w) (codec : Codec) (r : PacketReceiverOverStream w)
    (read : Read) :
    (r.tryReceiveRead codec read).1.bytesReceived = r.bytesReceived ↔ read.1.length = 0 := by
  have hpow : 2 ^ 32 ≤ 2 ^ w := Nat.pow_le_pow_right (by norm_num) hw
  have hlen := read.2
  rw [tryReceiveRead_received]
  constructor
  · intro h
    have hzero : BitVec.ofNat w read.1.length = 0#w := BitVec.add_right_eq_self.mp h
    have hnat := congrArg BitVec.toNat hzero
    rwa [BitVec.toNat_ofNat, Nat.mod_eq_of_lt (by omega), BitVec.toNat_zero] at hnat
  · intro h
    rw [h]
    exact BitVec.add_zero _

/-- The loop makes the reads that draining the source by their sizes alone would make. -/
theorem receiveLoop_eq_drain (hw : 32 ≤ w) (hpos : 0 < available) (codec : Codec)
    (reads : Nat → Read) (fuel : Nat) :
    ∀ (made : Nat) {total : Nat} {r : PacketReceiverOverStream w},
      r.bytesReceived = initialBytes + BitVec.ofNat w total →
      total < available.toInt.toNat + 256 →
      (receiveLoop codec initialBytes available reads fuel made r).map
          (fun out ↦ (out.reads, out.receiver.bytesReceived)) =
        (drain available.toInt.toNat (fun i ↦ (reads i).1.length) fuel made total).map
          fun out ↦ (out.1, initialBytes + BitVec.ofNat w out.2) := by
  have hhigh := available.toInt_lt
  have hlow : 0 < available.toInt := Int32.lt_iff_toInt_lt.mp hpos
  induction fuel with
  | zero =>
    intro made total r hr ht
    rw [receiveLoop, drain, if_congr (below_iff hw hpos hr (by omega)) rfl rfl]
    split
    · rfl
    · rw [Option.map_some, Option.map_some, hr]
  | succ fuel ih =>
    intro made total r hr ht
    rw [receiveLoop, drain, if_congr (below_iff hw hpos hr (by omega)) rfl rfl]
    split
    · next hlt =>
      have hreceived := tryReceiveRead_received codec r (reads made)
      have hunmoved := unmoved_iff hw codec r (reads made)
      have hlen := (reads made).2
      dsimp only
      rcases hstep : r.tryReceiveRead codec (reads made) with ⟨r', packets⟩
      rw [hstep] at hreceived hunmoved
      dsimp only at hreceived hunmoved ⊢
      rw [if_congr hunmoved rfl rfl]
      split
      · next hzero =>
        rw [Option.map_some, Option.map_some, hreceived, hzero, hr]
        simp
      · have htotal : r'.bytesReceived =
            initialBytes + BitVec.ofNat w (total + (reads made).1.length) := by
          rw [hreceived, hr, BitVec.add_assoc, BitVec.ofNat_add]
        rw [Option.map_map, ← ih (made + 1) htotal (by omega)]
        rfl
    · rw [Option.map_some, Option.map_some, hr]

private theorem receiveLoop_of_le {fuel : Nat} :
    ∀ {fuel' made : Nat} {r : PacketReceiverOverStream w} {out : Drained w}, fuel ≤ fuel' →
      receiveLoop codec initialBytes available reads fuel made r = some out →
        receiveLoop codec initialBytes available reads fuel' made r = some out := by
  induction fuel with
  | zero =>
    intro fuel' made r out _ h
    rw [receiveLoop] at h
    split at h
    · cases h
    · next hge =>
      cases fuel' with
      | zero => rw [receiveLoop, if_neg hge, ← h]
      | succ fuel' => rw [receiveLoop, if_neg hge, ← h]
  | succ fuel ih =>
    intro fuel' made r out hle h
    obtain ⟨fuel', rfl⟩ : ∃ k, fuel' = k + 1 := ⟨fuel' - 1, by omega⟩
    rw [receiveLoop] at h ⊢
    split at h
    · next hlt =>
      rw [if_pos hlt]
      dsimp only at h ⊢
      split at h
      · next hzero =>
        rw [if_pos hzero]
        exact h
      · next hne =>
        obtain ⟨rest, hrest, heq⟩ := Option.map_eq_some_iff.mp h
        rw [if_neg hne, ih (by omega) hrest, Option.map_some, heq]
    · next hge =>
      rw [if_neg hge]
      exact h

/-- The callback returns, and what it has read by then is what draining the source gives. -/
theorem receiveAvailable_drains (hw : 32 ≤ w) (codec : Codec)
    (r : PacketReceiverOverStream w) (hpos : 0 < available) (reads : Nat → Read) :
    ∃ out total, (∀ fuel, available.toInt.toNat ≤ fuel →
        receiveAvailable codec r available reads fuel = some out) ∧
      drain available.toInt.toNat (fun i ↦ (reads i).1.length) available.toInt.toNat 0 0 =
        some (out.reads, total) ∧
      out.receiver.bytesReceived = r.bytesReceived + BitVec.ofNat w total := by
  obtain ⟨made, total, hdrain, -⟩ := drain_spec (fun i ↦ (reads i).2) available.toInt.toNat
    available.toInt.toNat 0 0 (by omega) (by omega)
  have hsim := receiveLoop_eq_drain hw hpos codec reads available.toInt.toNat 0
    (by simp : r.bytesReceived = r.bytesReceived + BitVec.ofNat w 0) (Nat.lt_add_left _ (by omega))
  rw [hdrain, Option.map_some] at hsim
  obtain ⟨out, hout, heq⟩ := Option.map_eq_some_iff.mp hsim
  obtain ⟨hreads, hbytes⟩ := Prod.mk.inj heq
  refine ⟨out, total, ?_, ?_, hbytes⟩
  · intro fuel hfuel
    rw [receiveAvailable, if_neg (Int32.not_le.mpr hpos)]
    exact receiveLoop_of_le hfuel hout
  · rw [hdrain, hreads]

end

/-- The bytes of the first reads. -/
def consumed (reads : Nat → Read) (made : Nat) : Nat :=
  ∑ i ∈ Finset.range made, (reads i).1.length

/-- The callback returns after at most `available` reads, the last of which may go past that
many bytes; it stops before them only at a read that gives nothing. Nothing but the sizes of
the reads decides how many it makes. -/
theorem receive_callback_bounded (hw : 32 ≤ w) (codec : Codec) (r : PacketReceiverOverStream w)
    (available : Int32) (reads : Nat → Read) :
    ∃ out, (∀ fuel, available.toInt.toNat ≤ fuel →
        receiveAvailable codec r available reads fuel = some out) ∧
      out.receiver.bytesReceived = r.bytesReceived + BitVec.ofNat w (consumed reads out.reads) ∧
      (available ≤ 0 → out.reads = 0) ∧
      (0 < available → (out.reads : Int) ≤ available.toInt ∧
        (consumed reads out.reads : Int) < available.toInt + 256) ∧
      ((consumed reads out.reads : Int) < available.toInt →
        ∃ i < out.reads, (reads i).1 = []) ∧
      ∀ (codec' : Codec) (r' : PacketReceiverOverStream w) (reads' : Nat → Read),
        (∀ i, (reads' i).1.length = (reads i).1.length) →
          ∃ out', (∀ fuel, available.toInt.toNat ≤ fuel →
              receiveAvailable codec' r' available reads' fuel = some out') ∧
            out'.reads = out.reads ∧ consumed reads' out'.reads = consumed reads out.reads := by
  have hsame {reads' : Nat → Read} (hsizes : ∀ i, (reads' i).1.length = (reads i).1.length)
      (made : Nat) : consumed reads' made = consumed reads made :=
    Finset.sum_congr rfl fun i _ ↦ hsizes i
  by_cases hpos : 0 < available
  · have hlow : 0 < available.toInt := Int32.lt_iff_toInt_lt.mp hpos
    obtain ⟨out, total, hout, hdrain, hbytes⟩ := receiveAvailable_drains hw codec r hpos reads
    obtain ⟨made, total', hspec, hd⟩ := drain_spec (fun i ↦ (reads i).2) available.toInt.toNat
      available.toInt.toNat 0 0 (by omega) (by omega)
    cases hdrain.symm.trans hspec
    have htotal : total = consumed reads out.reads := by
      rw [hd.total, Nat.zero_add, consumed, Finset.range_eq_Ico]
    have hreads := hd.reads
    have hlt := hd.lt
    rw [htotal] at hbytes hlt
    refine ⟨out, hout, hbytes, ?_, ?_, ?_, ?_⟩
    · intro hle
      exact absurd hpos (Int32.not_lt.mpr hle)
    · intro _
      omega
    · intro hless
      obtain ⟨i, -, hi, hnil⟩ := hd.short (by omega)
      exact ⟨i, hi, List.eq_nil_of_length_eq_zero hnil⟩
    · intro codec' r' reads' hsizes
      obtain ⟨out', total'', hout', hdrain', -⟩ :=
        receiveAvailable_drains hw codec' r' hpos reads'
      rw [funext hsizes, hdrain] at hdrain'
      obtain ⟨hmade, -⟩ := Prod.mk.inj (Option.some.inj hdrain')
      exact ⟨out', hout', hmade.symm, by rw [← hmade, hsame hsizes]⟩
  · have hle : available ≤ 0 := Int32.not_lt.mp hpos
    refine ⟨⟨r, 0, []⟩, fun fuel _ ↦ if_pos hle, by simp [consumed], fun _ ↦ rfl, ?_, ?_, ?_⟩
    · intro h
      exact absurd h hpos
    · intro hless
      have hnonpos : available.toInt ≤ 0 := Int32.le_iff_toInt_le.mp hle
      simp only [consumed, Finset.range_zero, Finset.sum_empty] at hless
      omega
    · intro codec' r' reads' hsizes
      exact ⟨⟨r', 0, []⟩, fun fuel _ ↦ if_pos hle, rfl, hsame hsizes 0⟩

/-- A backlog of three bytes that comes one byte at a time, with no end to it. -/
theorem receive_callback_single_bytes :
    ∃ out, (∀ fuel, 3 ≤ fuel → receiveAvailable tinyframeCodec.toCodec (new 32 zeros zeros) 3
        (fun _ ↦ ⟨[0x55], by decide⟩) fuel = some out) ∧ out.reads = 3 := by
  obtain ⟨out, hout, -, -, hbound, hshort, -⟩ := receive_callback_bounded (le_refl 32)
    tinyframeCodec.toCodec (new 32 zeros zeros) 3 fun _ ↦ ⟨[0x55], by decide⟩
  refine ⟨out, hout, ?_⟩
  have hconsumed : consumed (fun _ ↦ ⟨[0x55], by decide⟩) out.reads = out.reads := by
    simp [consumed]
  have hthree : (3 : Int32).toInt = 3 := by decide
  have hle := (hbound (by decide)).1
  have hge : ¬ (out.reads : Int) < 3 := by
    intro hlt
    obtain ⟨i, -, hnil⟩ := hshort (by rw [hconsumed, hthree]; exact hlt)
    cases hnil
  rw [hthree] at hle
  omega

end PacketReceiverOverStream

end RooTransport.Packets
