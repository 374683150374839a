import RooTransport.Link.TransmitterOrder
import RooTransport.Link.TransmitterStream

/-!
# First transmissions and frozen packets

All that a transmitter sends in one connection, from `init` on, by the number of the packet since
then. Packets are sent for the first time one after the other, and every transmission of a packet
carries the same bytes, however `tryWrite`, `flush` and `close` come between: the packet is
finished when it is first sent (`transmitter.cpp:23–194`). This holds as long as what `ack` marks
was sent. An old acknowledgement that comes when the window has moved on can mark a packet that
was not (`transmitter.cpp:257–270`), and that packet is then passed over.
-/

namespace RooTransport.Link

open RooTransport.Base RingBuffer

/-- A packet that may be sent: the final one without data, or one with some. -/
inductive OutBuffer.Shaped (x : OutBuffer) : Prop
  | fin : x.finished = true → getPacketType x.header = some .fin → x.payload = [] → Shaped x
  | data : getPacketType x.header = some .data → x.payload ≠ [] → x.payload.length ≤ 248 → Shaped x

namespace OutBuffer

private theorem shaped_eos (pos : SeqNum) (controlBit : Bool) :
    (OutBuffer.init pos controlBit).markFinal.finish.Shaped := by
  apply Shaped.fin
  · rfl
  · exact (congrArg getPacketType (setPacketHeaderTypeFin_format pos controlBit)).trans
      (getPacketType_format ..)
  · rfl

/-- A buffer keeps its shape as long as its header and payload stay and it stays finished. -/
theorem Shaped.congr {x y : OutBuffer} (h : x.Shaped) (hhead : y.header = x.header)
    (hpay : y.payload = x.payload) (hfin : x.finished = true → y.finished = true) : y.Shaped := by
  cases h with
  | fin hf ht hp => exact .fin (hfin hf) (hhead ▸ ht) (hpay ▸ hp)
  | data ht hne hle => exact .data (hhead ▸ ht) (hpay ▸ hne) (hpay ▸ hle)

private theorem Shaped.extended {x : OutBuffer} (h : x.Shaped) (hopen : x.finished = false)
    {bytes : List UInt8} (hfit : x.payload.length + bytes.length ≤ 248) :
    (x.extended bytes).Shaped := by
  cases h with
  | fin hf => exact absurd (hopen.symm.trans hf) (by decide)
  | data ht hne hle =>
    apply Shaped.data
    · rw [header_extended]
      exact ht
    · rw [payload_extended]
      exact List.append_ne_nil_of_left_ne_nil hne bytes
    · rw [payload_extended, List.length_append]
      exact hfit

/-- A new packet has its shape with its first bytes. -/
theorem shaped_extended_init (pos : SeqNum) (controlBit : Bool) {bytes : List UInt8}
    (hne : bytes ≠ []) (hfit : bytes.length ≤ 248) :
    ((OutBuffer.init pos controlBit).extended bytes).Shaped := by
  apply Shaped.data
  · rw [header_extended]
    exact getPacketType_format ..
  · rw [payload_extended]
    exact hne
  · rw [payload_extended]
    exact hfit

/-- The size of the packet as it is sent. -/
def SizedPacket (bytes : List UInt8) : Prop :=
  (getPacketType (loadBeU16 bytes) = some .data ∧ 3 ≤ bytes.length ∧ bytes.length ≤ 250) ∨
    (getPacketType (loadBeU16 bytes) = some .fin ∧ bytes.length = 2)

private theorem loadBeU16_data (x : OutBuffer) : loadBeU16 x.data = x.header := loadBeU16_store ..

/-- The packet of a buffer that has its shape has the size of its type. -/
theorem Shaped.sizedPacket {x : OutBuffer} (h : x.Shaped) : SizedPacket x.data := by
  have hlen : x.data.length = 2 + x.payload.length := by
    rw [OutBuffer.data, List.length_append]
    rfl
  rw [SizedPacket, loadBeU16_data, hlen]
  cases h with
  | fin _ ht hp =>
    rw [hp]
    exact .inr ⟨ht, rfl⟩
  | data ht hne hle =>
    have hpos := List.length_pos_iff.mpr hne
    exact .inl ⟨ht, by omega, by omega⟩

end OutBuffer

namespace Transmitter

variable {n : LinkBufferSize}

/-- Every packet of the window has its shape. -/
def AllShaped (t : Transmitter n) (b e : Int) : Prop :=
  ∀ p, b ≤ p → p < e → (t.bufferAt p).Shaped

section

variable {t t' : Transmitter n} {b e b' e' f : Int}

/-- One buffer that keeps its shape leaves all buffers shaped. -/
theorem AllShaped.update {i : Fin (2 ^ n.val)} {x : OutBuffer} (h : t.AllShaped b e)
    (hbuf : t'.outBuffers = Function.update t.outBuffers i x)
    (hx : (t.outBuffers i).Shaped → x.Shaped) : t'.AllShaped b e := by
  intro p hl hu
  rw [bufferAt, hbuf]
  exact holds_update hx (h p hl hu)

private theorem AllShaped.push {x : OutBuffer} (h : t.AllShaped b e) (hroom : e < b + 2 ^ n.val)
    (hbuf : t'.outBuffers = (t.withBuffer e x).outBuffers) (hx : x.Shaped) :
    t'.AllShaped b (e + 1) := by
  intro p hl hu
  obtain ⟨-, heq⟩ | ⟨hlt, heq⟩ := bufferAt_pushed hbuf hroom hl hu
  · rw [heq]
    exact hx
  · rw [heq]
    exact h p hl hlt

/-- Every effect but the opening of a packet keeps the shapes. -/
theorem AllShaped.moves {eff : Effect} (h : t.AllShaped b e)
    (hm : Moves (t, b, e) eff (t', b', e')) (hne : ∀ p, eff ≠ .alloc p) : t'.AllShaped b' e' := by
  cases hm with
  | alloc => exact absurd rfl (hne e)
  | write i bytes _ _ hopen _ hfit => exact h.update rfl fun hx ↦ hx.extended hopen hfit
  | release | himark | calm | closeLater => exact h
  | flush | skip | rush => exact h.update rfl fun hx ↦ hx.congr rfl rfl id
  | closeNow ring _ hroom => exact h.push hroom rfl (OutBuffer.shaped_eos _ _)
  | lateEos ring _ hroom => exact h.push hroom rfl (OutBuffer.shaped_eos _ _)
  | finish => exact h.update rfl fun hx ↦ hx.congr rfl rfl fun _ ↦ rfl
  | send =>
    exact h.update rfl fun hx ↦ hx.congr (finishBuffer_header _) (finishBuffer_payload _)
      fun _ ↦ finishBuffer_finished _
  | pop => exact fun p hl hu ↦ h p (by omega) hu
  | reset => exact fun p hl hu ↦ by omega
  | stray p x _ _ _ _ hhead hpay hfin =>
    exact h.update rfl fun hx ↦ hx.congr hhead hpay fun _ ↦ hfin

-- A round of `tryWrite` that opens a packet puts bytes into it.
private theorem AllShaped.round {t1 t2 : Transmitter n} {i : Fin (2 ^ n.val)} {buf : List UInt8}
    {written : Nat} {ready : Bool} (h : t.AllShaped b e) (hs : t.outRing.Spans b e) (hne : buf ≠ [])
    (hp : t.provideBuffer = .ok (some (i, t1))) (hf : t1.fill i buf = .ok (t2, written, ready)) :
    ∃ e', t2.outRing.Spans b e' ∧ t2.AllShaped b e' := by
  unfold fill at hf
  cases hw : (t1.outBuffers i).write buf with
  | error c => rw [hw] at hf; cases hf
  | ok out =>
    obtain ⟨k, x⟩ := out
    rw [hw] at hf
    cases hf
    unfold provideBuffer at hp
    split at hp
    · cases hp
    split at hp
    · -- the current packet is carried on
      cases hp
      refine ⟨e, hs, h.update rfl fun hx ↦ ?_⟩
      rcases OutBuffer.write_cases hne hw with ⟨-, -, rfl⟩ | ⟨hopen, -, hle, hfit, rfl, -⟩
      · exact hx
      · exact hx.extended hopen (by rw [List.length_take]; omega)
    split at hp
    · cases hp
    split at hp
    · cases hp
    next hfree =>
    have hroom : e < b + 2 ^ n.val := by
      have := hs.slotsFree_eq
      omega
    obtain ⟨ring, hpush, hr⟩ := hs.push_ok hroom
    rw [hpush] at hp
    simp only [offsetFor_ofPos] at hp
    cases hp
    dsimp only at hw ⊢
    rw [Function.update_self] at hw
    refine ⟨e + 1, hr, h.push hroom (Function.update_idem ..) ?_⟩
    rcases OutBuffer.write_cases hne hw with ⟨hfin, -, -⟩ | ⟨-, hpos, hle, hfit, rfl, -⟩
    · cases hfin
    · apply OutBuffer.shaped_extended_init
      · exact List.ne_nil_of_length_pos (by rw [List.length_take]; omega)
      · have hnone : (OutBuffer.init (.ofPos e) t.controlBit).payload.length = 0 := rfl
        rw [List.length_take]
        omega

private theorem AllShaped.tryWriteLoop (fuel : Nat) : ∀ {t t' : Transmitter n} {b e : Int}
    {buf : List UInt8} {written : Nat} {ready : Bool}, t.AllShaped b e → t.outRing.Spans b e →
    buf ≠ [] → Transmitter.tryWriteLoop fuel t buf = .ok (t', written, ready) →
    ∃ e', t'.outRing.Spans b e' ∧ t'.AllShaped b e' := by
  induction fuel with
  | zero =>
    intro t t' b e buf written ready h hs _ hok
    cases hok
    exact ⟨e, hs, h⟩
  | succ fuel ih =>
    intro t t' b e buf written ready h hs hne hok
    rw [Transmitter.tryWriteLoop] at hok
    cases hp : t.provideBuffer with
    | error c => rw [hp] at hok; cases hok
    | ok got =>
      rw [hp] at hok
      rcases got with - | ⟨i, t1⟩
      · cases hok
        exact ⟨e, hs, h⟩
      dsimp only at hok
      cases hf : t1.fill i buf with
      | error c => rw [hf] at hok; cases hok
      | ok out =>
        obtain ⟨t2, k, ready2⟩ := out
        rw [hf] at hok
        obtain ⟨e2, hs2, h2⟩ := h.round hs hne hp hf
        dsimp only at hok
        split at hok
        · next hlt =>
          cases hl : Transmitter.tryWriteLoop fuel t2 (buf.drop k) with
          | error c => rw [hl] at hok; cases hok
          | ok out =>
            obtain ⟨t3, more, ready3⟩ := out
            rw [hl] at hok
            cases hok
            have hne' : buf.drop k ≠ [] :=
              List.ne_nil_of_length_pos (by rw [List.length_drop]; omega)
            exact ih h2 hs2 hne' hl
        · cases hok
          exact ⟨e2, hs2, h2⟩

/-- `tryWrite` leaves no packet without data. -/
theorem AllShaped.tryWrite {buf : List UInt8} {written : Nat} {ready : Bool}
    (h : t.AllShaped b e) (hs : t.outRing.Spans b e)
    (hok : t.tryWrite buf = .ok (t', written, ready)) :
    ∃ e', t'.outRing.Spans b e' ∧ t'.AllShaped b e' := by
  unfold Transmitter.tryWrite at hok
  split at hok
  · cases hok
    exact ⟨e, hs, h⟩
  next hlen =>
  split at hok
  · cases hok
    exact ⟨e, hs, h⟩
  split at hok
  · cases hok
    exact ⟨e, hs, h⟩
  · exact h.tryWriteLoop _ hs (fun hnil ↦ hlen (by rw [hnil, List.length_nil])) hok

/-- A packet that was sent keeps its bytes. -/
theorem Moves.data_eq {eff : Effect} (hm : Moves (t, b, e) eff (t', b', e'))
    (h : t.Ordered b e f) (hk : eff.InOrder f) {p : Int} (hl : b' ≤ p) (hu : p < f) :
    (t'.bufferAt p).data = (t.bufferAt p).data := by
  have hmono := hm.mono h.spans
  have hfe := h.le_end
  have hsent := h.sent p (by omega) hu
  have hother {x : OutBuffer} (hroom : e < b + 2 ^ n.val) :
      ((t.withBuffer e x).bufferAt p).data = (t.bufferAt p).data := by
    rw [bufferAt_withBuffer_ne t x (by omega) (by omega) (by omega)]
  cases hm with
  | alloc ring _ _ _ _ hroom => exact hother hroom
  | closeNow ring _ hroom => exact hother hroom
  | lateEos ring _ hroom => exact hother hroom
  | write i bytes _ _ hopen =>
    by_cases hi : slotAt n p = i
    · have hfin : (t.outBuffers i).finished = true := hi ▸ hsent.finished
      exact absurd (hopen.symm.trans hfin) (by decide)
    · exact congrArg OutBuffer.data (Function.update_of_ne hi ..)
  | release | himark | calm | closeLater | pop => rfl
  | flush | skip | rush | finish => exact field_update OutBuffer.data (by rfl) _
  | send =>
    refine field_update OutBuffer.data ?_ _
    exact congrArg₂ (fun x y ↦ storeBeU16 x ++ y) (finishBuffer_header _) (finishBuffer_payload _)
  | reset => omega
  | stray => exact hk.elim

/-- A later state of the window from `b` on, with the packets before `f` that it still has as they
were. -/
def Keeps (t : Transmitter n) (b f : Int) (x : Placed n) : Prop :=
  b ≤ x.2.1 ∧ ∀ p, x.2.1 ≤ p → p < f → (x.1.bufferAt p).data = (t.bufferAt p).data

private theorem Keeps.refl (t : Transmitter n) (b e f : Int) : t.Keeps b f (t, b, e) :=
  ⟨le_rfl, fun _ _ _ ↦ rfl⟩

private theorem Keeps.moves {x y : Placed n} {eff : Effect} (h : t.Keeps b f x)
    (ho : x.1.Ordered x.2.1 x.2.2 f) (hm : Moves x eff y) (hk : eff.InOrder f) :
    t.Keeps b f y := by
  obtain ⟨t1, b1, e1⟩ := x
  obtain ⟨t2, b2, e2⟩ := y
  have hmono := hm.mono ho.spans
  refine ⟨h.1.trans hmono.1, fun p hl hu ↦ ?_⟩
  rw [hm.data_eq ho hk hl hu]
  exact h.2 p (hmono.1.trans hl) hu

/-- Calls that neither send nor acknowledge. -/
theorem Ordered.quiet {effs : List Effect} (h : t.Ordered b e f)
    (hp : Path Moves (t, b, e) effs (t', b', e')) (hq : ∀ eff ∈ effs, eff.Quiet) :
    t'.Ordered b' e' f ∧ t.Keeps b f (t', b', e') ∧ t'.nextToSend = t.nextToSend ∧ b' = b := by
  refine hp.invariant (fun x ↦ x.1.Ordered x.2.1 x.2.2 f ∧ t.Keeps b f x ∧
    x.1.nextToSend = t.nextToSend ∧ x.2.1 = b) (fun x eff y heff hx hm ↦ ?_)
    ⟨h, .refl t b e f, rfl, rfl⟩
  obtain ⟨ho, hk, hnext, hb⟩ := hx
  obtain ⟨ho', hnext', hb'⟩ := ho.quiet_moves hm (hq eff heff)
  exact ⟨ho', hk.moves ho hm ((hq eff heff).inOrder f).1, hnext'.trans hnext, hb'.trans hb⟩

end

/-! ### One connection -/

/-- A transmitter with what it has done since `init`: the number of packets dropped, and the
transmissions, each with the number of its packet and the bytes sent. -/
structure Connection (n : LinkBufferSize) where
  transmitter : Transmitter n
  dropped : Nat
  transmissions : List (Nat × List UInt8)

namespace Connection

/-- The transmission that a call makes. -/
def transmits (c : Connection n) : Act → List (Nat × List UInt8)
  | .getBufferToSend now draw next =>
    match c.transmitter.getBufferToSend now draw next with
    | (t, some pos, _) =>
      [(c.dropped + forwardDist pos.raw c.transmitter.outRing.begin_.raw,
        (t.getOutBuffer pos).data)]
    | (_, none, _) => []
  | _ => []

/-- A call on the transmitter, with what it drops and what it transmits. -/
def step (c : Connection n) (a : Act) : Except Check (Connection n) :=
  (c.transmitter.step a).map fun t ↦
    { transmitter := t
      dropped := c.dropped + forwardDist t.outRing.begin_.raw c.transmitter.outRing.begin_.raw
      transmissions := c.transmissions ++ c.transmits a }

/-- The calls of one connection: no other `init`, `setConnected` on the stream that waits for it,
and acknowledgements that mark only packets that were sent, at the positions where `ack` applies
them. A late acknowledgement may name sent packets and still mark others. -/
def InConnection (c : Connection n) : Act → Prop
  | .init _ _ => False
  | .setConnected _ _ => c.transmitter.state = .connecting
  | a => c.transmitter.AcksSent a

instance (c : Connection n) : (a : Act) → Decidable (c.InConnection a)
  | .init _ _ => .isFalse id
  | .setConnected _ _ => inferInstanceAs (Decidable (_ = _))
  | .ack controlBit seqId ackBitmap =>
    inferInstanceAs (Decidable (c.transmitter.AcksSent (.ack controlBit seqId ackBitmap)))
  | .tryWrite _ | .flush | .close | .getBufferToSend _ _ _ | .updateRecvHimark _ _ | .setBroken
  | .reset => .isTrue trivial

/-- The packets of the window that were sent are its first `k`, and `next_to_send_` is not past
the one after them. -/
structure SentFirst (t : Transmitter n) (k : Nat) : Prop where
  le_used : k ≤ t.outRing.slotsUsed
  sent_iff : ∀ i < t.outRing.slotsUsed,
    0 < (t.getOutBuffer (t.outRing.begin_.add i)).sendCounter ↔ i < k
  next_le : t.nextToSend ≤ t.outRing.begin_.add k

/-- A transmission of packet `x.1` of a stream that began at `start`. -/
structure Transmission (start : SeqNum) (x : Nat × List UInt8) : Prop where
  numbered : getPacketSeq (loadBeU16 x.2) = (start.add x.1).raw &&& 0x0FFF#16
  sized : OutBuffer.SizedPacket x.2

/-- What is known of the transmissions of the first `m` packets. -/
structure Recorded (start : SeqNum) (transmissions : List (Nat × List UInt8)) (m : Nat) :
    Prop where
  in_order : (transmissions.map Prod.fst).eraseDups = List.range m
  frozen : ∀ x ∈ transmissions, ∀ y ∈ transmissions, x.1 = y.1 → x.2 = y.2
  each : ∀ x ∈ transmissions, Transmission start x

/-- A connection that began at position `s`, and whose stream is not over. -/
structure Alive (c : Connection n) (s b e f : Int) : Prop where
  ordered : c.transmitter.Ordered b e f
  follows : c.transmitter.Follows f
  shaped : c.transmitter.AllShaped b e
  numbered : c.transmitter.Numbered b e
  begin_eq : b = s + c.dropped
  recorded : Recorded (.ofPos s) c.transmissions (f - s).toNat
  kept : ∀ x ∈ c.transmissions, b ≤ s + x.1 → x.2 = (c.transmitter.bufferAt (s + x.1)).data

/-- A connection whose stream was reset or broken. -/
structure Over (c : Connection n) (s e : Int) : Prop where
  spans : c.transmitter.outRing.Spans e e
  state : c.transmitter.state = .idle ∨ c.transmitter.state = .broken
  next : ∃ p, c.transmitter.nextToSend = .ofPos p ∧ p ≤ e ∧ e ≤ p + 2048
  recorded : ∃ m, Recorded (.ofPos s) c.transmissions m

section

variable {start : SeqNum} {transmissions : List (Nat × List UInt8)} {m : Nat} {bytes : List UInt8}

private theorem Recorded.concat {k m' : Nat} (h : Recorded start transmissions m)
    (horder : ((transmissions.map Prod.fst) ++ [k]).eraseDups = List.range m')
    (hsame : ∀ x ∈ transmissions, x.1 = k → x.2 = bytes) (hnew : Transmission start (k, bytes)) :
    Recorded start (transmissions ++ [(k, bytes)]) m' := by
  refine ⟨?_, fun x hx y hy hxy ↦ ?_, fun x hx ↦ ?_⟩
  · rw [List.map_append]
    exact horder
  · rcases List.mem_append.mp hx with hx | hx
    · rcases List.mem_append.mp hy with hy | hy
      · exact h.frozen x hx y hy hxy
      · rw [List.mem_singleton.mp hy] at hxy ⊢
        exact hsame x hx hxy
    · rcases List.mem_append.mp hy with hy | hy
      · rw [List.mem_singleton.mp hx] at hxy ⊢
        exact (hsame y hy hxy.symm).symm
      · rw [List.mem_singleton.mp hx, List.mem_singleton.mp hy]
  · rcases List.mem_append.mp hx with hx | hx
    · exact h.each x hx
    · rw [List.mem_singleton.mp hx]
      exact hnew

/-- A packet is sent again. -/
theorem Recorded.again {k : Nat} (h : Recorded start transmissions m) (hk : k < m)
    (hsame : ∀ x ∈ transmissions, x.1 = k → x.2 = bytes) (hnew : Transmission start (k, bytes)) :
    Recorded start (transmissions ++ [(k, bytes)]) m := by
  have hmem : k ∈ transmissions.map Prod.fst := by
    rw [← List.mem_eraseDups, h.in_order]
    exact List.mem_range.mpr hk
  apply h.concat ?_ hsame hnew
  rw [List.eraseDups_append]
  simp [List.removeAll, hmem, h.in_order]

/-- The next packet is sent for the first time. -/
theorem Recorded.first (h : Recorded start transmissions m)
    (hnew : Transmission start (m, bytes)) :
    Recorded start (transmissions ++ [(m, bytes)]) (m + 1) := by
  have hmem : m ∉ transmissions.map Prod.fst := by
    rw [← List.mem_eraseDups, h.in_order, List.mem_range]
    exact lt_irrefl m
  have hnone (x : Nat × List UInt8) (hx : x ∈ transmissions) (hxm : x.1 = m) : x.2 = bytes :=
    absurd (List.mem_map.mpr ⟨x, hx, hxm⟩) hmem
  apply h.concat ?_ hnone hnew
  rw [List.eraseDups_append, h.in_order, List.range_succ]
  simp [List.removeAll, hmem, List.eraseDups_cons]

end

section

variable {c : Connection n} {t' : Transmitter n} {s b e b' e' f : Int}

/-- The stream goes on without a transmission. -/
theorem Alive.goes (h : c.Alive s b e f) (ho : t'.Ordered b' e' f) (hf : t'.Follows f)
    (hs : t'.AllShaped b' e') (hn : t'.Numbered b' e') (hk : c.transmitter.Keeps b f (t', b', e')) :
    Alive ⟨t', c.dropped + forwardDist t'.outRing.begin_.raw c.transmitter.outRing.begin_.raw,
      c.transmissions⟩ s b' e' f := by
  have hcap := capacity_le n
  have hus := h.ordered.spans.used
  have hfe := h.ordered.le_end
  have hbf := ho.begin_le
  have hdist : (forwardDist t'.outRing.begin_.raw c.transmitter.outRing.begin_.raw : Int) =
      b' - b := by
    rw [ho.spans.begin_eq, h.ordered.spans.begin_eq]
    exact forwardDist_wrap hk.1 (by norm_num; omega)
  refine ⟨ho, hf, hs, hn, ?_, h.recorded, fun x hx hl ↦ ?_⟩
  · have := h.begin_eq
    dsimp only
    push_cast
    omega
  · have hle := hk.1
    have hm : x.1 ∈ List.range (f - s).toNat := by
      rw [← h.recorded.in_order, List.mem_eraseDups]
      exact List.mem_map_of_mem hx
    have hlt := List.mem_range.mp hm
    rw [h.kept x hx (by omega)]
    exact (hk.2 _ hl (by omega)).symm

private theorem Alive.unchanged (h : c.Alive s b e f) :
    Alive ⟨c.transmitter, c.dropped + forwardDist c.transmitter.outRing.begin_.raw
      c.transmitter.outRing.begin_.raw, c.transmissions⟩ s b e f :=
  h.goes h.ordered h.follows h.shaped h.numbered (.refl _ b e f)

/-- A packet is handed out. -/
theorem Alive.sends (h : c.Alive s b e f) {p : Int} (hl : b ≤ p) (hu : p < e) (hle : p ≤ f)
    {now : Uptime} {draw : Nat}
    (ht : t' = c.transmitter.handOut (.ofPos p) (finishBuffer (c.transmitter.bufferAt p))
      now draw) :
    Alive ⟨t', c.dropped + forwardDist t'.outRing.begin_.raw c.transmitter.outRing.begin_.raw,
      c.transmissions ++ [(c.dropped +
        forwardDist (SeqNum.ofPos p).raw c.transmitter.outRing.begin_.raw,
        (t'.getOutBuffer (.ofPos p)).data)]⟩ s b e (max f (p + 1)) := by
  have hb := h.begin_eq
  have hbf := h.ordered.begin_le
  obtain ⟨ho, hf⟩ := h.ordered.handOut hl hu hle now draw
  rw [← ht] at ho hf
  rw [handOut_ofPos] at ht
  have hdist := h.ordered.spans.forwardDist_eq hl hu
  have hindex : c.dropped + forwardDist (SeqNum.ofPos p).raw c.transmitter.outRing.begin_.raw =
      (p - s).toNat := by omega
  have hsame : forwardDist t'.outRing.begin_.raw c.transmitter.outRing.begin_.raw = 0 := by
    rw [ht]
    simp [forwardDist, withBuffer]
  -- sending leaves every packet's bytes as they are
  have hdata (i : Fin (2 ^ n.val)) :
      (t'.outBuffers i).data = (c.transmitter.outBuffers i).data := by
    rw [ht]
    refine field_update OutBuffer.data ?_ i
    exact congrArg₂ (fun x y ↦ storeBeU16 x ++ y) (finishBuffer_header _) (finishBuffer_payload _)
  have hshaped : t'.AllShaped b e := by
    rw [ht]
    exact h.shaped.update rfl fun hx ↦ hx.congr (finishBuffer_header _) (finishBuffer_payload _)
      fun _ ↦ finishBuffer_finished _
  have hnumbered : t'.Numbered b e := by
    rw [ht]
    exact h.numbered.congr (field_update OutBuffer.header (finishBuffer_header _))
  have hpos : s + ((p - s).toNat : Int) = p := by omega
  have hnew : Transmission (.ofPos s) ((p - s).toNat, (t'.bufferAt p).data) := by
    refine ⟨?_, (hshaped p hl hu).sizedPacket⟩
    rw [SeqNum.ofPos_add, hpos, OutBuffer.loadBeU16_data]
    exact hnumbered p hl hu
  rw [hindex, hsame, getOutBuffer_ofPos]
  refine ⟨ho, hf, hshaped, hnumbered, hb, ?_, fun x hx hl ↦ ?_⟩
  · dsimp only
    by_cases hfirst : p = f
    · have hm : (max f (p + 1) - s).toNat = (f - s).toNat + 1 := by omega
      rw [hm, hfirst]
      rw [hfirst] at hnew
      exact h.recorded.first hnew
    · have hm : (max f (p + 1) - s).toNat = (f - s).toNat := by omega
      rw [hm]
      refine h.recorded.again (by omega) (fun x hx hxp ↦ ?_) hnew
      have hx1 : s + (x.1 : Int) = p := by omega
      rw [h.kept x hx (by omega), hx1]
      exact (hdata _).symm
  · rcases List.mem_append.mp hx with hx | hx
    · rw [h.kept x hx hl]
      exact (hdata _).symm
    · rw [List.mem_singleton.mp hx]
      dsimp only
      rw [hpos]

private theorem Alive.quiet {effs : List Effect} (h : c.Alive s b e f)
    (hp : Path Moves (c.transmitter, b, e) effs (t', b', e')) (hq : ∀ eff ∈ effs, eff.Quiet)
    (hs : t'.AllShaped b' e') :
    Alive ⟨t', c.dropped + forwardDist t'.outRing.begin_.raw c.transmitter.outRing.begin_.raw,
      c.transmissions⟩ s b' e' f := by
  obtain ⟨ho, hk, hnext, -⟩ := h.ordered.quiet hp hq
  refine h.goes ho ?_ hs ?_ hk
  · rw [Follows, hnext]
    exact h.follows
  · exact hp.invariant (fun x ↦ x.1.Numbered x.2.1 x.2.2) (fun _ _ _ _ hx hm ↦ hx.moves hm)
      h.numbered

private theorem Alive.shaped_path {effs : List Effect} (h : c.Alive s b e f)
    (hp : Path Moves (c.transmitter, b, e) effs (t', b', e'))
    (hne : ∀ eff ∈ effs, ∀ p, eff ≠ .alloc p) : t'.AllShaped b' e' :=
  hp.invariant (fun x ↦ x.1.AllShaped x.2.1 x.2.2)
    (fun _ eff _ heff hx hm ↦ hx.moves hm (hne eff heff)) h.shaped

private theorem Alive.over (h : c.Alive s b e f) (hs : t'.outRing.Spans e e)
    (hst : t'.state = .idle ∨ t'.state = .broken)
    (hnext : t'.nextToSend = c.transmitter.nextToSend) (dropped : Nat) :
    Over ⟨t', dropped, c.transmissions⟩ s e := by
  obtain ⟨p, hp, hle, hge⟩ := h.follows
  have hcap := capacity_le n
  have hus := h.ordered.spans.used
  have hbf := h.ordered.begin_le
  have hfe := h.ordered.le_end
  exact ⟨hs, hst, ⟨p, hnext.trans hp, by omega, by omega⟩, _, h.recorded⟩

private theorem getBufferToSend_of_not_connected {t : Transmitter n} (hst : t.state ≠ .connected)
    {now : Uptime} {draw next : Nat} : t.getBufferToSend now draw next = (t, none, next) :=
  if_pos hst

private theorem Alive.tryWrite {buf : List UInt8} {written : Nat} {ready : Bool}
    (h : c.Alive s b e f) (hw : c.transmitter.tryWrite buf = .ok (t', written, ready)) :
    ∃ e', Alive ⟨t', c.dropped + forwardDist t'.outRing.begin_.raw
      c.transmitter.outRing.begin_.raw, c.transmissions⟩ s b e' f := by
  have hs := h.ordered.spans
  obtain ⟨-, effs, e1, hpath, -, hk⟩ := tryWrite_path hs hw
  obtain ⟨e2, hs2, hshaped⟩ := h.shaped.tryWrite hs hw
  obtain rfl : e2 = e1 := by
    have h1 := (path_spans hpath hs).slotsUsed_eq
    have h2 := hs2.slotsUsed_eq
    omega
  exact ⟨e2, h.quiet hpath (fun eff heff ↦ (hk eff heff).quiet) hshaped⟩

private theorem Alive.getBufferToSend (h : c.Alive s b e f) (now : Uptime) (draw next : Nat) :
    ∃ f', Alive ⟨(c.transmitter.getBufferToSend now draw next).1, c.dropped +
      forwardDist (c.transmitter.getBufferToSend now draw next).1.outRing.begin_.raw
        c.transmitter.outRing.begin_.raw,
      c.transmissions ++ c.transmits (.getBufferToSend now draw next)⟩ s b e f' := by
  simp only [transmits]
  by_cases hst : c.transmitter.state = .connected
  · rcases h.ordered.getBufferToSend h.follows hst now draw next with
      ⟨p, hl, hu, hle, heq⟩ | ⟨next', stop, found, heq, -⟩
    · simp only [heq]
      exact ⟨_, h.sends hl hu hle rfl⟩
    · simp only [heq, List.append_nil]
      exact ⟨f, h.unchanged⟩
  · simp only [getBufferToSend_of_not_connected hst, List.append_nil]
    exact ⟨f, h.unchanged⟩

-- the invariant of the path is that the packets sent so far keep their bytes
private theorem Alive.ack {controlBit : Bool} {seqId : BitVec 16} {bitmap : List UInt8}
    {rushed : Bool} (h : c.Alive s b e f)
    (hg : c.transmitter.AcksSent (.ack controlBit seqId bitmap))
    (hack : c.transmitter.ack controlBit seqId bitmap = .ok (t', rushed)) :
    ∃ b' e', Alive ⟨t', c.dropped + forwardDist t'.outRing.begin_.raw
      c.transmitter.outRing.begin_.raw, c.transmissions⟩ s b' e' f := by
  obtain ⟨b1, e1, ho, hshaped, hn, hk⟩ := h.ordered.ack_keeps hg hack
    (fun x ↦ x.1.AllShaped x.2.1 x.2.2 ∧ x.1.Numbered x.2.1 x.2.2 ∧ c.transmitter.Keeps b f x)
    (fun x eff y hx hi hm hin hloud ↦ ⟨hi.1.moves hm fun p hp ↦ hloud (hp ▸ trivial),
      hi.2.1.moves hm, hi.2.2.moves hx hm hin⟩)
    ⟨h.shaped, h.numbered, .refl _ b e f⟩
  exact ⟨b1, e1, h.goes ho (h.follows.ack ho hack) hshaped hn hk⟩

/-- Every call of the connection keeps the account of it. -/
theorem Alive.step {c' : Connection n} {a : Act} (h : c.Alive s b e f) (hg : c.InConnection a)
    (hstep : c.step a = .ok c') : (∃ b' e' f', c'.Alive s b' e' f') ∨ ∃ e', c'.Over s e' := by
  obtain ⟨t', ht, rfl⟩ := map_eq_ok.mp hstep
  have hs := h.ordered.spans
  cases a with
  | init => exact hg.elim
  | setConnected size bit =>
    cases ht
    simp only [transmits, List.append_nil]
    exact .inl ⟨b, e, f, h.goes (h.ordered.congr rfl (fun _ hx ↦ hx) fun _ hx ↦ hx) h.follows
      h.shaped h.numbered (.refl _ b e f)⟩
  | tryWrite buf =>
    obtain ⟨⟨t1, written, ready⟩, hw, rfl⟩ := map_eq_ok.mp ht
    obtain ⟨e', ha⟩ := h.tryWrite hw
    simp only [transmits, List.append_nil]
    exact .inl ⟨b, e', f, ha⟩
  | flush =>
    cases ht
    obtain ⟨effs, hpath, hk⟩ := flush_path c.transmitter b e
    simp only [transmits, List.append_nil]
    refine .inl ⟨b, e, f, h.quiet hpath (fun eff heff ↦ ?_)
      (h.shaped_path hpath fun eff heff p ↦ ?_)⟩
    · rw [hk eff heff]
      trivial
    · rw [hk eff heff]
      simp
  | close =>
    obtain ⟨t1, effs, e1, hc, hpath, -, -, hk⟩ := close_path hs
    obtain rfl : t1 = t' := Except.ok.inj (hc.symm.trans ht)
    simp only [transmits, List.append_nil]
    refine .inl ⟨b, e1, f, h.quiet hpath (fun eff heff ↦ (hk eff heff).quiet)
      (h.shaped_path hpath fun eff heff p hp ↦ ?_)⟩
    exact absurd (hk eff heff) (by rw [hp]; exact id)
  | getBufferToSend now draw next =>
    cases ht
    obtain ⟨f', ha⟩ := h.getBufferToSend now draw next
    exact .inl ⟨b, e, f', ha⟩
  | ack controlBit seqId bitmap =>
    obtain ⟨⟨t1, rushed⟩, hack, rfl⟩ := map_eq_ok.mp ht
    obtain ⟨b', e', ha⟩ := h.ack hg hack
    simp only [transmits, List.append_nil]
    exact .inl ⟨b', e', f, ha⟩
  | updateRecvHimark controlBit himark =>
    cases ht
    simp only [transmits, List.append_nil]
    rcases updateRecvHimark_path hs controlBit himark with heq | ⟨p, -, -, hm⟩
    · rw [heq]
      exact .inl ⟨b, e, f, h.unchanged⟩
    · refine .inl ⟨b, e, f, h.quiet (.single hm) ?_ (h.shaped.moves hm (by simp))⟩
      simp [Effect.Quiet]
  | setBroken =>
    rw [Transmitter.step, setBroken_ok hs] at ht
    cases ht
    simp only [transmits, List.append_nil]
    refine .inr ⟨e, h.over ?_ ?_ ?_ _⟩
    · exact spans_new n e
    · exact .inr rfl
    · rfl
  | reset =>
    obtain ⟨t1, hr, hm⟩ := reset_ok hs
    obtain rfl : t1 = t' := Except.ok.inj (hr.symm.trans ht)
    simp only [transmits, List.append_nil]
    cases hm with
    | reset ring hring =>
      refine .inr ⟨e, h.over ?_ ?_ ?_ _⟩
      · exact hring
      · exact .inl rfl
      · rfl

/-- A stream that is over sends nothing more. -/
theorem Over.step {c' : Connection n} {a : Act} (h : c.Over s e) (hg : c.InConnection a)
    (hstep : c.step a = .ok c') : c'.Over s e := by
  obtain ⟨t', ht, rfl⟩ := map_eq_ok.mp hstep
  have hne : c.transmitter.state ≠ .connected := by
    rcases h.state with hst | hst <;> simp [hst]
  cases a with
  | init => exact hg.elim
  | setConnected size bit =>
    have hst : c.transmitter.state = .connecting := hg
    rcases h.state with hst' | hst' <;> cases hst.symm.trans hst'
  | tryWrite buf =>
    have hw := tryWrite_of_not_open (t := c.transmitter) (fun ho ↦ h.state.elim ho.2.1 ho.2.2) buf
    rw [Transmitter.step, hw] at ht
    cases ht
    simp only [transmits, List.append_nil]
    exact ⟨h.spans, h.state, h.next, h.recorded⟩
  | flush =>
    cases ht
    simp only [transmits, List.append_nil, Transmitter.flush]
    split <;> exact ⟨h.spans, h.state, h.next, h.recorded⟩
  | close =>
    have hc : c.transmitter.close = .ok { c.transmitter with state := .idle } := by
      rcases h.state with hst | hst <;> simp [Transmitter.close, ← hst]
    obtain rfl := Except.ok.inj (hc.symm.trans ht)
    simp only [transmits, List.append_nil]
    exact ⟨h.spans, .inl rfl, h.next, h.recorded⟩
  | getBufferToSend now draw next =>
    cases ht
    simp only [transmits, getBufferToSend_of_not_connected hne, List.append_nil]
    exact ⟨h.spans, h.state, h.next, h.recorded⟩
  | ack controlBit seqId bitmap =>
    have hack : c.transmitter.ack controlBit seqId bitmap = .ok (c.transmitter, false) := if_pos hne
    rw [Transmitter.step, hack] at ht
    cases ht
    simp only [transmits, List.append_nil]
    exact ⟨h.spans, h.state, h.next, h.recorded⟩
  | updateRecvHimark controlBit himark =>
    have hup : c.transmitter.updateRecvHimark controlBit himark = (c.transmitter, false) :=
      if_pos hne
    rw [Transmitter.step, hup] at ht
    cases ht
    simp only [transmits, List.append_nil]
    exact ⟨h.spans, h.state, h.next, h.recorded⟩
  | setBroken =>
    rw [Transmitter.step, setBroken_ok h.spans] at ht
    cases ht
    simp only [transmits, List.append_nil]
    exact ⟨spans_new n e, .inr rfl, h.next, h.recorded⟩
  | reset =>
    obtain ⟨t1, hr, hm⟩ := reset_ok h.spans
    obtain rfl : t1 = t' := Except.ok.inj (hr.symm.trans ht)
    simp only [transmits, List.append_nil]
    cases hm with
    | reset ring hring => exact ⟨hring, .inl rfl, h.next, h.recorded⟩

private theorem Alive.sentFirst (h : c.Alive s b e f) :
    SentFirst c.transmitter (f - b).toNat := by
  have hs := h.ordered.spans
  have hus := hs.slotsUsed_eq
  have hcap := capacity_le n
  have hused := hs.used
  have hbf := h.ordered.begin_le
  have hfe := h.ordered.le_end
  refine ⟨by omega, fun i hi ↦ ?_, ?_⟩
  · rw [hs.begin_eq, SeqNum.ofPos_add, getOutBuffer_ofPos,
      h.ordered.counted_iff (by omega) (by omega)]
    omega
  · obtain ⟨p, hp, hle, hge⟩ := h.follows
    rw [hp, hs.begin_eq, SeqNum.ofPos_add, SeqNum.ofPos_le (by omega) (by omega)]
    omega

private theorem Over.sentFirst (h : c.Over s e) : SentFirst c.transmitter 0 := by
  have hs := h.spans
  have hus := hs.slotsUsed_eq
  refine ⟨Nat.zero_le _, fun i hi ↦ by omega, ?_⟩
  obtain ⟨p, hp, hle, hge⟩ := h.next
  rw [hp, hs.begin_eq, SeqNum.ofPos_add, SeqNum.ofPos_le (by omega) (by omega)]
  omega

private theorem alive_init {t0 : Transmitter n} {id : UInt32} {start : SeqNum}
    (hinit : t0.init id start = .ok t') : ∃ s, start = .ofPos s ∧ Alive ⟨t', 0, []⟩ s s s s := by
  obtain rfl := Except.ok.inj ((init_ok t0 id start).symm.trans hinit)
  have hs := spans_new n start.raw.toNat
  rw [SeqNum.ofPos_raw] at hs
  exact ⟨start.raw.toNat, (SeqNum.ofPos_raw start).symm,
    { ordered := ⟨hs, le_rfl, le_rfl, fun p hl hu ↦ by omega, fun p hl hu ↦ by omega⟩
      follows := ⟨_, (SeqNum.ofPos_raw start).symm, le_rfl, by omega⟩
      shaped := fun p hl hu ↦ by omega
      numbered := fun p hl hu ↦ by omega
      begin_eq := by simp
      recorded := ⟨by simp, by simp, by simp⟩
      kept := by simp }⟩

/-- In every state of a connection the packets that were sent are the first of the window, and
`next_to_send_` is not past the first that was not. All that was sent came in order when it was
first sent, and each packet with its sequence number and the same bytes every time, of the size of
its type. -/
theorem first_transmissions_in_order {t0 t : Transmitter n} {id : UInt32} {start : SeqNum}
    (hinit : t0.init id start = .ok t)
    (h : Reachable Connection.step InConnection ⟨t, 0, []⟩ c) :
    (∃ k, SentFirst c.transmitter k) ∧ ∃ m, Recorded start c.transmissions m := by
  obtain ⟨s, rfl, h0⟩ := alive_init hinit
  have hc := h.invariant (fun c ↦ (∃ b e f, c.Alive s b e f) ∨ ∃ e, c.Over s e)
    (.inl ⟨s, s, s, h0⟩) fun c a c' hi hg hstep ↦ by
      rcases hi with ⟨b, e, f, ha⟩ | ⟨e, ho⟩
      · exact ha.step hg hstep
      · exact .inr ⟨e, ho.step hg hstep⟩
  rcases hc with ⟨b, e, f, ha⟩ | ⟨e, ho⟩
  · exact ⟨⟨_, ha.sentFirst⟩, _, ha.recorded⟩
  · exact ⟨⟨0, ho.sentFirst⟩, ho.recorded⟩

end

/-- A transmitter as `init` leaves it at position 7. -/
def atSeven (n : LinkBufferSize) : Transmitter n :=
  { Transmitter.new n with
    myStreamId := 1
    state := .connecting
    outRing := .new n ⟨7⟩
    recvHimark := ⟨7⟩
    nextToSend := ⟨7⟩ }

/-- The first packet is lost, and sent again after the second, the final one. -/
theorem first_transmissions_of_retry :
    ∃ c, Transmitter.init (.new 2) 1 ⟨7⟩ = .ok (atSeven 2) ∧
    Reachable Connection.step InConnection ⟨atSeven 2, 0, []⟩ c ∧
    c.transmissions = [(0, [0x00, 0x07, 1, 2]), (1, [0x10, 0x08]), (0, [0x00, 0x07, 1, 2])] ∧
    (∃ k, SentFirst c.transmitter k) ∧ ∃ m, Recorded ⟨7⟩ c.transmissions m := by
  have hinit : Transmitter.init (.new 2) 1 ⟨7⟩ = .ok (atSeven 2) := init_ok ..
  obtain ⟨c, hr, hp⟩ := Reachable.of_test Connection.step InConnection ⟨atSeven 2, 0, []⟩
    [.setConnected 4 false, .tryWrite [1], .tryWrite [2], .close, .getBufferToSend 0 0 0,
      .getBufferToSend 1 0 0, .getBufferToSend 1000000 0 0]
    (fun c ↦ c.transmissions =
      [(0, [0x00, 0x07, 1, 2]), (1, [0x10, 0x08]), (0, [0x00, 0x07, 1, 2])])
    (by decide) (by decide)
  exact ⟨c, hinit, hr, of_decide_eq_true hp, first_transmissions_in_order hinit hr⟩

/-! ### Late acknowledgements -/

/-- The packets that an acknowledgement names by the protocol, numbered from `start`: all before
its sequence number, and those that its bitmap marks behind that number (`protocol.h:89–97`). -/
def named (c : Connection n) (start : SeqNum) (seqId : BitVec 16) (ackBitmap : List UInt8) :
    List Nat :=
  let first := ((c.transmitter.outRing.restorePosHighBits seqId 12).diff start).toNat
  let bits := ackBitmap.flatMap bitsMsb
  List.range first ++ ((List.range bits.length).filter fun j ↦ bits[j]? = some true).map
    fun (j : Nat) ↦ first + 1 + j

/-- The calls of one connection, as `InConnection` has them, but with acknowledgements that name
only packets that were sent. -/
def NamesSent (start : SeqNum) (c : Connection n) : Act → Prop
  | .init _ _ => False
  | .setConnected _ _ => c.transmitter.state = .connecting
  | .ack _ seqId ackBitmap =>
    ∀ k ∈ c.named start seqId ackBitmap, k ∈ c.transmissions.map Prod.fst
  | _ => True

instance (start : SeqNum) (c : Connection n) : (a : Act) → Decidable (c.NamesSent start a)
  | .init _ _ => .isFalse id
  | .setConnected _ _ => inferInstanceAs (Decidable (_ = _))
  | .ack _ _ _ => inferInstanceAs (Decidable (∀ k ∈ _, k ∈ _))
  | .tryWrite _ | .flush | .close | .getBufferToSend _ _ _ | .updateRecvHimark _ _ | .setBroken
  | .reset => .isTrue trivial

/-- Packets 0 and 1 were sent and acknowledged, packet 2 was sent, packet 3 and the final packet
wait. An old acknowledgement comes late that names packet 1. `ack` applies its bitmap to the
window as it is now and marks packet 3 (`transmitter.cpp:257–270`), which is then never sent. -/
theorem late_ack_passes_over_packet :
    ∃ c, Transmitter.init (.new 2) 1 ⟨7⟩ = .ok (atSeven 2) ∧
    Reachable Connection.step (NamesSent ⟨7⟩) ⟨atSeven 2, 0, []⟩ c ∧
    c.transmissions.map Prod.fst = [0, 1, 2, 2, 4] ∧ (¬ ∃ k, SentFirst c.transmitter k) ∧
    ¬ ∃ m, Recorded ⟨7⟩ c.transmissions m := by
  obtain ⟨c, hr, hp⟩ := Reachable.of_test Connection.step (NamesSent ⟨7⟩) ⟨atSeven 2, 0, []⟩
    [.setConnected 4 false, .tryWrite [1], .flush, .getBufferToSend 0 0 0, .tryWrite [2], .flush,
      .getBufferToSend 0 0 0, .ack true 9 [], .tryWrite [3], .flush, .getBufferToSend 0 0 0,
      .updateRecvHimark true 13, .tryWrite [4], .close, .ack true 7 [0x80],
      .getBufferToSend 0 0 0, .getBufferToSend 0 0 0]
    (fun c ↦ c.transmissions.map Prod.fst = [0, 1, 2, 2, 4] ∧
      c.transmitter.outRing.begin_ = ⟨9⟩ ∧ c.transmitter.outRing.slotsUsed = 3 ∧
      (c.transmitter.getOutBuffer ⟨10⟩).sendCounter = 0 ∧
      0 < (c.transmitter.getOutBuffer ⟨11⟩).sendCounter)
    (by decide) (by decide)
  obtain ⟨hnumbers, hbegin, hused, hwaits, hsent⟩ := of_decide_eq_true hp
  refine ⟨c, init_ok .., hr, hnumbers, ?_, ?_⟩
  · rintro ⟨k, hk⟩
    have hfourth := hk.sent_iff 1 (by omega)
    have hfinal := hk.sent_iff 2 (by omega)
    rw [hbegin] at hfourth hfinal
    have hlt : 2 < k := hfinal.mp hsent
    have hcounted := hfourth.mpr (by omega)
    exact absurd hwaits hcounted.ne'
  · rintro ⟨m, hm⟩
    have horder := hm.in_order
    rw [hnumbers] at horder
    -- packet 4 is among the first `m`, so packet 3 is too
    have hfour : 4 ∈ List.range m := by
      rw [← horder]
      decide
    have hthree : 3 ∈ List.range m := by
      rw [List.mem_range] at hfour ⊢
      omega
    rw [← horder] at hthree
    exact absurd hthree (by decide)

end Connection

end Transmitter

end RooTransport.Link
