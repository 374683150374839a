import RooTransport.Base.Circular

/-!
# The DMA transmit ring

`ReliableUartDma::Impl::write`, `startTx` and `TxIrq` of `link/pico/reliable_uart_dma.cpp`,
with the DMA channel that reads the ring. One producer calls `write`. Its critical sections
and the interrupt handler's hold `tx_lock` with interrupts off, so each is one step; between
them the producer, the channel and the handler take their steps in any order, and the producer
copies byte by byte. Memory is addressed by the offset from the start of `tx_buffer`.
-/

namespace RooTransport.Pico

open RooTransport.Base

/-- `reliable_uart_dma.cpp:22` and `reliable_uart_dma.h:33`. -/
def ringSize : Nat := 8192

/-- `reliable_uart_dma.cpp:23`. -/
def ringMask : UInt32 := UInt32.ofNat (ringSize - 1)

/-- The offset a counter stands for. -/
def ringOffset (counter : UInt32) : Nat := (counter &&& ringMask).toNat

/-- The slot of a byte. -/
@[simp] theorem ringOffset_ofNat (k : Nat) : ringOffset (UInt32.ofNat k) = k % ringSize :=
  toNat_counter_and 13 k (by decide)

/-- Where the producer is in `write`, `rest` the bytes it has not published yet. -/
inductive Producer where
  /-- Not in `write`. -/
  | idle
  /-- At the head of the loop. -/
  | loop (rest : List UInt8)
  /-- After the first critical section. -/
  | sized (rest : List UInt8) (free : UInt32)
  /-- In `memcpy`, with `copied` bytes of the chunk in place. -/
  | copying (rest : List UInt8) (chunk copied : Nat)
  deriving DecidableEq, Repr

/-- The channel's interrupt. -/
inductive Irq where
  | quiet
  /-- The channel's bit in `ints0` is set. -/
  | raised
  /-- The handler has cleared the bit and waits for `tx_lock`. -/
  | entered
  deriving DecidableEq, Repr

/-- A piece of the ring handed to the DMA channel, with its content at that time. -/
structure Segment where
  offset : Nat
  bytes : List UInt8
  deriving DecidableEq, Repr

/-- The transmitting half of `ReliableUartDma::Impl` and its channel. -/
structure DmaTransmit where
  txBuffer : Nat → UInt8
  txHead : UInt32
  txTail : UInt32
  txInflight : UInt32
  producer : Producer
  /-- The address the channel reads next and the number of bytes it has yet to read. -/
  transfer : Option (Nat × Nat)
  irq : Irq
  /-- What `write` has been called with. -/
  written : List UInt8
  /-- What `dma_channel_transfer_from_buffer_now` has been called with. -/
  segments : List Segment
  /-- What the channel has read. -/
  sent : List UInt8

namespace DmaTransmit

/-- `reliable_uart_dma.cpp:303–305`, with whatever the new buffer holds. -/
def new (txBuffer : Nat → UInt8) : DmaTransmit :=
  ⟨txBuffer, 0, 0, 0, .idle, none, .quiet, [], [], []⟩

/-- `reliable_uart_dma.cpp:256–263`. -/
def startTx (d : DmaTransmit) : DmaTransmit :=
  let inflight :=
    counterMin (d.txHead - d.txTail) (UInt32.ofNat (ringSize - ringOffset d.txTail))
  if inflight = 0 then { d with txInflight := inflight }
  else { d with
    txInflight := inflight
    transfer := some (ringOffset d.txTail, inflight.toNat)
    segments := d.segments ++
      [⟨ringOffset d.txTail, load d.txBuffer (ringOffset d.txTail) inflight.toNat⟩] }

/-- What happens next. -/
inductive Act where
  /-- `write` is called. -/
  | write (bytes : List UInt8)
  /-- The loop's test and, if it goes on, its first critical section. -/
  | sample
  /-- The producer yields, or decides what to copy. -/
  | choose
  /-- A byte is copied. -/
  | copy
  /-- The second critical section. -/
  | publish
  /-- The channel reads a byte, and raises its interrupt after the last one. -/
  | transfer
  /-- The interrupt handler finds the channel's bit set and clears it. -/
  | interrupt
  /-- The handler's critical section. -/
  | complete
  deriving DecidableEq, Repr

/-- One step; nothing changes where the action is not the next one of its party. -/
def step (d : DmaTransmit) : Act → DmaTransmit
  | .write bytes =>
    match d.producer with
    | .idle => { d with producer := .loop bytes, written := d.written ++ bytes }
    | _ => d
  -- `reliable_uart_dma.cpp:222–225`
  | .sample =>
    match d.producer with
    | .loop [] => { d with producer := .idle }
    | .loop rest =>
      { d with producer := .sized rest (UInt32.ofNat ringSize - (d.txHead - d.txTail)) }
    | _ => d
  -- `reliable_uart_dma.cpp:226–231`
  | .choose =>
    match d.producer with
    | .sized rest free =>
      if free = 0 then { d with producer := .loop rest }
      else
        let offset := ringOffset d.txHead
        { d with
          producer := .copying rest (min rest.length (min free.toNat (ringSize - offset))) 0 }
    | _ => d
  -- `reliable_uart_dma.cpp:232`
  | .copy =>
    match d.producer with
    | .copying rest chunk copied =>
      if copied < chunk then
        { d with
          txBuffer := Function.update d.txBuffer (ringOffset d.txHead + copied)
            (rest.getD copied 0)
          producer := .copying rest chunk (copied + 1) }
      else d
    | _ => d
  -- `reliable_uart_dma.cpp:233–238`
  | .publish =>
    match d.producer with
    | .copying rest chunk copied =>
      if copied < chunk then d
      else
        let d : DmaTransmit := { d with
          txHead := d.txHead + UInt32.ofNat chunk
          producer := .loop (rest.drop chunk) }
        if d.txInflight = 0 then d.startTx else d
    | _ => d
  | .transfer =>
    match d.transfer with
    | some (address, left + 1) =>
      { d with
        sent := d.sent ++ [d.txBuffer address]
        transfer := if left = 0 then none else some (address + 1, left)
        irq := if left = 0 then .raised else d.irq }
    | _ => d
  -- `reliable_uart_dma.cpp:267–271`
  | .interrupt =>
    match d.irq with
    | .raised => { d with irq := .entered }
    | _ => d
  -- `reliable_uart_dma.cpp:272–276`
  | .complete =>
    match d.irq with
    | .entered =>
      { d with irq := .quiet, txTail := d.txTail + d.txInflight, txInflight := 0 }.startTx
    | _ => d

/-! ### What every step keeps -/

end DmaTransmit

namespace Producer

/-- The bytes of the current call that are not published. -/
def rest : Producer → List UInt8
  | .idle => []
  | .loop rest | .sized rest _ | .copying rest _ _ => rest

/-- The room the producer counts on. -/
def reserved : Producer → Nat
  | .sized _ free => free.toNat
  | .copying _ chunk _ => chunk
  | _ => 0

/-- The bytes in place beyond the published ones. -/
def copied : Producer → Nat
  | .copying _ _ copied => copied
  | _ => 0

/-- A chunk is part of the call's bytes and stays inside the buffer. -/
def Fits (head : Nat) : Producer → Prop
  | .copying rest chunk copied =>
    copied ≤ chunk ∧ chunk ≤ rest.length ∧ head % ringSize + chunk ≤ ringSize
  | _ => True

end Producer

namespace DmaTransmit

/-- The ring: `tail` bytes are out, and `head` are published. -/
structure Sound (d : DmaTransmit) (tail head : Nat) : Prop where
  txHead : d.txHead = UInt32.ofNat head
  txTail : d.txTail = UInt32.ofNat tail
  le : tail ≤ head
  room : head + d.producer.reserved ≤ tail + ringSize
  rest : d.written.drop head = d.producer.rest
  head_le : head ≤ d.written.length
  fits : d.producer.Fits head
  holds : Holds ringSize d.txBuffer d.written tail (head + d.producer.copied)

/-- The segments handed out are the first `next` bytes, and inside the buffer. -/
structure Handed (d : DmaTransmit) (next : Nat) : Prop where
  segments : d.segments.flatMap (·.bytes) = d.written.take next
  inside : ∀ segment ∈ d.segments, segment.offset + segment.bytes.length ≤ ringSize

/-- The segment under way, of which `read` bytes have been read; none if it is empty. -/
structure Transfers (d : DmaTransmit) (tail head length read : Nat) : Prop where
  inflight : d.txInflight = UInt32.ofNat length
  le : tail + length ≤ head
  edge : tail % ringSize + length ≤ ringSize
  never_stalls : length = 0 → head = tail
  handed : d.Handed (tail + length)
  last : 0 < length →
    d.segments.getLast? = some ⟨tail % ringSize, (d.written.drop tail).take length⟩
  phase : (d.transfer = some (tail % ringSize + read, length - read) ∧ read < length ∧
      d.irq = .quiet) ∨
    (d.transfer = none ∧ read = length ∧ (d.irq = .quiet ↔ length = 0))
  sent : d.sent = d.written.take (tail + read)

/-- A segment that is not empty is seen as one. -/
theorem ofNat_ne_zero {length : Nat} (hpos : 0 < length) (hle : length ≤ ringSize) :
    UInt32.ofNat length ≠ 0 := by
  intro heq
  have hring : ringSize < 2 ^ 32 := by decide
  have hzero := (counter_inj (Nat.zero_le length) (by omega)).mp heq
  omega

/-- The counters of a state whose ring is sound. -/
theorem Sound.difference {d : DmaTransmit} {tail head : Nat} (h : d.Sound tail head) :
    d.txHead - d.txTail = UInt32.ofNat (head - tail) ∧ head - tail ≤ ringSize := by
  have hle : head - tail ≤ ringSize := by
    have := h.room
    omega
  refine ⟨?_, hle⟩
  rw [h.txHead, h.txTail]
  exact counter_sub h.le (hle.trans_lt (by decide))

/-- `startTx` hands out what is published, up to the end of the buffer. -/
theorem startTx_spec {d : DmaTransmit} {tail head : Nat} (h : d.Sound tail head)
    (hidle : d.transfer = none) (hquiet : d.irq = .quiet) (hh : d.Handed tail)
    (hsent : d.sent = d.written.take tail) :
    d.startTx.Sound tail head ∧
      ∃ length, d.startTx.Transfers tail head length 0 := by
  obtain ⟨hdiff, hle⟩ := h.difference
  have hring : ringSize < 2 ^ 32 := by decide
  have hoff : tail % ringSize < ringSize := Nat.mod_lt _ (by decide)
  have hinflight : counterMin (d.txHead - d.txTail)
      (UInt32.ofNat (ringSize - ringOffset d.txTail)) =
        UInt32.ofNat (min (head - tail) (ringSize - tail % ringSize)) := by
    rw [hdiff, h.txTail, ringOffset_ofNat, counterMin_ofNat (by omega) (by omega)]
  obtain ⟨length, hlen⟩ : ∃ length, length = min (head - tail) (ringSize - tail % ringSize) :=
    ⟨_, rfl⟩
  rw [← hlen] at hinflight
  have hle' : tail + length ≤ head := by
    have := h.le
    omega
  have hedge : tail % ringSize + length ≤ ringSize := by omega
  rcases Nat.eq_zero_or_pos length with hzero | hpos
  · have hstart : d.startTx = { d with txInflight := UInt32.ofNat length } := by
      rw [startTx, hinflight, hzero]
      rfl
    rw [hstart]
    refine ⟨⟨h.txHead, h.txTail, h.le, h.room, h.rest, h.head_le, h.fits, h.holds⟩, length,
      rfl, hle', hedge, fun _ ↦ ?_, ?_, fun hpos ↦ ?_, .inr ⟨hidle, hzero.symm, ?_⟩, hsent⟩
    · have := h.le
      omega
    · rw [hzero]
      exact ⟨hh.segments, hh.inside⟩
    · omega
    · exact ⟨fun _ ↦ hzero, fun _ ↦ hquiet⟩
  · have hne : UInt32.ofNat length ≠ 0 := ofNat_ne_zero hpos (by omega)
    have hnat : (UInt32.ofNat length).toNat = length := by
      rw [UInt32.toNat_ofNat', Nat.mod_eq_of_lt (by omega)]
    have hload : load d.txBuffer (tail % ringSize) length = (d.written.drop tail).take length :=
      h.holds.load_eq le_rfl (by omega) hedge
    have hstart : d.startTx = { d with
        txInflight := UInt32.ofNat length
        transfer := some (tail % ringSize, length)
        segments := d.segments ++ [⟨tail % ringSize, (d.written.drop tail).take length⟩] } := by
      rw [startTx, hinflight, if_neg hne, hnat, h.txTail, ringOffset_ofNat, hload]
    rw [hstart]
    refine ⟨⟨h.txHead, h.txTail, h.le, h.room, h.rest, h.head_le, h.fits, h.holds⟩, length,
      rfl, hle', hedge, fun hzero ↦ absurd hzero (by omega), ⟨?_, ?_⟩, fun _ ↦ by simp,
      .inl ⟨rfl, hpos, hquiet⟩, hsent⟩
    · rw [List.flatMap_append, hh.segments, List.flatMap_singleton, ← List.take_add]
    · intro segment hmem
      rcases List.mem_append.mp hmem with hold | hnew
      · exact hh.inside segment hold
      · rw [List.mem_singleton.mp hnew]
        exact (Nat.add_le_add_left (List.length_take_le _ _) _).trans hedge

/-- The ring and the channel in every state. -/
def Invariant (d : DmaTransmit) : Prop :=
  ∃ tail head length read, d.Sound tail head ∧ d.Transfers tail head length read

private theorem invariant_new (txBuffer : Nat → UInt8) : (new txBuffer).Invariant := by
  refine ⟨0, 0, 0, 0, ?_, ?_⟩
  · refine ⟨rfl, rfl, le_rfl, Nat.zero_le _, rfl, le_rfl, trivial, ?_⟩
    intro k _ hk
    exact absurd hk (Nat.not_lt_zero k)
  · refine ⟨rfl, le_rfl, Nat.zero_le _, fun _ ↦ rfl, ⟨rfl, ?_⟩, fun h ↦ absurd h (by decide),
      .inr ⟨rfl, rfl, by simp [new]⟩, rfl⟩
    intro segment hmem
    cases hmem

section

variable {d d' : DmaTransmit} {tail head length read : Nat}

/-- The channel's state does not depend on the producer's. -/
theorem Transfers.congr (h : d.Transfers tail head length read)
    (hinflight : d'.txInflight = d.txInflight) (hwritten : d'.written = d.written)
    (hsegments : d'.segments = d.segments) (htransfer : d'.transfer = d.transfer)
    (hirq : d'.irq = d.irq) (hsent : d'.sent = d.sent) : d'.Transfers tail head length read := by
  refine ⟨?_, h.le, h.edge, h.never_stalls, ⟨?_, ?_⟩, ?_, ?_, ?_⟩
  · rw [hinflight]
    exact h.inflight
  · rw [hsegments, hwritten]
    exact h.handed.segments
  · rw [hsegments]
    exact h.handed.inside
  · rw [hsegments, hwritten]
    exact h.last
  · rw [htransfer, hirq]
    exact h.phase
  · rw [hsent, hwritten]
    exact h.sent

/-- More bytes are to be written. -/
theorem Transfers.write (h : d.Transfers tail head length read) (hle : head ≤ d.written.length)
    (bytes : List UInt8) (producer : Producer) :
    { d with producer, written := d.written ++ bytes }.Transfers tail head length read := by
  have hlen := h.le
  have hread : read ≤ length := by
    rcases h.phase with ⟨-, hlt, -⟩ | ⟨-, heq, -⟩
    · exact hlt.le
    · exact heq.le
  refine ⟨h.inflight, h.le, h.edge, h.never_stalls, ⟨?_, h.handed.inside⟩, ?_, h.phase, ?_⟩
  · rw [h.handed.segments]
    exact (List.take_append_of_le_length (by omega)).symm
  · intro hpos
    rw [h.last hpos]
    dsimp only
    rw [List.drop_append_of_le_length (by omega),
      List.take_append_of_le_length (by rw [List.length_drop]; omega)]
  · rw [h.sent]
    exact (List.take_append_of_le_length (by omega)).symm

/-- `write` is called. -/
theorem Sound.write (h : d.Sound tail head) (hidle : d.producer = .idle) (bytes : List UInt8) :
    { d with producer := .loop bytes, written := d.written ++ bytes }.Sound tail head := by
  have hrest := h.rest
  have hroom := h.room
  have hholds := h.holds
  rw [hidle] at hrest hroom hholds
  refine ⟨h.txHead, h.txTail, h.le, hroom, ?_, ?_, trivial, hholds.append bytes⟩
  · dsimp only
    rw [List.drop_append_of_le_length h.head_le, hrest]
    rfl
  · dsimp only
    rw [List.length_append]
    exact h.head_le.trans (Nat.le_add_right _ _)

/-- The producer goes on to a place where nothing is copied yet. -/
theorem Sound.producer (h : d.Sound tail head) (hnone : d.producer.copied = 0) {p : Producer}
    (hrest : p.rest = d.producer.rest) (hroom : head + p.reserved ≤ tail + ringSize)
    (hfits : p.Fits head) (hcopied : p.copied = 0) : { d with producer := p }.Sound tail head := by
  have hholds := h.holds
  rw [hnone] at hholds
  refine ⟨h.txHead, h.txTail, h.le, hroom, h.rest.trans hrest.symm, h.head_le, hfits, ?_⟩
  rw [hcopied]
  exact hholds

/-- The producer no longer counts on any room. -/
theorem Sound.release (h : d.Sound tail head) (hnone : d.producer.copied = 0) {p : Producer}
    (hrest : p.rest = d.producer.rest) (hreserved : p.reserved = 0) (hfits : p.Fits head)
    (hcopied : p.copied = 0) : { d with producer := p }.Sound tail head := by
  apply h.producer hnone hrest ?_ hfits hcopied
  rw [hreserved]
  exact (Nat.add_le_add_left (Nat.zero_le _) _).trans h.room

/-- The free room is what the sampled counters say, and the interrupt can only add to it. -/
theorem Sound.sample (h : d.Sound tail head) {rest : List UInt8} (hloop : d.producer = .loop rest) :
    { d with producer := .sized rest (UInt32.ofNat ringSize - (d.txHead - d.txTail)) }.Sound
      tail head := by
  obtain ⟨hdiff, hle⟩ := h.difference
  have hfree :
      (UInt32.ofNat ringSize - (d.txHead - d.txTail)).toNat = ringSize - (head - tail) := by
    rw [hdiff]
    exact toNat_counter_sub hle (by have : ringSize < 2 ^ 32 := by decide
                                    omega)
  apply h.producer
  · rw [hloop]
    rfl
  · rw [hloop]
    rfl
  · rw [Producer.reserved, hfree]
    have := h.le
    omega
  · trivial
  · rfl

/-- A chunk is chosen that fits the free room, the bytes to write and the buffer. -/
theorem Sound.choose (h : d.Sound tail head) {rest : List UInt8} {free : UInt32}
    (hsized : d.producer = .sized rest free) :
    { d with
      producer := .copying rest
        (min rest.length (min free.toNat (ringSize - ringOffset d.txHead))) 0 }.Sound
      tail head := by
  have hoff : head % ringSize < ringSize := Nat.mod_lt _ (by decide)
  have hroom := h.room
  rw [hsized, Producer.reserved] at hroom
  have hoffset : ringOffset d.txHead = head % ringSize := by rw [h.txHead, ringOffset_ofNat]
  rw [hoffset]
  apply h.producer
  · rw [hsized]
    rfl
  · rw [hsized]
    rfl
  · rw [Producer.reserved]
    omega
  · refine ⟨Nat.zero_le _, ?_, ?_⟩
    · exact Nat.min_le_left _ _
    · omega
  · rfl

/-- A byte is copied into a cell that holds no byte still to be sent. -/
theorem Sound.copy (h : d.Sound tail head) {rest : List UInt8} {chunk copied : Nat}
    (hcopying : d.producer = .copying rest chunk copied) (hlt : copied < chunk) :
    { d with
      txBuffer := Function.update d.txBuffer (ringOffset d.txHead + copied) (rest.getD copied 0)
      producer := .copying rest chunk (copied + 1) }.Sound tail head := by
  have hroom := h.room
  have hfits := h.fits
  have hrest := h.rest
  have hholds := h.holds
  rw [hcopying] at hroom hfits hrest hholds
  obtain ⟨hcopied, hchunk, hedge⟩ := hfits
  rw [Producer.reserved] at hroom
  rw [Producer.rest] at hrest
  have hcell : (head + copied) % ringSize = head % ringSize + copied := offset_add (by omega)
  have hbyte : d.written[head + copied]? = some (rest.getD copied 0) := by
    rw [← List.getElem?_drop, hrest, List.getD_eq_getElem?_getD,
      List.getElem?_eq_getElem (by omega)]
    rfl
  refine ⟨h.txHead, h.txTail, h.le, hroom, hrest, h.head_le, ⟨hlt, hchunk, hedge⟩, ?_⟩
  have hpush := Holds.push hholds (by rw [Producer.copied]; omega) hbyte
  rw [Producer.copied, hcell] at hpush
  dsimp only
  rw [h.txHead, ringOffset_ofNat]
  exact hpush

/-- A chunk is published. -/
theorem Sound.publish (h : d.Sound tail head) {rest : List UInt8} {chunk copied : Nat}
    (hcopying : d.producer = .copying rest chunk copied) (hdone : ¬ copied < chunk) :
    { d with txHead := d.txHead + UInt32.ofNat chunk
             producer := .loop (rest.drop chunk) }.Sound tail (head + chunk) := by
  have hroom := h.room
  have hfits := h.fits
  have hrest := h.rest
  have hholds := h.holds
  rw [hcopying] at hroom hfits hrest hholds
  obtain ⟨hcopied, hchunk, -⟩ := hfits
  rw [Producer.rest] at hrest
  have heq : copied = chunk := by omega
  have hlen := congrArg List.length hrest
  rw [List.length_drop] at hlen
  refine ⟨?_, h.txTail, h.le.trans (Nat.le_add_right _ _), hroom, ?_, ?_, trivial, ?_⟩
  · dsimp only
    rw [h.txHead, counter_add]
  · dsimp only
    rw [← List.drop_drop, hrest]
    rfl
  · have := h.head_le
    dsimp only
    omega
  · rw [Producer.copied, heq] at hholds
    exact hholds

/-- The channel reads a byte of its segment. -/
theorem Transfers.transfer (h : d.Transfers tail head length read) (hs : d.Sound tail head)
    {address left : Nat} (ht : d.transfer = some (address, left + 1)) :
    { d with
      sent := d.sent ++ [d.txBuffer address]
      transfer := if left = 0 then none else some (address + 1, left)
      irq := if left = 0 then .raised else d.irq }.Transfers tail head length (read + 1) := by
  rcases h.phase with ⟨htransfer, hlt, hquiet⟩ | ⟨hnone, -⟩
  · rw [ht] at htransfer
    obtain ⟨haddress, hleft⟩ := Prod.mk.inj (Option.some.inj htransfer)
    have hle := h.le
    have hedge := h.edge
    have hcell : (tail + read) % ringSize = address := by
      rw [offset_add (by omega), haddress]
    have hbyte : d.written[tail + read]? = some (d.txBuffer address) := by
      have := hs.holds (tail + read) (by omega) (by omega)
      rwa [hcell] at this
    refine ⟨h.inflight, h.le, h.edge, h.never_stalls, ⟨h.handed.segments, h.handed.inside⟩, h.last,
      ?_, ?_⟩
    · dsimp only
      by_cases hzero : left = 0
      · rw [if_pos hzero, if_pos hzero]
        refine .inr ⟨rfl, by omega, ?_⟩
        simp
        omega
      · rw [if_neg hzero, if_neg hzero]
        refine .inl ⟨?_, by omega, hquiet⟩
        rw [haddress, Nat.add_assoc]
        congr 2
        omega
    · dsimp only
      rw [h.sent, ← Nat.add_assoc, List.take_add_one, hbyte]
      rfl
  · rw [ht] at hnone
    cases hnone

/-- The interrupt handler clears the channel's bit. -/
theorem Transfers.interrupt (h : d.Transfers tail head length read) (hraised : d.irq = .raised) :
    { d with irq := .entered }.Transfers tail head length read := by
  rcases h.phase with ⟨-, -, hquiet⟩ | ⟨hnone, hall, hquiet⟩
  · rw [hraised] at hquiet
    cases hquiet
  · rw [hraised] at hquiet
    refine ⟨h.inflight, h.le, h.edge, h.never_stalls, ⟨h.handed.segments, h.handed.inside⟩, h.last,
      .inr ⟨hnone, hall, ?_⟩, h.sent⟩
    simp only [reduceCtorEq, false_iff] at hquiet ⊢
    exact hquiet

/-- The interrupt handler completes the segment and starts the next one. -/
theorem Transfers.complete (h : d.Transfers tail head length read) (hs : d.Sound tail head)
    (hentered : d.irq = .entered) :
    { d with irq := .quiet, txTail := d.txTail + d.txInflight
             txInflight := 0 }.startTx.Invariant := by
  rcases h.phase with ⟨-, -, hquiet⟩ | ⟨hnone, hall, -⟩
  · rw [hentered] at hquiet
    cases hquiet
  · have hroom := hs.room
    have hle := h.le
    have hsound : { d with irq := .quiet, txTail := d.txTail + d.txInflight
                           txInflight := 0 }.Sound (tail + length) head := by
      refine ⟨hs.txHead, ?_, hle, ?_, hs.rest, hs.head_le, hs.fits,
        hs.holds.mono (Nat.le_add_right _ _) le_rfl⟩
      · dsimp only
        rw [hs.txTail, h.inflight, counter_add]
      · dsimp only
        omega
    have hsent := h.sent
    rw [hall] at hsent
    obtain ⟨hsound', length', htransfers⟩ :=
      startTx_spec hsound hnone rfl ⟨h.handed.segments, h.handed.inside⟩ hsent
    exact ⟨_, _, _, _, hsound', htransfers⟩

/-- A published chunk is handed out at once, or by the interrupt that ends the segment. -/
theorem Transfers.publish (h : d.Transfers tail head length read) {head' : Nat}
    (hs : d'.Sound tail head') (hle : head ≤ head') (hsame : d'.txInflight = d.txInflight)
    (hwritten : d'.written = d.written) (hsegments : d'.segments = d.segments)
    (htransfer : d'.transfer = d.transfer) (hirq : d'.irq = d.irq) (hsent : d'.sent = d.sent) :
    (if d'.txInflight = 0 then d'.startTx else d').Invariant := by
  have h' := h.congr hsame hwritten hsegments htransfer hirq hsent
  have hlen := h'.le
  have hedge := h'.edge
  rcases Nat.eq_zero_or_pos length with rfl | hpos
  · have hzero : d'.txInflight = 0 := h'.inflight
    rw [if_pos hzero]
    rcases h'.phase with ⟨-, hlt, -⟩ | ⟨hnone, hread, hquiet⟩
    · exact absurd hlt (Nat.not_lt_zero _)
    · have hsent' := h'.sent
      rw [hread] at hsent'
      obtain ⟨hsound, length', htransfers⟩ :=
        startTx_spec hs hnone (hquiet.mpr rfl) h'.handed hsent'
      exact ⟨_, _, _, _, hsound, htransfers⟩
  · have hne : d'.txInflight ≠ 0 := by
      rw [h'.inflight]
      exact ofNat_ne_zero hpos (by omega)
    rw [if_neg hne]
    refine ⟨tail, head', length, read, hs, h'.inflight, h'.le.trans hle, h'.edge, ?_, h'.handed,
      h'.last, h'.phase, h'.sent⟩
    intro hzero
    omega

end

/-- Every step keeps the invariant. -/
theorem Invariant.step {d : DmaTransmit} (h : d.Invariant) (a : Act) : (d.step a).Invariant := by
  obtain ⟨tail, head, length, read, hs, ht⟩ := h
  have hsame : d.Invariant := ⟨tail, head, length, read, hs, ht⟩
  cases a with
  | write bytes =>
    rw [DmaTransmit.step]
    split
    · next hidle =>
      exact ⟨tail, head, length, read, hs.write hidle bytes, ht.write hs.head_le bytes _⟩
    · exact hsame
  | sample =>
    rw [DmaTransmit.step]
    split
    · next hloop =>
      refine ⟨tail, head, length, read, hs.release ?_ ?_ rfl trivial rfl,
        ht.congr rfl rfl rfl rfl rfl rfl⟩
      · rw [hloop]
        rfl
      · rw [hloop]
        rfl
    · next hloop =>
      exact ⟨tail, head, length, read, hs.sample hloop, ht.congr rfl rfl rfl rfl rfl rfl⟩
    · exact hsame
  | choose =>
    rw [DmaTransmit.step]
    split
    · next rest free hsized =>
      split
      · refine ⟨tail, head, length, read, hs.release ?_ ?_ rfl trivial rfl,
          ht.congr rfl rfl rfl rfl rfl rfl⟩
        · rw [hsized]
          rfl
        · rw [hsized]
          rfl
      · exact ⟨tail, head, length, read, hs.choose hsized, ht.congr rfl rfl rfl rfl rfl rfl⟩
    · exact hsame
  | copy =>
    rw [DmaTransmit.step]
    split
    · next rest chunk copied hcopying =>
      split
      · next hlt =>
        exact ⟨tail, head, length, read, hs.copy hcopying hlt, ht.congr rfl rfl rfl rfl rfl rfl⟩
      · exact hsame
    · exact hsame
  | publish =>
    rw [DmaTransmit.step]
    split
    · next rest chunk copied hcopying =>
      split
      · exact hsame
      · next hdone =>
        exact ht.publish (hs.publish hcopying hdone) (Nat.le_add_right _ _) rfl rfl rfl rfl rfl rfl
    · exact hsame
  | transfer =>
    rw [DmaTransmit.step]
    split
    · next address left htransfer =>
      refine ⟨tail, head, length, read + 1, ?_, ht.transfer hs htransfer⟩
      exact ⟨hs.txHead, hs.txTail, hs.le, hs.room, hs.rest, hs.head_le, hs.fits, hs.holds⟩
    · exact hsame
  | interrupt =>
    rw [DmaTransmit.step]
    split
    · next hraised =>
      refine ⟨tail, head, length, read, ?_, ht.interrupt hraised⟩
      exact ⟨hs.txHead, hs.txTail, hs.le, hs.room, hs.rest, hs.head_le, hs.fits, hs.holds⟩
    · exact hsame
  | complete =>
    rw [DmaTransmit.step]
    split
    · next hentered => exact ht.complete hs hentered
    · exact hsame

/-- Every run keeps the invariant. -/
theorem Invariant.run {d : DmaTransmit} (h : d.Invariant) (acts : List Act) :
    (acts.foldl DmaTransmit.step d).Invariant := by
  induction acts generalizing d with
  | nil => exact h
  | cons a acts ih => exact ih (h.step a)

/-! ### The ring as a queue -/

/-- Where the producer's next store goes. -/
def nextStore (d : DmaTransmit) : Option Nat :=
  match d.producer with
  | .copying _ chunk copied => if copied < chunk then some (ringOffset d.txHead + copied) else none
  | _ => none

/-- The ring never loses, reorders or strands a byte. -/
structure Fifo (d : DmaTransmit) : Prop where
  /-- The segments handed to the channel are, in order, what was written. -/
  segments_prefix : d.segments.flatMap (·.bytes) <+: d.written
  /-- So is what the channel has read. -/
  sent_prefix : d.sent <+: d.written
  bounded : (d.txHead - d.txTail).toNat ≤ ringSize
  inside : ∀ segment ∈ d.segments, segment.offset + segment.bytes.length ≤ ringSize
  /-- The segment under way is intact, and the next store will leave it so. -/
  intact : d.txInflight ≠ 0 → ∃ segment, d.segments.getLast? = some segment ∧
    segment.bytes.length = d.txInflight.toNat ∧
    load d.txBuffer segment.offset segment.bytes.length = segment.bytes ∧
    ∀ address ∈ d.nextStore,
      address < segment.offset ∨ segment.offset + segment.bytes.length ≤ address
  /-- Nothing published is left without a transfer. -/
  never_stalls : d.txInflight = 0 → d.txHead = d.txTail
  /-- The counters tell of a segment while it is transferred or its interrupt is handled. -/
  active : d.txInflight ≠ 0 ↔ d.transfer.isSome ∨ d.irq ≠ .quiet

/-- The producer's next store misses the cells from `tail` on that are not free. -/
theorem Sound.nextStore_free {d : DmaTransmit} {tail head length address : Nat}
    (h : d.Sound tail head) (hle : tail + length ≤ head)
    (hedge : tail % ringSize + length ≤ ringSize) (hstore : address ∈ d.nextStore) :
    address < tail % ringSize ∨ tail % ringSize + length ≤ address := by
  rw [nextStore] at hstore
  split at hstore
  · next rest chunk copied hcopying =>
    split at hstore
    · next hlt =>
      have hroom := h.room
      have hfits := h.fits
      rw [hcopying] at hroom hfits
      obtain ⟨-, -, hend⟩ := hfits
      rw [Producer.reserved] at hroom
      rw [h.txHead, ringOffset_ofNat] at hstore
      have haddress : head % ringSize + copied = address := Option.some.inj hstore
      have hcell : (head + copied) % ringSize = address := by
        rw [offset_add (by omega), haddress]
      by_contra hin
      -- inside the segment, the store would hit the cell of a byte less than a round behind
      have hhit : (tail + (address - tail % ringSize)) % ringSize = address := by
        rw [offset_add (by omega)]
        omega
      exact offset_ne (by omega) (by omega) (hhit.trans hcell.symm)
    · cases hstore
  · cases hstore

private theorem Invariant.fifo {d : DmaTransmit} (h : d.Invariant) : d.Fifo := by
  obtain ⟨tail, head, length, read, hs, ht⟩ := h
  obtain ⟨hdiff, hle⟩ := hs.difference
  have hring : ringSize < 2 ^ 32 := by decide
  have hlen := ht.le
  have hedge := ht.edge
  have hzero : d.txInflight = 0 ↔ length = 0 := by
    rw [ht.inflight]
    exact counter_inj (Nat.zero_le length) (by omega)
  refine ⟨?_, ?_, ?_, ht.handed.inside, ?_, ?_, ?_⟩
  · rw [ht.handed.segments]
    exact List.take_prefix _ _
  · rw [ht.sent]
    exact List.take_prefix _ _
  · rw [hdiff, UInt32.toNat_ofNat', Nat.mod_eq_of_lt (by omega)]
    exact hle
  · intro hne
    have hpos : 0 < length := Nat.pos_of_ne_zero (mt hzero.mpr hne)
    have hlength : ((d.written.drop tail).take length).length = length := by
      have := hs.head_le
      rw [List.length_take, List.length_drop]
      omega
    refine ⟨_, ht.last hpos, ?_, ?_, ?_⟩
    · rw [hlength, ht.inflight, UInt32.toNat_ofNat', Nat.mod_eq_of_lt (by omega)]
    · rw [hlength]
      exact hs.holds.load_eq le_rfl (by omega) hedge
    · intro address hstore
      rw [hlength]
      exact hs.nextStore_free hlen hedge hstore
  · intro heq
    rw [hs.txHead, hs.txTail, ht.never_stalls (hzero.mp heq)]
  · rw [ne_eq, hzero]
    rcases ht.phase with ⟨htransfer, hlt, -⟩ | ⟨hnone, -, hquiet⟩
    · rw [htransfer]
      simp
      omega
    · rw [hnone]
      simp [hquiet]

/-- For any number of bytes and every interleaving of the producer, the channel and the interrupt
handler, the ring is a queue. -/
theorem transmit_fifo (txBuffer : Nat → UInt8) (acts : List Act) :
    (acts.foldl step (new txBuffer)).Fifo :=
  ((invariant_new txBuffer).run acts).fifo

end DmaTransmit

end RooTransport.Pico
