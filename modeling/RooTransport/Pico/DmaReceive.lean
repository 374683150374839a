import RooTransport.Base.Run
import RooTransport.Pico.DmaTransmit

/-!
# The DMA receive ring

`ReliableUartDma::Impl::produced` and `readAvailable` of `link/pico/reliable_uart_dma.cpp`, with
the DMA channel that fills the ring. The channel writes one byte after another, going round the
buffer, and counts down; at zero it stops. The one consumer renews the count. Its steps and the
channel's are taken in any order, and the consumer copies byte by byte. A byte that the channel
has counted may be in flight: it is written later, or dropped when the channel is aborted.
-/

namespace RooTransport.Pico

open RooTransport.Base

/-- Who calls `produced`. -/
inductive Caller where
  /-- `reliable_uart_dma.cpp:282`. -/
  | receiveLoop
  /-- `reliable_uart_dma.cpp:199`, for so many bytes. -/
  | readAvailable (count : Nat)
  deriving DecidableEq, Repr

/-- A call of `readAvailable`. -/
structure Read where
  asked : Nat
  /-- The bytes received and not yet read when `produced` looked. -/
  available : Nat
  bytes : List UInt8
  deriving DecidableEq, Repr

/-- Where the consumer is. -/
inductive Consumer where
  | idle
  /-- At the start of `produced`. -/
  | entered (caller : Caller)
  /-- The count is low and interrupts are off. -/
  | masked (caller : Caller)
  | estimated (caller : Caller) (estimate : UInt32)
  /-- The channel has its new count. -/
  | renewed (caller : Caller)
  /-- In `memcpy`, with `read.bytes` of the `count` bytes copied. -/
  | copying (read : Read) (count : Nat)
  deriving DecidableEq, Repr

/-- The receiving half of `ReliableUartDma::Impl` and its channel. -/
structure DmaReceive where
  rxBuffer : Nat → UInt8
  rxBase : UInt32
  rxConsumed : UInt32
  overruns : UInt32
  receiveErrors : UInt32
  consumer : Consumer
  /-- The channel's `transfer_count`. -/
  transferCount : UInt32
  /-- The channel's `write_addr`, from the start of the buffer. -/
  writeAddr : Nat
  /-- What the channel has counted and not written. -/
  inFlight : List UInt8
  /-- What the channel has written. -/
  received : List UInt8
  /-- What `produced` has returned, and the number of bytes written by then. -/
  reports : List (UInt32 × Nat)
  reads : List Read

/-- `reliable_uart_dma.cpp:185–188`. -/
def advance (offset estimate : UInt32) : Int :=
  if (((offset - estimate) &&& ringMask).toNat : Int) > ringSize / 2 then
    ((offset - estimate) &&& ringMask).toNat - ringSize
  else ((offset - estimate) &&& ringMask).toNat

namespace DmaReceive

/-- `reliable_uart_dma.cpp:104–105` and `:301–302`, with whatever the buffer holds. -/
def new (rxTransferCount : UInt32) (rxBuffer : Nat → UInt8) : DmaReceive :=
  ⟨rxBuffer, 0, 0, 0, 0, .idle, rxTransferCount, 0, [], [], [], []⟩

/-- What `readAvailable` has returned. -/
def delivered (d : DmaReceive) : List UInt8 := d.reads.flatMap (·.bytes)

/-- The bytes written to the buffer and not returned yet. -/
def unread (d : DmaReceive) : Nat := d.received.length - d.delivered.length

/-- The channel is aborted, and started again at the address it has come to: nothing else
changes while it stands still. `reliable_uart_dma.cpp:181–190`. -/
def renew (d : DmaReceive) (rxTransferCount estimate : UInt32) : DmaReceive :=
  { d with
    rxBase := estimate + UInt32.ofInt (advance (UInt32.ofNat d.writeAddr &&& ringMask) estimate)
    transferCount := rxTransferCount
    inFlight := [] }

/-- `reliable_uart_dma.cpp:200–204`. -/
def limit (d : DmaReceive) (pending : UInt32) : DmaReceive × UInt32 :=
  if pending > UInt32.ofNat ringSize then
    ({ d with
      overruns := d.overruns + 1
      rxConsumed := d.rxConsumed + (pending - UInt32.ofNat ringSize) }, UInt32.ofNat ringSize)
  else (d, pending)

/-- `produced` returns, with the `transfer_count` of this moment. `reliable_uart_dma.cpp:194`
and, in `readAvailable`, `:199–205`. -/
def report (d : DmaReceive) (rxTransferCount : UInt32) (caller : Caller) : DmaReceive :=
  let produced := d.rxBase + rxTransferCount - d.transferCount
  let d : DmaReceive := { d with reports := d.reports ++ [(produced, d.received.length)] }
  match caller with
  | .receiveLoop => { d with consumer := .idle }
  | .readAvailable asked =>
    let (d, pending) := d.limit (produced - d.rxConsumed)
    { d with consumer := .copying ⟨asked, d.unread, []⟩ (min asked pending.toNat) }

/-- The cell that byte `i` of a read of `count` bytes is copied from.
`reliable_uart_dma.cpp:206–210`. -/
def source (d : DmaReceive) (count i : Nat) : Nat :=
  let offset := ringOffset d.rxConsumed
  let first := min count (ringSize - offset)
  if i < first then offset + i else i - first

/-- The consumer's next step; `rsr` is what it finds in the UART's error register. -/
def consume (rxTransferCount rsr : UInt32) (d : DmaReceive) : Except Unit DmaReceive :=
  match d.consumer with
  | .idle => .error ()
  -- `reliable_uart_dma.cpp:172–174`
  | .entered caller =>
    if d.transferCount < UInt32.ofNat ringSize then .ok { d with consumer := .masked caller }
    else .ok (d.report rxTransferCount caller)
  -- `reliable_uart_dma.cpp:179–180`
  | .masked caller =>
    .ok { d with consumer := .estimated caller (d.rxBase + rxTransferCount - d.transferCount) }
  | .estimated caller estimate =>
    .ok { d.renew rxTransferCount estimate with consumer := .renewed caller }
  -- `reliable_uart_dma.cpp:192`
  | .renewed caller => .ok (d.report rxTransferCount caller)
  | .copying read count =>
    if read.bytes.length < count then
      .ok { d with
        consumer := .copying
          { read with bytes := read.bytes ++ [d.rxBuffer (d.source count read.bytes.length)] }
          count }
    -- `reliable_uart_dma.cpp:211–217`
    else .ok { d with
      rxConsumed := d.rxConsumed + UInt32.ofNat count
      receiveErrors := if rsr = 0 then d.receiveErrors else d.receiveErrors + 1
      reads := d.reads ++ [read]
      consumer := .idle }

/-- A call of `produced` or `readAvailable` begins. -/
def call (d : DmaReceive) (caller : Caller) : Except Unit DmaReceive :=
  if d.consumer = .idle then
    -- `reliable_uart_dma.cpp:198`
    if caller = .readAvailable 0 then .ok { d with reads := d.reads ++ [⟨0, d.unread, []⟩] }
    else .ok { d with consumer := .entered caller }
  else .error ()

/-- The channel takes a byte from the UART and counts it. -/
def fetch (d : DmaReceive) (byte : UInt8) : Except Unit DmaReceive :=
  if d.transferCount = 0 then .error ()
  else .ok { d with transferCount := d.transferCount - 1, inFlight := d.inFlight ++ [byte] }

/-- The channel writes the oldest byte in flight. -/
def commit (d : DmaReceive) : Except Unit DmaReceive :=
  match d.inFlight with
  | [] => .error ()
  | byte :: rest =>
    .ok { d with
      rxBuffer := Function.update d.rxBuffer d.writeAddr byte
      writeAddr := (d.writeAddr + 1) % ringSize
      inFlight := rest
      received := d.received ++ [byte] }

/-- What happens next. -/
inductive Act where
  | call (caller : Caller)
  | consume (rsr : UInt32)
  | fetch (byte : UInt8)
  | commit
  deriving DecidableEq, Repr

/-- One step; an action that is not possible fails. -/
def step (rxTransferCount : UInt32) (d : DmaReceive) : Act → Except Unit DmaReceive
  | .call caller => d.call caller
  | .consume rsr => d.consume rxTransferCount rsr
  | .fetch byte => d.fetch byte
  | .commit => d.commit

/-- Less than half the ring apart. -/
def Near (position estimate : UInt32) : Prop :=
  (position - estimate).toNat < ringSize / 2 ∨ (estimate - position).toNat < ringSize / 2

instance (position estimate : UInt32) : Decidable (Near position estimate) :=
  inferInstanceAs (Decidable (_ ∨ _))

/-- At a renewal the bytes written are near the estimate, and where `produced` takes the count
for its result, what is counted is written. -/
def Renewing (d : DmaReceive) : Act → Prop
  | .consume _ =>
    match d.consumer with
    | .entered _ => d.transferCount < UInt32.ofNat ringSize ∨ d.inFlight = []
    | .estimated _ estimate => Near (UInt32.ofNat d.received.length) estimate
    | .renewed _ => d.inFlight = []
    | _ => True
  | _ => True

instance (d : DmaReceive) (a : Act) : Decidable (d.Renewing a) := by
  unfold Renewing
  split
  · split
    · exact inferInstanceAs (Decidable (_ ∨ _))
    · exact inferInstanceAs (Decidable (Near _ _))
    · exact inferInstanceAs (Decidable (_ = _))
    · exact .isTrue trivial
  · exact .isTrue trivial

/-- Besides, unread bytes never exceed the ring. -/
def Regular (d : DmaReceive) (a : Act) : Prop :=
  d.Renewing a ∧ (a = .commit → d.unread < ringSize)

instance (d : DmaReceive) (a : Act) : Decidable (d.Regular a) :=
  inferInstanceAs (Decidable (_ ∧ _))

/-! ### The renewal -/

private theorem toNat_and_ringMask (x : UInt32) : (x &&& ringMask).toNat = x.toNat % ringSize := by
  rw [UInt32.toNat_and]
  exact Nat.and_two_pow_sub_one_eq_mod x.toNat 13

/-- The signed correction takes the estimate to the written bytes, whatever their offset. -/
theorem add_advance {w : Nat} {estimate : UInt32} (h : Near (UInt32.ofNat w) estimate) :
    estimate + UInt32.ofInt (advance (UInt32.ofNat (w % ringSize) &&& ringMask) estimate) =
      UInt32.ofNat w := by
  have hlt := estimate.toNat_lt
  have hgap : (((UInt32.ofNat (w % ringSize) &&& ringMask) - estimate) &&& ringMask).toNat =
      (2 ^ 32 - estimate.toNat + w % 8192) % 2 ^ 32 % 8192 := by
    rw [toNat_and_ringMask, UInt32.toNat_sub, toNat_and_ringMask, UInt32.toNat_ofNat']
    simp only [ringSize]
    omega
  apply UInt32.toNat_inj.mp
  rw [Near, UInt32.toNat_sub, UInt32.toNat_sub, UInt32.toNat_ofNat'] at h
  simp only [ringSize] at h
  rw [UInt32.toNat_add, UInt32.ofInt, UInt32.toNat_ofNat', UInt32.toNat_ofNat', advance]
  split
  · next hbehind =>
    rw [hgap] at hbehind ⊢
    simp only [ringSize] at hbehind ⊢
    omega
  · next hahead =>
    rw [hgap] at hahead ⊢
    simp only [ringSize] at hahead ⊢
    omega

/-! ### What every step keeps -/

/-- The copy under way: what is copied so far carries on from what is delivered. -/
def Copies (received delivered : List UInt8) : Consumer → Prop
  | .copying read count =>
    count = min read.asked read.available ∧ read.bytes.length ≤ count ∧
      delivered.length + count ≤ received.length ∧ delivered ++ read.bytes <+: received
  | _ => True

/-- The channel's count tells how many bytes it has taken. -/
structure Counted (rxTransferCount : UInt32) (d : DmaReceive) : Prop where
  writeAddr : d.writeAddr = d.received.length % ringSize
  position : d.rxBase + rxTransferCount - d.transferCount =
    UInt32.ofNat (d.received.length + d.inFlight.length)
  reports : ∀ p ∈ d.reports, p.1 = UInt32.ofNat p.2

/-- The ring as a queue, without overrun. -/
structure Queued (d : DmaReceive) : Prop where
  delivered : d.delivered <+: d.received
  rxConsumed : d.rxConsumed = UInt32.ofNat d.delivered.length
  unread : d.unread ≤ ringSize
  holds : Holds ringSize d.rxBuffer d.received d.delivered.length d.received.length
  overruns : d.overruns = 0
  reads : ∀ r ∈ d.reads, r.bytes.length = min r.asked r.available
  copies : Copies d.received d.delivered d.consumer

section

variable {rxTransferCount rsr : UInt32} {d d' : DmaReceive}

private theorem Counted.congr (h : Counted rxTransferCount d) (hbase : d'.rxBase = d.rxBase)
    (hcount : d'.transferCount = d.transferCount) (haddr : d'.writeAddr = d.writeAddr)
    (hflight : d'.inFlight = d.inFlight) (hreceived : d'.received = d.received)
    (hreports : d'.reports = d.reports) : Counted rxTransferCount d' := by
  refine ⟨?_, ?_, ?_⟩
  · rw [haddr, hreceived]
    exact h.writeAddr
  · rw [hbase, hcount, hreceived, hflight]
    exact h.position
  · rw [hreports]
    exact h.reports

/-- The consumer goes on, and nothing else changes. -/
theorem Queued.goes (h : Queued d) {c : Consumer} (hc : Copies d.received d.delivered c) :
    Queued { d with consumer := c } :=
  ⟨h.delivered, h.rxConsumed, h.unread, h.holds, h.overruns, h.reads, hc⟩

/-- After the renewal the count starts from the bytes written. -/
theorem Counted.renew (h : Counted rxTransferCount d) {estimate : UInt32}
    (hnear : Near (UInt32.ofNat d.received.length) estimate) :
    Counted rxTransferCount (d.renew rxTransferCount estimate) := by
  refine ⟨h.writeAddr, ?_, h.reports⟩
  rw [DmaReceive.renew]
  dsimp only
  rw [h.writeAddr, add_advance hnear, UInt32.add_sub_cancel, List.length_nil, Nat.add_zero]

/-- The channel takes a byte. -/
theorem Counted.fetch (h : Counted rxTransferCount d) (byte : UInt8) :
    Counted rxTransferCount
      { d with transferCount := d.transferCount - 1, inFlight := d.inFlight ++ [byte] } := by
  refine ⟨h.writeAddr, ?_, h.reports⟩
  dsimp only
  rw [List.length_append, List.length_singleton, ← Nat.add_assoc, UInt32.ofNat_add, ← h.position]
  grind

/-- The channel writes a byte. -/
theorem Counted.commit (h : Counted rxTransferCount d) {byte : UInt8} {rest : List UInt8}
    (hflight : d.inFlight = byte :: rest) (rxBuffer : Nat → UInt8) :
    Counted rxTransferCount { d with
      rxBuffer
      writeAddr := (d.writeAddr + 1) % ringSize
      inFlight := rest
      received := d.received ++ [byte] } := by
  refine ⟨?_, ?_, h.reports⟩
  · dsimp only
    rw [h.writeAddr, List.length_append, List.length_singleton, Nat.mod_add_mod]
  · have hposition := h.position
    rw [hflight, List.length_cons] at hposition
    dsimp only
    rw [hposition, List.length_append, List.length_singleton, Nat.add_assoc,
      Nat.add_comm 1]

private theorem Queued.commit (h : Queued d) (haddr : d.writeAddr = d.received.length % ringSize)
    (hroom : d.unread < ringSize) (byte : UInt8) (rest : List UInt8) :
    Queued { d with
      rxBuffer := Function.update d.rxBuffer d.writeAddr byte
      writeAddr := (d.writeAddr + 1) % ringSize
      inFlight := rest
      received := d.received ++ [byte] } := by
  have hle := h.delivered.length_le
  refine ⟨h.delivered.trans (List.prefix_append _ _), h.rxConsumed, ?_, ?_, h.overruns, h.reads, ?_⟩
  · rw [DmaReceive.unread] at hroom ⊢
    dsimp only
    rw [List.length_append, List.length_singleton]
    change d.received.length + 1 - d.delivered.length ≤ ringSize
    omega
  · rw [DmaReceive.unread] at hroom
    dsimp only
    rw [haddr, List.length_append, List.length_singleton]
    apply (h.holds.append [byte]).push
    · omega
    · exact List.getElem?_concat_length ..
  · have hcopies := h.copies
    change Copies (d.received ++ [byte]) d.delivered d.consumer
    cases hconsumer : d.consumer with
    | copying read count =>
      rw [hconsumer] at hcopies
      obtain ⟨hcount, hbytes, hend, hprefix⟩ := hcopies
      refine ⟨hcount, hbytes, ?_, hprefix.trans (List.prefix_append _ _)⟩
      rw [List.length_append]
      exact hend.trans (Nat.le_add_right _ _)
    | _ => trivial

/-- `produced` returns the number of bytes written. -/
theorem Counted.produced (h : Counted rxTransferCount d) (hflight : d.inFlight = []) :
    d.rxBase + rxTransferCount - d.transferCount = UInt32.ofNat d.received.length := by
  have hposition := h.position
  rwa [hflight, List.length_nil, Nat.add_zero] at hposition

/-- What is pending is what is unread. -/
theorem Queued.pending (h : Queued d) :
    UInt32.ofNat d.received.length - d.rxConsumed = UInt32.ofNat d.unread := by
  have hring : ringSize < 2 ^ 32 := by decide
  have hunread := h.unread
  rw [DmaReceive.unread] at hunread
  rw [h.rxConsumed]
  exact counter_sub h.delivered.length_le (by omega)

private theorem Queued.toNat_unread (h : Queued d) : (UInt32.ofNat d.unread).toNat = d.unread := by
  have hring : ringSize < 2 ^ 32 := by decide
  rw [UInt32.toNat_ofNat', Nat.mod_eq_of_lt (h.unread.trans_lt hring)]

/-- Without overrun, nothing is skipped. -/
theorem limit_of_le {pending : UInt32} (h : pending.toNat ≤ ringSize) :
    d.limit pending = (d, pending) := by
  have hle : ¬ pending > UInt32.ofNat ringSize := by
    rw [gt_iff_lt, UInt32.lt_iff_toNat_lt]
    exact Nat.not_lt.mpr h
  rw [limit, if_neg hle]

/-- What the consumer does with the result of `produced`. -/
def answered (unread : Nat) : Caller → Consumer
  | .receiveLoop => .idle
  | .readAvailable asked => .copying ⟨asked, unread, []⟩ (min asked unread)

private theorem Queued.report_eq (h : Queued d) (hc : Counted rxTransferCount d)
    (hflight : d.inFlight = []) (caller : Caller) : d.report rxTransferCount caller = { d with
      reports := d.reports ++ [(UInt32.ofNat d.received.length, d.received.length)]
      consumer := answered d.unread caller } := by
  unfold report
  rw [hc.produced hflight]
  cases caller with
  | receiveLoop => rfl
  | readAvailable asked =>
    have hle : (UInt32.ofNat d.unread).toNat ≤ ringSize := h.toNat_unread.trans_le h.unread
    dsimp only
    rw [h.pending, limit_of_le hle, h.toNat_unread]
    rfl

/-- A call of `produced` is right, whatever `readAvailable` makes of it. -/
theorem Counted.report (h : Counted rxTransferCount d) (hflight : d.inFlight = [])
    (caller : Caller) : Counted rxTransferCount (d.report rxTransferCount caller) := by
  have hreported : Counted rxTransferCount
      { d with reports := d.reports ++ [(UInt32.ofNat d.received.length, d.received.length)] } := by
    refine ⟨h.writeAddr, h.position, ?_⟩
    intro p hp
    rcases List.mem_append.mp hp with hold | hnew
    · exact h.reports p hold
    · rw [List.mem_singleton.mp hnew]
  unfold DmaReceive.report
  rw [h.produced hflight]
  cases caller with
  | receiveLoop => exact hreported.congr rfl rfl rfl rfl rfl rfl
  | readAvailable asked =>
    dsimp only
    unfold limit
    split
    · exact hreported.congr rfl rfl rfl rfl rfl rfl
    · exact hreported.congr rfl rfl rfl rfl rfl rfl

private theorem Queued.report (h : Queued d) (reports : List (UInt32 × Nat)) (caller : Caller) :
    Queued { d with reports, consumer := answered d.unread caller } := by
  refine ⟨h.delivered, h.rxConsumed, h.unread, h.holds, h.overruns, h.reads, ?_⟩
  cases caller with
  | receiveLoop => trivial
  | readAvailable asked =>
    have hle := h.delivered.length_le
    refine ⟨rfl, Nat.zero_le _, ?_, ?_⟩
    · change d.delivered.length + min asked d.unread ≤ d.received.length
      rw [DmaReceive.unread]
      omega
    · rw [List.append_nil]
      exact h.delivered

/-- A byte is copied from the cell of its number. -/
theorem Queued.source (h : Queued d) {count i : Nat} (hi : i < count) (hcount : count ≤ ringSize) :
    d.source count i = (d.delivered.length + i) % ringSize := by
  have hlt : d.delivered.length % ringSize < ringSize := Nat.mod_lt _ (by decide)
  rw [DmaReceive.source, h.rxConsumed, ringOffset_ofNat]
  split
  · next hfirst => exact (offset_add (by omega)).symm
  · next hwrapped =>
    rw [offset_add_wrapped (by omega) (by omega)]
    omega

/-- Another byte is copied. -/
theorem Queued.copy (h : Queued d) {read : Read} {count : Nat}
    (hconsumer : d.consumer = .copying read count) (hlt : read.bytes.length < count) :
    Queued { d with
      consumer := .copying
        { read with bytes := read.bytes ++ [d.rxBuffer (d.source count read.bytes.length)] }
        count } := by
  have hcopies := h.copies
  rw [hconsumer] at hcopies
  obtain ⟨hcount, hbytes, hend, hprefix⟩ := hcopies
  have hunread := h.unread
  rw [DmaReceive.unread] at hunread
  have hbyte := h.holds (d.delivered.length + read.bytes.length) (Nat.le_add_right _ _) (by omega)
  rw [← h.source hlt (by omega)] at hbyte
  apply h.goes
  refine ⟨hcount, ?_, hend, ?_⟩
  · rw [List.length_append]
    exact hlt
  · rw [← List.append_assoc]
    apply prefix_concat hprefix
    rw [List.length_append]
    exact hbyte

/-- The read is done. -/
theorem Queued.finish (h : Queued d) {read : Read} {count : Nat}
    (hconsumer : d.consumer = .copying read count) (hdone : ¬ read.bytes.length < count)
    (receiveErrors : UInt32) :
    Queued { d with
      rxConsumed := d.rxConsumed + UInt32.ofNat count
      receiveErrors
      reads := d.reads ++ [read]
      consumer := .idle } := by
  have hcopies := h.copies
  rw [hconsumer] at hcopies
  obtain ⟨hcount, hbytes, hend, hprefix⟩ := hcopies
  have hlength : read.bytes.length = count := by omega
  have hdelivered : (d.reads ++ [read]).flatMap (·.bytes) = d.delivered ++ read.bytes := by
    rw [List.flatMap_append, List.flatMap_singleton]
    rfl
  have hle := hprefix.length_le
  have hunread := h.unread
  rw [List.length_append] at hle
  rw [DmaReceive.unread] at hunread
  refine ⟨?_, ?_, ?_, ?_, h.overruns, ?_, trivial⟩
  · rw [DmaReceive.delivered, hdelivered]
    exact hprefix
  · rw [DmaReceive.delivered, hdelivered, List.length_append, hlength, h.rxConsumed]
    exact counter_add _ _
  · rw [DmaReceive.unread, DmaReceive.delivered, hdelivered, List.length_append]
    dsimp only
    omega
  · rw [DmaReceive.delivered, hdelivered, List.length_append]
    exact h.holds.mono (Nat.le_add_right _ _) le_rfl
  · intro r hr
    rcases List.mem_append.mp hr with hold | hnew
    · exact h.reads r hold
    · rw [List.mem_singleton.mp hnew, hlength, hcount]

private theorem Counted.consume (h : Counted rxTransferCount d) (hg : d.Renewing (.consume rsr))
    (hstep : d.consume rxTransferCount rsr = .ok d') : Counted rxTransferCount d' := by
  unfold DmaReceive.consume at hstep
  unfold Renewing at hg
  cases hconsumer : d.consumer with
  | idle =>
    rw [hconsumer] at hstep
    cases hstep
  | entered caller =>
    rw [hconsumer] at hstep hg
    dsimp only at hstep hg
    split at hstep
    · cases hstep
      exact h.congr rfl rfl rfl rfl rfl rfl
    · next hmany =>
      cases hstep
      exact h.report (hg.resolve_left hmany) caller
  | masked caller =>
    rw [hconsumer] at hstep
    cases hstep
    exact h.congr rfl rfl rfl rfl rfl rfl
  | estimated caller estimate =>
    rw [hconsumer] at hstep hg
    cases hstep
    exact (h.renew hg).congr rfl rfl rfl rfl rfl rfl
  | renewed caller =>
    rw [hconsumer] at hstep hg
    cases hstep
    exact h.report hg caller
  | copying read count =>
    rw [hconsumer] at hstep
    dsimp only at hstep
    split at hstep
    · cases hstep
      exact h.congr rfl rfl rfl rfl rfl rfl
    · cases hstep
      exact h.congr rfl rfl rfl rfl rfl rfl

private theorem Queued.consume (h : Queued d) (hc : Counted rxTransferCount d)
    (hg : d.Renewing (.consume rsr)) (hstep : d.consume rxTransferCount rsr = .ok d') :
    Queued d' := by
  unfold DmaReceive.consume at hstep
  unfold Renewing at hg
  cases hconsumer : d.consumer with
  | idle =>
    rw [hconsumer] at hstep
    cases hstep
  | entered caller =>
    rw [hconsumer] at hstep hg
    dsimp only at hstep hg
    split at hstep
    · cases hstep
      exact h.goes trivial
    · next hmany =>
      cases hstep
      rw [h.report_eq hc (hg.resolve_left hmany)]
      exact h.report _ caller
  | masked caller =>
    rw [hconsumer] at hstep
    cases hstep
    exact h.goes trivial
  | estimated caller estimate =>
    rw [hconsumer] at hstep
    cases hstep
    exact ⟨h.delivered, h.rxConsumed, h.unread, h.holds, h.overruns, h.reads, trivial⟩
  | renewed caller =>
    rw [hconsumer] at hstep hg
    cases hstep
    rw [h.report_eq hc hg]
    exact h.report _ caller
  | copying read count =>
    rw [hconsumer] at hstep
    dsimp only at hstep
    split at hstep
    · next hlt =>
      cases hstep
      exact h.copy hconsumer hlt
    · next hdone =>
      cases hstep
      exact h.finish hconsumer hdone _

private theorem Counted.call (h : Counted rxTransferCount d) {caller : Caller}
    (hstep : d.call caller = .ok d') : Counted rxTransferCount d' := by
  unfold DmaReceive.call at hstep
  split at hstep
  · split at hstep
    · cases hstep
      exact h.congr rfl rfl rfl rfl rfl rfl
    · cases hstep
      exact h.congr rfl rfl rfl rfl rfl rfl
  · cases hstep

/-- A call for no bytes returns none, at once. -/
theorem Queued.call (h : Queued d) {caller : Caller} (hstep : d.call caller = .ok d') :
    Queued d' := by
  unfold DmaReceive.call at hstep
  split at hstep
  · split at hstep
    · next hidle hnone =>
      cases hstep
      have hdelivered : (d.reads ++ [(⟨0, d.unread, []⟩ : Read)]).flatMap (·.bytes) =
          d.delivered := by
        rw [List.flatMap_append, List.flatMap_singleton, List.append_nil]
        rfl
      refine ⟨?_, ?_, ?_, ?_, h.overruns, ?_, ?_⟩
      · rw [DmaReceive.delivered, hdelivered]
        exact h.delivered
      · rw [DmaReceive.delivered, hdelivered]
        exact h.rxConsumed
      · rw [DmaReceive.unread, DmaReceive.delivered, hdelivered]
        exact h.unread
      · rw [DmaReceive.delivered, hdelivered]
        exact h.holds
      · intro r hr
        rcases List.mem_append.mp hr with hold | hnew
        · exact h.reads r hold
        · rw [List.mem_singleton.mp hnew, Nat.zero_min]
          rfl
      · dsimp only
        rw [hidle]
        trivial
    · cases hstep
      exact h.goes trivial
  · cases hstep

/-- Every step keeps the count right. -/
theorem Counted.step (h : Counted rxTransferCount d) {a : Act} (hg : d.Renewing a)
    (hstep : d.step rxTransferCount a = .ok d') : Counted rxTransferCount d' := by
  cases a with
  | call caller => exact h.call hstep
  | consume rsr => exact h.consume hg hstep
  | fetch byte =>
    rw [DmaReceive.step, DmaReceive.fetch] at hstep
    split at hstep
    · cases hstep
    · cases hstep
      exact h.fetch byte
  | commit =>
    rw [DmaReceive.step, DmaReceive.commit] at hstep
    split at hstep
    · cases hstep
    · next byte rest hflight =>
      cases hstep
      exact h.commit hflight _

/-- Every step without overrun keeps the queue. -/
theorem Queued.step (h : Queued d) (hc : Counted rxTransferCount d) {a : Act} (hg : d.Regular a)
    (hstep : d.step rxTransferCount a = .ok d') : Queued d' := by
  cases a with
  | call caller => exact h.call hstep
  | consume rsr => exact h.consume hc hg.1 hstep
  | fetch byte =>
    rw [DmaReceive.step, DmaReceive.fetch] at hstep
    split at hstep
    · cases hstep
    · cases hstep
      exact ⟨h.delivered, h.rxConsumed, h.unread, h.holds, h.overruns, h.reads, h.copies⟩
  | commit =>
    rw [DmaReceive.step, DmaReceive.commit] at hstep
    split at hstep
    · cases hstep
    · next byte rest hflight =>
      cases hstep
      exact h.commit hc.writeAddr (hg.2 rfl) byte rest

end

/-! ### Every call returns -/

/-- The steps a call has yet to take, at most. -/
def left : Consumer → Nat
  | .idle => 0
  | .copying read count => count - read.bytes.length + 1
  | .renewed _ => ringSize + 2
  | .estimated _ _ => ringSize + 3
  | .masked _ => ringSize + 4
  | .entered _ => ringSize + 5

private theorem toNat_limit_le (d : DmaReceive) (pending : UInt32) :
    (d.limit pending).2.toNat ≤ ringSize := by
  rw [limit]
  split
  · exact le_rfl
  · next h =>
    rw [gt_iff_lt, UInt32.lt_iff_toNat_lt] at h
    exact Nat.not_lt.mp h

private theorem left_report (d : DmaReceive) (rxTransferCount : UInt32) (caller : Caller) :
    left (d.report rxTransferCount caller).consumer < ringSize + 2 := by
  unfold report
  cases caller with
  | receiveLoop => exact Nat.succ_pos _
  | readAvailable asked =>
    have hle := toNat_limit_le { d with
      reports := d.reports ++ [(d.rxBase + rxTransferCount - d.transferCount, d.received.length)] }
      (d.rxBase + rxTransferCount - d.transferCount - d.rxConsumed)
    have hmin := Nat.min_le_right asked (limit { d with
      reports := d.reports ++ [(d.rxBase + rxTransferCount - d.transferCount, d.received.length)] }
      (d.rxBase + rxTransferCount - d.transferCount - d.rxConsumed)).2.toNat
    dsimp only [left]
    rw [List.length_nil]
    omega

/-- A consumer that is in a call can take its next step, whatever the channel does, and comes
closer to the end of the call. -/
theorem consume_progress {d : DmaReceive} (rxTransferCount rsr : UInt32)
    (h : d.consumer ≠ .idle) :
    ∃ d', d.step rxTransferCount (.consume rsr) = .ok d' ∧ left d'.consumer < left d.consumer := by
  rw [step, consume]
  cases hconsumer : d.consumer with
  | idle => exact absurd hconsumer h
  | entered caller =>
    dsimp only
    split
    · exact ⟨_, rfl, Nat.lt_succ_self _⟩
    · have hlt := left_report d rxTransferCount caller
      exact ⟨_, rfl, hlt.trans (Nat.add_lt_add_left (by decide) ringSize)⟩
  | masked caller => exact ⟨_, rfl, Nat.lt_succ_self _⟩
  | estimated caller estimate => exact ⟨_, rfl, Nat.lt_succ_self _⟩
  | renewed caller => exact ⟨_, rfl, left_report d rxTransferCount caller⟩
  | copying read count =>
    dsimp only
    split
    · next hlt =>
      refine ⟨_, rfl, ?_⟩
      dsimp only [left]
      rw [List.length_append, List.length_singleton]
      omega
    · exact ⟨_, rfl, Nat.succ_pos _⟩

/-! ### The received bytes -/

/-- What `readAvailable` has returned is what was received, each call as much as was asked for
and there; and a call under way will return. -/
structure Exact (rxTransferCount : UInt32) (d : DmaReceive) : Prop where
  in_order : d.delivered <+: d.received
  complete : ∀ r ∈ d.reads, r.bytes.length = min r.asked r.available
  overruns : d.overruns = 0
  returns : d.consumer ≠ .idle → ∀ rsr, ∃ d', d.step rxTransferCount (.consume rsr) = .ok d' ∧
    left d'.consumer < left d.consumer

private theorem counted_new (rxTransferCount : UInt32) (rxBuffer : Nat → UInt8) :
    Counted rxTransferCount (new rxTransferCount rxBuffer) := by
  refine ⟨rfl, ?_, ?_⟩
  · rw [new]
    exact UInt32.add_sub_cancel _ _
  · intro p hp
    cases hp

private theorem queued_new (rxTransferCount : UInt32) (rxBuffer : Nat → UInt8) :
    Queued (new rxTransferCount rxBuffer) := by
  refine ⟨List.prefix_rfl, rfl, Nat.zero_le _, ?_, rfl, ?_, trivial⟩
  · intro k _ hk
    exact absurd hk (Nat.not_lt_zero k)
  · intro r hr
    cases hr

/-- For any number of bytes and renewals, every call of `produced` returns the number of bytes
written, modulo `2 ^ 32`, and without overrun the bytes read are those received. -/
theorem receive_survives_renewal (rxTransferCount : UInt32) (rxBuffer : Nat → UInt8) :
    (∀ d, Reachable (step rxTransferCount) Renewing (new rxTransferCount rxBuffer) d →
      ∀ p ∈ d.reports, p.1 = UInt32.ofNat p.2) ∧
    ∀ d, Reachable (step rxTransferCount) Regular (new rxTransferCount rxBuffer) d →
      d.Exact rxTransferCount := by
  constructor
  · intro d h
    have hcounted := h.invariant _ (counted_new rxTransferCount rxBuffer)
      fun _ _ _ hi hg hs ↦ hi.step hg hs
    exact hcounted.reports
  · intro d h
    have hboth := h.invariant (fun d ↦ Counted rxTransferCount d ∧ Queued d)
      ⟨counted_new rxTransferCount rxBuffer, queued_new rxTransferCount rxBuffer⟩
      fun _ _ _ hi hg hs ↦ ⟨hi.1.step hg.1 hs, hi.2.step hi.1 hg hs⟩
    exact ⟨hboth.2.delivered, hboth.2.reads, hboth.2.overruns,
      fun hbusy rsr ↦ consume_progress rxTransferCount rsr hbusy⟩

/-- A channel that counts to three: one byte is written, a second one is in flight when the count
is read and dropped at the abort, and a third one is written after the renewal. -/
def lateByte : List Act :=
  [.fetch 1, .commit, .fetch 2, .call (.readAvailable 5), .consume 0, .consume 0, .consume 0,
    .fetch 3, .commit, .consume 0, .consume 0, .consume 0, .consume 0]

/-- Reports and reads stay exact across the renewal of `lateByte`. -/
theorem receive_late_byte :
    ∃ d, Reachable (step 3) Regular (new 3 fun _ ↦ 0) d ∧
      (d.reports = [(2, 2)] ∧ d.reads = [⟨5, 2, [1, 3]⟩] ∧ d.rxBase = 1) ∧
      (∀ p ∈ d.reports, p.1 = UInt32.ofNat p.2) ∧ d.Exact 3 := by
  obtain ⟨d, hr, ht⟩ := Reachable.of_test (step 3) Regular (new 3 fun _ ↦ 0) lateByte
    (fun d ↦ d.reports = [(2, 2)] ∧ d.reads = [⟨5, 2, [1, 3]⟩] ∧ d.rxBase = 1)
    (by decide) (by decide)
  exact ⟨d, hr, of_decide_eq_true ht,
    (receive_survives_renewal 3 fun _ ↦ 0).1 d (hr.mono fun _ _ h ↦ h.1),
    (receive_survives_renewal 3 fun _ ↦ 0).2 d hr⟩

end DmaReceive

end RooTransport.Pico
