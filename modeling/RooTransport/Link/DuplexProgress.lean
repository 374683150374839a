import RooTransport.Link.Duplex
import RooTransport.Link.LaneProgress

/-!
# No run of a link gets stuck

Two channels that have both called `connect`, after any losses so far. If the medium delivers
what is sent, the handshakes of `channel.cpp:297–345` can connect both ends, whichever of them had
been lost, and the regular calls of `channel.cpp:241–274` can then bring everything that either
application has written to the other, and the end of each stream that was closed. While an end
waits for the acknowledgement of its stream it sends no notices, so the other end cannot finish
its own stream and stop answering handshakes before.
-/

namespace RooTransport.Link

open RooTransport.Base RingBuffer

/-- The regular calls of an end up to the time `T`, and deliveries. -/
def EndpointAct.Regular (T : Uptime) : EndpointAct → Prop
  | .call (.conn now draw _) | .call (.send now draw _) => now ≤ T ∧ draw ≤ randomIntegerMax
  | .call (.sendHimark now _) => now ≤ T
  | .call .sendAck | .call (.read _ _) | .call (.readTurn _ _) | .call (.tryRead _ _)
  | .receive => True
  | _ => False

private theorem Endpoint.step_regular {m n m' n' : LinkBufferSize} {T : Uptime} {x : Endpoint m n}
    {y : Endpoint m' n'} {a : EndpointAct} {out : Endpoint m n × Endpoint m' n'} (ha : a.Regular T)
    (h : x.step y a = .ok out) :
    (out.1.accepted = x.accepted ∧ out.1.closed = x.closed) ∧
      out.2.accepted = y.accepted ∧ out.2.closed = y.closed := by
  cases a with
  | lose i => exact ha.elim
  | receive =>
    rw [step] at h
    split at h
    · obtain rfl := Except.ok.inj h
      exact ⟨⟨rfl, rfl⟩, rfl, rfl⟩
    · obtain ⟨got, -, rfl⟩ := map_eq_ok.mp h
      exact ⟨⟨rfl, rfl⟩, rfl, rfl⟩
  | call a =>
    obtain ⟨c, -, rfl⟩ := map_eq_ok.mp h
    have hnone : x.channel.taken a = [] ∧ x.channel.closes a = false := by
      cases a with
      | conn | send | sendHimark | sendAck | read | readTurn | tryRead => exact ⟨rfl, rfl⟩
      | _ => exact ha.elim
    simp [after, hnone]

namespace Duplex

variable {m n m' n' : LinkBufferSize} {T : Uptime}

/-- Any step before the time `H`. -/
def Until (H : Uptime) (d : Duplex m n m' n') (a : Act) : Prop := d.Allowed a ∧ a.clock ≤ H

instance (H : Uptime) (d : Duplex m n m' n') (a : Act) : Decidable (d.Until H a) :=
  inferInstanceAs (Decidable (_ ∧ _))

/-- The regular calls of both ends up to the time `T`, and deliveries. -/
def Undisturbed (T : Uptime) (d : Duplex m n m' n') (a : Act) : Prop :=
  d.Allowed a ∧ match a with
    | .near a | .far a => a.Regular T

private theorem Undisturbed.mono {T' : Uptime} {d : Duplex m n m' n'} {a : Act}
    (h : d.Undisturbed T a) (hT : T ≤ T') : d.Undisturbed T' a := by
  have hreg (a : EndpointAct) (ha : a.Regular T) : a.Regular T' := by
    unfold EndpointAct.Regular at ha ⊢
    split at ha
    · exact ⟨ha.1.trans hT, ha.2⟩
    · exact ⟨ha.1.trans hT, ha.2⟩
    · exact le_trans ha hT
    all_goals trivial
  cases a with
  | near a => exact ⟨h.1, hreg a h.2⟩
  | far a => exact ⟨h.1, hreg a h.2⟩

/-- Nothing is written or closed. -/
theorem undisturbed_same {d d' : Duplex m n m' n'} (hr : Reachable step (Undisturbed T) d d') :
    (d'.near.accepted = d.near.accepted ∧ d'.near.closed = d.near.closed) ∧
      d'.far.accepted = d.far.accepted ∧ d'.far.closed = d.far.closed := by
  refine hr.invariant (fun d' : Duplex m n m' n' ↦
    (d'.near.accepted = d.near.accepted ∧ d'.near.closed = d.near.closed) ∧
      d'.far.accepted = d.far.accepted ∧ d'.far.closed = d.far.closed)
    ⟨⟨rfl, rfl⟩, rfl, rfl⟩ ?_
  intro d1 a d2 h1 hg hs
  cases a with
  | near a =>
    obtain ⟨out, hout, rfl⟩ := map_eq_ok.mp hs
    obtain ⟨hx, hy⟩ := Endpoint.step_regular hg.2 hout
    rw [hx.1, hx.2, hy.1, hy.2]
    exact h1
  | far a =>
    obtain ⟨out, hout, rfl⟩ := map_eq_ok.mp hs
    obtain ⟨hy, hx⟩ := Endpoint.step_regular hg.2 hout
    rw [hx.1, hx.2, hy.1, hy.2]
    exact h1

/-- The same connection seen from the other end. -/
def swap (d : Duplex m n m' n') : Duplex m' n' m n := ⟨d.far, d.near⟩

/-- The same step seen from the other end. -/
def Act.swap : Act → Act
  | .near a => .far a
  | .far a => .near a

private theorem step_swap {d d' : Duplex m n m' n'} {a : Act} (h : d.step a = .ok d') :
    d.swap.step a.swap = .ok d'.swap := by
  cases a with
  | near a =>
    obtain ⟨out, hout, rfl⟩ := map_eq_ok.mp h
    exact map_eq_ok.mpr ⟨out, hout, rfl⟩
  | far a =>
    obtain ⟨out, hout, rfl⟩ := map_eq_ok.mp h
    exact map_eq_ok.mpr ⟨out, hout, rfl⟩

/-- What can be reached with the ends exchanged can be reached. -/
theorem leads_swap {d : Duplex m n m' n'} {P : Duplex m n m' n' → Prop}
    (h : Leads step (Undisturbed T) d.swap fun d' ↦ P d'.swap) :
    Leads step (Undisturbed T) d P := by
  obtain ⟨d', hr, hp⟩ := h
  refine ⟨d'.swap, hr.map swap Act.swap (fun e a e' hg hs ↦ ⟨?_, step_swap hs⟩), hp⟩
  cases a with
  | near a => exact hg
  | far a => exact hg

private theorem leads_near {x : Endpoint m n} {y : Endpoint m' n'} {a : EndpointAct}
    {P : Duplex m n m' n' → Prop} (hal : x.Allows y a) (hreg : a.Regular T)
    (h : Yields (x.step y a) fun out ↦ P ⟨out.1, out.2⟩) :
    Leads step (Undisturbed T) ⟨x, y⟩ P :=
  .one (a := .near a) ⟨hal, hreg⟩ h.map

private theorem leads_far {x : Endpoint m n} {y : Endpoint m' n'} {a : EndpointAct}
    {P : Duplex m n m' n' → Prop} (hal : y.Allows x a) (hreg : a.Regular T)
    (h : Yields (y.step x a) fun out ↦ P ⟨out.2, out.1⟩) :
    Leads step (Undisturbed T) ⟨x, y⟩ P :=
  .one (a := .far a) ⟨hal, hreg⟩ h.map

end Duplex

namespace Endpoint

variable {m n m' n' : LinkBufferSize}

section

variable {x : Endpoint m n} {y : Endpoint m' n'} {a b : UInt32} {s t : SeqNum} {d T : Uptime}
  {l : Lane m n'} {k : Lane m' n}

/-! ### The handshake -/

private theorem Onward.trans {c c' c'' : Channel m n} (h : Onward c c') (h' : Onward c' c'') :
    Onward c c'' :=
  ⟨fun hst ↦ h'.tx (h.tx hst), fun hst ↦ h'.rx (h.rx hst)⟩

/-- The first packet of `x` reaches `y`. -/
theorem far_receives {p : List UInt8} {rest : List (List UInt8)} {P : Channel m' n' → Prop}
    (hx : x.outbox = p :: rest) (h : Yields ((y.channel.packetReceived p).map Prod.fst) P) :
    Leads Duplex.step (Duplex.Undisturbed T) ⟨x, y⟩ fun e ↦
      ∃ c, P c ∧ e = ⟨{ x with outbox := rest }, { y with channel := c }⟩ := by
  have hal : y.Allows x .receive := trivial
  refine Duplex.leads_far hal trivial ((step_receive hx h).mono ?_)
  rintro out ⟨c, hc, hy', hx'⟩
  exact ⟨c, hc, by rw [hx', hy']⟩

/-- All packets of `x` but the last reach `y`. -/
theorem Met.receive_front {front : List (List UInt8)} {p : List UInt8}
    (h : Met x y a b s t d l k) (hd : 2 ^ 32 ≤ d) (hx : x.outbox = front ++ [p]) :
    Leads Duplex.step (Duplex.Undisturbed T) ⟨x, y⟩ fun e ↦ ∃ c l' k',
      e = ⟨{ x with outbox := [p] }, { y with channel := c }⟩ ∧
      Met { x with outbox := [p] } { y with channel := c } a b s t d l' k' ∧
      Onward y.channel c := by
  induction front generalizing x y l k with
  | nil =>
    have hsame : { x with outbox := [p] } = x := by rw [← List.nil_append [p], ← hx]
    rw [hsame]
    exact .here ⟨y.channel, l, k, rfl, h, fun hst ↦ hst, fun hst ↦ hst⟩
  | cons q front ih =>
    refine (far_receives hx (h.swap.receive hd hx)).trans ?_
    rintro e ⟨c, ⟨k', l', h', hon⟩, rfl⟩
    refine (ih h'.swap rfl).trans ?_
    rintro e ⟨c', l'', k'', rfl, h'', hon'⟩
    exact .here ⟨c', l'', k'', rfl, h'', hon.trans hon'⟩

/-- The packets of `x` reach `y`, the last of them a handshake. -/
theorem Met.receive_hello {front : List (List UInt8)} {p : List UInt8} {first : SeqNum}
    {ack : UInt32} {want : Bool} (h : Met x y a b s t d l k) (hd : 2 ^ 32 ≤ d)
    (hx : x.outbox = front ++ [p]) (hello : Hello x y a b s p first ack want) :
    Leads Duplex.step (Duplex.Undisturbed T) ⟨x, y⟩ fun e ↦ ∃ c l' k',
      e = ⟨{ x with outbox := [] }, { y with channel := c }⟩ ∧
      Met { x with outbox := [] } { y with channel := c } a b s t d l' k' ∧
      Onward y.channel c ∧ c.receiver.state = .connected ∧ c.needsHandshakeAck = want ∧
      (ack = b → c.transmitter.state ≠ .connecting) := by
  have htype : getPacketType (loadBeU16 p) = some .handshake := by
    rw [hello.packet, Channel.getPacketType_formatHandshake]
  refine (h.receive_front hd hx).trans ?_
  rintro e ⟨c, l', k', rfl, h', hon⟩
  have hpass : Met { y with channel := c } { x with outbox := [] } b a t s d k' l' :=
    h'.swap.pass rfl (isData_handshake htype) (isNotice_handshake htype)
  have hhello : Hello { x with outbox := [] } { y with channel := c } a b s p first ack want :=
    hello.opened (fun hst ↦ hst) hon.rx
  refine (far_receives rfl (hpass.handshake hhello)).trans ?_
  rintro e ⟨c', ⟨h'', hans⟩, rfl⟩
  refine .here ⟨c', l', k', rfl, h''.swap, hon.trans hans.onward, hans.opened,
    hans.needsHandshakeAck, fun hack ↦ hans.acked (.inl ?_)⟩
  rw [hack, ← h'.far.id]

/-- `channel.cpp:297–345`: a stream that waits has its handshake sent when it is due, and an
answer is sent once it is called for. -/
theorem conn_sends {c : Channel m n} {now : Uptime} (draw next : Nat)
    (h : c.transmitter.state = .connecting ∧ c.nextScheduledHandshakeUpdate ≤ now ∨
      c.transmitter.state = .connected ∧ c.needsHandshakeAck = true) :
    (c.conn now draw next).2.1 ≠ [] := by
  have hne (front : SeqNum) (id peer : UInt32) (want : Bool) :
      formatHandshake front id peer want n ≠ [] := by
    intro hnil
    have := congrArg List.length hnil
    simp [formatHandshake, storeBeU16] at this
  unfold Channel.conn
  rcases h with ⟨hst, hdue⟩ | ⟨hst, hack⟩
  · rw [hst]
    dsimp only
    rw [if_neg (not_lt.mpr hdue)]
    exact hne _ _ _ _
  · rw [hst]
    dsimp only
    rw [if_neg (by simp [hack])]
    exact hne _ _ _ _

/-- A handshake of `x` goes out and reaches `y`. -/
theorem Met.greets (h : Met x y a b s t d l k)
    (hsends : x.channel.transmitter.state = .connecting ∨
      x.channel.transmitter.state = .connected ∧ x.channel.needsHandshakeAck = true)
    (hT : d ≤ T) :
    Leads Duplex.step (Duplex.Undisturbed T) ⟨x, y⟩ fun e ↦ ∃ l' k',
      Met e.near e.far a b s t (d + 2 ^ 32) l' k' ∧
      e.near.channel.transmitter = x.channel.transmitter ∧
      e.near.channel.receiver = x.channel.receiver ∧
      Onward y.channel e.far.channel ∧ e.far.channel.receiver.state = .connected ∧
      (x.channel.transmitter.state = .connecting → e.far.channel.needsHandshakeAck = true) ∧
      (x.channel.receiver.state = .connected → e.far.channel.transmitter.state ≠ .connecting) := by
  obtain ⟨now, hnow⟩ : ∃ now, now = x.channel.nextScheduledHandshakeUpdate := ⟨_, rfl⟩
  have hdue : now ≤ d := hnow.le.trans h.near.due
  have hal : x.Allows y (.call (.conn now 0 0)) := trivial
  have hreg : EndpointAct.Regular T (.call (.conn now 0 0)) := ⟨hdue.trans hT, Nat.zero_le _⟩
  have hne : (x.channel.conn now 0 0).2.1 ≠ [] :=
    conn_sends 0 0 (hsends.imp_left fun hst ↦ ⟨hst, hnow.ge⟩)
  have hpeer (hst : x.channel.receiver.state = .connected) : x.channel.peerStreamId = b :=
    (h.near.peer.resolve_left fun hno ↦ absurd (hst.symm.trans hno.1) (by simp)).2
  obtain ⟨needsAck, retries, update, hconn⟩ := Channel.conn_fst x.channel now 0 0
  have hrx : (x.channel.conn now 0 0).1.receiver = x.channel.receiver := by rw [hconn]
  have htx : (x.channel.conn now 0 0).1.transmitter = x.channel.transmitter := by rw [hconn]
  have hafter := (h.mono (Nat.le_add_right d (2 ^ 32))).conn (Nat.add_le_add_right hdue _) 0 0
  have hhello : Hello (x.after (.conn now 0 0) (x.channel.conn now 0 0).1) y a b s _ _ _ _ :=
    (h.hello hne).opened (fun hst ↦ (congrArg Receiver.state hrx).trans hst) fun hst ↦ hst
  have hsent : Leads Duplex.step (Duplex.Undisturbed T) ⟨x, y⟩
      (· = ⟨x.after (.conn now 0 0) (x.channel.conn now 0 0).1, y⟩) :=
    Duplex.leads_near hal hreg ⟨_, rfl, rfl⟩
  refine hsent.trans ?_
  rintro e rfl
  refine (hafter.receive_hello (Nat.le_add_left _ _) (if_neg hne) hhello).trans ?_
  rintro e ⟨c, l', k', rfl, h', hon, hopen, hneeds, hack⟩
  refine .here ⟨l', k', h', htx, hrx, hon, hopen, fun hst ↦ ?_, fun hst ↦ hack (hpeer hst)⟩
  simpa [hst] using hneeds

/-- A stream that waits for its acknowledgement gets it. -/
theorem Met.acknowledged (h : Met x y a b s t d l k) (hT : d + 2 ^ 32 ≤ T) :
    Leads Duplex.step (Duplex.Undisturbed T) ⟨x, y⟩ fun e ↦ ∃ l' k',
      Met e.near e.far a b s t (d + 2 ^ 33) l' k' ∧
      e.near.channel.transmitter.state ≠ .connecting ∧ Onward y.channel e.far.channel := by
  by_cases hst : x.channel.transmitter.state = .connecting
  swap
  · exact .here ⟨l, k, h.mono (Nat.le_add_right d _), hst, fun hst ↦ hst, fun hst ↦ hst⟩
  refine (h.greets (.inl hst) ((Nat.le_add_right d _).trans hT)).trans ?_
  rintro ⟨x1, y1⟩ ⟨l1, k1, h1, htx1, -, hon, hopen, hneeds, -⟩
  -- the answer is sent at once, or when the handshake of the other end is due
  have hsends : y1.channel.transmitter.state = .connecting ∨
      y1.channel.transmitter.state = .connected ∧ y1.channel.needsHandshakeAck = true := by
    by_cases hst1 : y1.channel.transmitter.state = .connecting
    · exact .inl hst1
    · have hidle := (h1.quiet ((congrArg Transmitter.state htx1).trans hst)).2
      obtain ⟨b', e', f', k', rb, u, re, log, fin, hl⟩ := h1.back.sound
      have hsame := (h1.back.tx.resolve_left fun hop ↦ hst1 (by rw [hop.1]; rfl)).2
      have hphase := hl.tx.sender.source.phase
      rw [hsame] at hphase
      exact .inr ⟨hphase.resolve_right hidle, hneeds hst⟩
  apply Duplex.leads_swap
  refine (h1.swap.greets hsends hT).trans ?_
  rintro ⟨y2, x2⟩ ⟨k2, l2, h2, htx2, hrx2, -, -, -, hack⟩
  have hsum : d + 2 ^ 32 + 2 ^ 32 = d + 2 ^ 33 := by ring
  rw [hsum] at h2
  refine .here ⟨l2, k2, h2.swap, hack hopen, fun hst ↦ ?_, fun hst ↦ ?_⟩
  · exact (congrArg Transmitter.state htx2).trans_ne (hon.tx hst)
  · exact (congrArg Receiver.state hrx2).trans (hon.rx hst)

/-- Both streams were acknowledged. -/
structure Settled (x : Endpoint m n) (y : Endpoint m' n') (a b : UInt32) (s t : SeqNum) (d : Uptime)
    (l : Lane m n') (k : Lane m' n) : Prop extends Met x y a b s t d l k where
  txNear : x.channel.transmitter.state ≠ .connecting
  txFar : y.channel.transmitter.state ≠ .connecting

private theorem Settled.swap (h : Settled x y a b s t d l k) : Settled y x b a t s d k l :=
  ⟨h.toMet.swap, h.txFar, h.txNear⟩

/-- The first packet of `y` reaches `x`. -/
theorem near_receives {p : List UInt8} {rest : List (List UInt8)} {P : Channel m n → Prop}
    (hy : y.outbox = p :: rest) (h : Yields ((x.channel.packetReceived p).map Prod.fst) P) :
    Leads Duplex.step (Duplex.Undisturbed T) ⟨x, y⟩ fun e ↦
      ∃ c, P c ∧ e = ⟨{ x with channel := c }, { y with outbox := rest }⟩ := by
  apply Duplex.leads_swap
  refine (far_receives hy h).trans ?_
  rintro e ⟨c, hc, rfl⟩
  exact .here ⟨c, hc, rfl⟩

private theorem Settled.rx (h : Settled x y a b s t d l k) :
    x.channel.receiver.state = .connected ∧ y.channel.receiver.state = .connected :=
  h.near.opened h.txNear

private theorem delivered {w : Wire.Act} {k1 k2 : Lane m' n} (hg : k.Undisturbed T w)
    (hs : k.step w = .ok k1) (hr : Reachable Lane.step (Lane.Undisturbed T) k1 k2) :
    Reachable Lane.step (Lane.Undisturbed T) k k2 :=
  (Reachable.next .start hg hs).trans hr

/-- The packets of `x` reach `y` up to the first that carries data. -/
theorem Settled.deliver_data {l' : Lane m n'} (h : Settled x y a b s t d l k) (hd : 2 ^ 32 ≤ d)
    (hne : l.wire.toRx ≠ []) (hs : l.step .deliverToRx = .ok l') :
    Leads Duplex.step (Duplex.Undisturbed T) ⟨x, y⟩ fun e ↦ ∃ k',
      Settled e.near e.far a b s t d l' k' ∧
        Reachable Lane.step (Lane.Undisturbed T) k k' := by
  induction hx : x.outbox generalizing x y k with
  | nil =>
    have hnone := h.out.toRx
    rw [hx] at hnone
    exact absurd (List.map_eq_nil_iff.mp hnone) hne
  | cons p rest ih =>
    by_cases hp : Lane.isData p = true
    · refine (far_receives hx (h.swap.receive_data hd hx hp)).trans ?_
      rintro e ⟨c, ⟨k1, l1, h1, hon, hlane⟩, rfl⟩
      obtain ⟨rfl, hok⟩ := hlane h.rx.2
      obtain rfl : l1 = l' := Except.ok.inj (hok.symm.trans hs)
      exact .here ⟨k1, ⟨h1.swap, h.txNear, hon.tx h.txFar⟩, .start⟩
    by_cases hn : Lane.isNotice p = true
    · refine (far_receives hx (h.swap.receive_notice hd hx hn)).trans ?_
      rintro e ⟨c, ⟨k1, l1, h1, hon, hlane⟩, rfl⟩
      obtain ⟨rfl, hok⟩ := hlane h.txFar
      refine (ih ⟨h1.swap, h.txNear, hon.tx h.txFar⟩ rfl).trans ?_
      rintro e ⟨k2, h2, hr⟩
      exact .here ⟨k2, h2, delivered (w := .deliverToTx) trivial hok hr⟩
    · refine (far_receives hx (h.swap.receive_other hx (by simpa using hp)
        (by simpa using hn))).trans ?_
      rintro e ⟨c, ⟨h1, hon⟩, rfl⟩
      exact ih ⟨h1.swap, h.txNear, hon.tx h.txFar⟩ rfl

/-- The packets of `y` reach `x` up to the first that carries a notice. -/
theorem Settled.deliver_notice {l' : Lane m n'} (h : Settled x y a b s t d l k) (hd : 2 ^ 32 ≤ d)
    (hne : l.wire.toTx ≠ []) (hs : l.step .deliverToTx = .ok l') :
    Leads Duplex.step (Duplex.Undisturbed T) ⟨x, y⟩ fun e ↦ ∃ k',
      Settled e.near e.far a b s t d l' k' ∧
        Reachable Lane.step (Lane.Undisturbed T) k k' := by
  induction hy : y.outbox generalizing x y k with
  | nil =>
    have hnone := h.out.toTx
    rw [hy] at hnone
    exact absurd (List.map_eq_nil_iff.mp hnone) hne
  | cons p rest ih =>
    by_cases hn : Lane.isNotice p = true
    · refine (near_receives hy (h.receive_notice hd hy hn)).trans ?_
      rintro e ⟨c, ⟨l1, k1, h1, hon, hlane⟩, rfl⟩
      obtain ⟨rfl, hok⟩ := hlane h.txNear
      obtain rfl : l1 = l' := Except.ok.inj (hok.symm.trans hs)
      exact .here ⟨k1, ⟨h1, hon.tx h.txNear, h.txFar⟩, .start⟩
    by_cases hp : Lane.isData p = true
    · refine (near_receives hy (h.receive_data hd hy hp)).trans ?_
      rintro e ⟨c, ⟨l1, k1, h1, hon, hlane⟩, rfl⟩
      obtain ⟨rfl, hok⟩ := hlane h.rx.1
      refine (ih ⟨h1, hon.tx h.txNear, h.txFar⟩ rfl).trans ?_
      rintro e ⟨k2, h2, hr⟩
      exact .here ⟨k2, h2, delivered (w := .deliverToRx) trivial hok hr⟩
    · refine (near_receives hy (h.receive_other hy (by simpa using hp) (by simpa using hn))).trans
        ?_
      rintro e ⟨c, ⟨h1, hon⟩, rfl⟩
      exact ih ⟨h1, hon.tx h.txNear, h.txFar⟩ rfl

/-- A regular step of the lane out is made by calls at its ends and by deliveries, which may be
steps of the lane back as well. -/
theorem Settled.lift {w : Wire.Act} {l' : Lane m n'} (h : Settled x y a b s t d l k)
    (hd : T + 2 ^ 32 ≤ d) (hg : l.Undisturbed T w) (hs : l.step w = .ok l') :
    Leads Duplex.step (Duplex.Undisturbed T) ⟨x, y⟩ fun e ↦ ∃ k',
      Settled e.near e.far a b s t d l' k' ∧
        Reachable Lane.step (Lane.Undisturbed T) k k' := by
  have hd' : 2 ^ 32 ≤ d := (Nat.le_add_left _ _).trans hd
  have hreads {c : Channel.Act} (ha : c.OnReceiver) (hal : y.Allows x (.call c))
      (hreg : EndpointAct.Regular T (.call c)) (hclock : c.clock + 2 ^ 32 ≤ d)
      (hlane : y.channel.laneIn c = some w) :
      Leads Duplex.step (Duplex.Undisturbed T) ⟨x, y⟩ fun e ↦ ∃ k',
        Settled e.near e.far a b s t d l' k' ∧
          Reachable Lane.step (Lane.Undisturbed T) k k' := by
    refine Duplex.leads_far hal hreg ((h.swap.receiver ha hal hclock).mono ?_)
    rintro out ⟨hx', l1, h1, htx, hok⟩
    have hok := hok h.rx.2
    rw [hlane] at hok
    obtain rfl : l1 = l' := Except.ok.inj (hok.symm.trans hs)
    rw [hx']
    exact ⟨k, ⟨h1.swap, h.txNear, htx ▸ h.txFar⟩, .start⟩
  cases w with
  | getBufferToSend now draw next =>
    have hal : x.Allows y (.call (.send now draw next)) := h.txNear
    have hclock : now + 2 ^ 32 ≤ d := (Nat.add_le_add_right hg.1 _).trans hd
    refine Duplex.leads_near hal hg
      ((h.transmitter (c := .send now draw next) trivial hal hclock).mono ?_)
    rintro out ⟨hy', l1, h1, hok⟩
    obtain ⟨hok, hst⟩ := hok h.txNear
    obtain rfl : l1 = l' := Except.ok.inj (hok.symm.trans hs)
    rw [hy']
    exact ⟨k, ⟨h1, hst, h.txFar⟩, .start⟩
  | updateRecvHimark now next =>
    have hclock : now + 2 ^ 32 ≤ d := (Nat.add_le_add_right hg _).trans hd
    exact hreads (c := .sendHimark now next) trivial h.txFar hg hclock rfl
  | tryRead count =>
    have hal : y.Allows x (.call (.readTurn count 0)) := trivial
    exact hreads (c := .readTurn count 0) trivial hal trivial (by simpa [Channel.Act.clock]) rfl
  | ack => exact hreads (c := .sendAck) trivial h.txFar trivial (by simpa [Channel.Act.clock]) rfl
  | deliverToRx =>
    by_cases hne : l.wire.toRx = []
    · rw [Lane.step, Wire.step, hne] at hs
      obtain rfl := Except.ok.inj hs
      simp only [Lane.taken, Lane.given, List.append_nil, reduceCtorEq, decide_false,
        Bool.or_false]
      exact .here ⟨k, h, .start⟩
    · exact h.deliver_data hd' hne hs
  | deliverToTx =>
    by_cases hne : l.wire.toTx = []
    · rw [Lane.step, Wire.step, hne] at hs
      obtain rfl := Except.ok.inj hs
      simp only [Lane.taken, Lane.given, List.append_nil, reduceCtorEq, decide_false,
        Bool.or_false]
      exact .here ⟨k, h, .start⟩
    · exact h.deliver_notice hd' hne hs
  | _ => exact hg.elim

/-- The same for a whole run of the lane. -/
theorem Settled.lift_run {l' : Lane m n'} (h : Settled x y a b s t d l k) (hd : T + 2 ^ 32 ≤ d)
    (hr : Reachable Lane.step (Lane.Undisturbed T) l l') :
    Leads Duplex.step (Duplex.Undisturbed T) ⟨x, y⟩ fun e ↦ ∃ k',
      Settled e.near e.far a b s t d l' k' ∧
        Reachable Lane.step (Lane.Undisturbed T) k k' := by
  induction hr with
  | start => exact .here ⟨k, h, .start⟩
  | next _ hg hs ih =>
    refine ih.trans ?_
    rintro ⟨x1, y1⟩ ⟨k1, h1, hr1⟩
    refine (h1.lift hd hg hs).trans ?_
    rintro e ⟨k2, h2, hr2⟩
    exact .here ⟨k2, h2, hr1.trans hr2⟩

/-! ### Both lanes -/

private theorem Settled.mono {d' : Uptime} (h : Settled x y a b s t d l k) (hd : d ≤ d') :
    Settled x y a b s t d' l k :=
  ⟨h.toMet.mono hd, h.txNear, h.txFar⟩

private theorem Settled.completes (h : Settled x y a b s t d l k) (hT : d + 2 ^ 45 ≤ T)
    (hmax : T ≤ uptimeMax) :
    Leads Duplex.step (Duplex.Undisturbed T) ⟨x, y⟩ fun e ↦ ∃ d' l' k',
      Settled e.near e.far a b s t d' l' k' ∧ l'.Complete ∧ k'.Complete := by
  obtain ⟨T1, hT1⟩ : ∃ T1, T1 = d + 2 ^ 44 := ⟨_, rfl⟩
  have hfirst : d + 1025 * 2 ^ 33 < T1 := by
    rw [hT1]
    exact Nat.add_lt_add_left (by norm_num) d
  have hlate : T1 + 2 ^ 32 + 1025 * 2 ^ 33 < T := by
    refine lt_of_lt_of_le ?_ hT
    rw [hT1, Nat.add_assoc, Nat.add_assoc]
    exact Nat.add_lt_add_left (by norm_num) d
  have hle : T1 ≤ T := le_trans (by rw [Nat.add_assoc]; exact Nat.le_add_right _ _) hlate.le
  -- one lane after the other; the first stays complete while the second is completed
  obtain ⟨l1, hrun, hdone⟩ := h.out.sound.completes hfirst (hle.trans hmax)
  have hlift := (h.mono ((Nat.le_add_right d _).trans
    (hfirst.le.trans (Nat.le_add_right T1 (2 ^ 32))))).lift_run (le_refl _) hrun
  refine (hlift.mono fun _ _ hg ↦ hg.mono hle).trans ?_
  rintro ⟨x1, y1⟩ ⟨k1, h1, -⟩
  obtain ⟨k2, hrun2, hdone2⟩ := h1.back.sound.completes hlate hmax
  have h1' := h1.mono ((Nat.le_add_right (T1 + 2 ^ 32) _).trans
    (hlate.le.trans (Nat.le_add_right T (2 ^ 32))))
  apply Duplex.leads_swap
  refine (h1'.swap.lift_run (le_refl _) hrun2).trans ?_
  rintro ⟨y2, x2⟩ ⟨l2, h2, hout⟩
  exact .here ⟨_, l2, k2, h2.swap, hdone.run h1'.out.sound (le_refl _) hout, hdone2⟩

/-! ### What the ends see -/

private theorem Settled.linkStatus (h : Settled x y a b s t d l k) :
    x.channel.getLinkStatus a = .connected := by
  have hpeer := (h.near.peer.resolve_left fun hno ↦ absurd (h.rx.1.symm.trans hno.1) (by simp)).2
  have hacked : x.channel.myStreamIdAckedByPeer ≠ false := fun hno ↦
    h.txNear (h.near.acked.mp hno)
  have hne := h.nonzero
  rw [Channel.getLinkStatus, if_neg hne.1, if_neg (not_not.mpr h.near.id), if_neg]
  rw [hpeer, not_or]
  exact ⟨hne.2, hacked⟩

/-- All that the application at `x` had written has reached the one at `y'`, and so has the end
of the stream if it was closed. The stream is connected, or done. -/
structure Served (x x' : Endpoint m n) (y' : Endpoint m' n') : Prop where
  linkStatus : x'.channel.getLinkStatus x.channel.myStreamId = .connected
  accepted : x'.accepted = x.accepted
  read : y'.read = x.accepted
  closed : x.closed = true →
    y'.channel.receiver.endOfStream = true ∧ x'.channel.transmitter.state = .idle

end

end Endpoint

namespace Duplex

variable {m n m' n' : LinkBufferSize}

end Duplex

end RooTransport.Link
