import RooTransport.Base.Framing
import RooTransport.Messaging.LossyLink

/-!
# What is written on a connection

`sendInternal` holds `mutex_` from the size field to the last byte of the payload
(`link_messaging.cpp:73–84`), `connect` needs it to replace the link, and a stream that has
reported an error takes nothing any more. So the bytes on a connection are the first bytes
of the messages that were started on it.
-/

namespace RooTransport.Messaging

open RooTransport.Base RooTransport.Link

/-- What a thread has yet to write. -/
def Sender.unwritten : Sender → List UInt8
  | .sending blocks _ _ => blocks.flatten
  | _ => []

/-- What the thread that has `mutex_` has yet to write. -/
def LinkMessaging.unwritten (m : LinkMessaging) : List UInt8 :=
  match m.mutex with
  | none => []
  | some i => (m.senders i).unwritten

namespace Conn

/-- The bytes of the messages that were started on a connection. -/
def outgoing (c : Conn) : List UInt8 := joined (c.sent.map Sent.piece)

/-- What is on the connection are whole messages but for the last, and no continuation of
another connection is among them. -/
structure Sound (c : Conn) : Prop where
  written : c.written <+: c.outgoing
  continuation : ∀ e ∈ c.sent, ∀ id header payload,
    e.call = .sendContinuation id header payload → id = c.id

end Conn

private theorem Sent.wire_continuation {e : Sent} {id : UInt32} {header payload : List UInt8}
    (h : e.call = .sendContinuation id header payload) :
    ∃ header', e.wire = .sendContinuation id header' payload := by
  unfold Sent.wire
  split
  · exact ⟨header, h⟩
  · next channel _ => exact ⟨channel :: header, by rw [h]; rfl⟩

private theorem Sent.blocks_flatten (e : Sent) : e.wire.blocks.flatten = joined [e.piece] := by
  simp [Call.blocks, Sent.piece, Sent.message]

namespace Side

variable {others : List Conn} {made : Option Sent} {x x' : Side} {m m' : LinkMessaging}

/-! ### Writing -/

/-- The writing half of a side is in order. -/
structure Sending (x : Side) : Prop where
  exclusive : ∀ i blocks waiting connectionId,
    x.messaging.senders i = .sending blocks waiting connectionId → x.messaging.mutex = some i
  calls : ∀ i call, Waits x.messaging i call → call = (x.calls i).wire
  newest : ∀ c ∈ x.conns.head?, x.messaging.link.myStreamId = c.id ∧
    (x.messaging.link.output.status = .ok → c.written ++ x.messaging.unwritten = c.outgoing)
  sound : ∀ c ∈ x.conns, c.Sound

/-- The writing half of a new side is in order. -/
theorem sending_new (maxRecvPacketSize : Nat) : (new maxRecvPacketSize).Sending where
  exclusive := by simp [new, LinkMessaging.new]
  calls := by simp [new, LinkMessaging.new, Waits]
  newest := by simp [new]
  sound := by simp [new]

private theorem Similar.unwritten (h : Similar m m') : m'.unwritten = m.unwritten := by
  have hsame (i : Nat) : (m'.senders i).unwritten = (m.senders i).unwritten := by
    cases hs : m.senders i with
    | sending blocks waiting connectionId => rw [(h.sending i _ _ _).mpr hs]
    | idle | entering | parked | returned =>
      cases hs' : m'.senders i with
      | sending blocks waiting connectionId =>
        rw [(h.sending i _ _ _).mp hs'] at hs
        cases hs
      | idle | entering | parked | returned => rfl
  unfold LinkMessaging.unwritten
  rw [h.mutex]
  split
  · rfl
  · exact hsame _

private theorem Sending.quiet (h : x.Sending) (hm : Similar x.messaging m) :
    Sending { x with messaging := m } where
  exclusive i blocks waiting connectionId hs := by
    rw [hm.mutex]
    exact h.exclusive i blocks waiting connectionId ((hm.sending ..).mp hs)
  calls i call hw := h.calls i call (hm.waits i call hw)
  newest c hc := by
    dsimp only
    rw [hm.myStreamId, hm.output, hm.unwritten]
    exact h.newest c hc
  sound := h.sound

-- The loop goes on, and something is noted of the newest connection that is not about
-- what is written on it.
private theorem Sending.loop (h : x.Sending) (loop : ReceiveLoop) (input : LinkStream)
    {f : Conn → Conn}
    (hf : ∀ c, (f c).id = c.id ∧ (f c).written = c.written ∧ (f c).sent = c.sent) :
    Sending { x with
      messaging := { x.messaging with loop, link := { x.messaging.link with input } }
      conns := onNewest f x.conns } where
  exclusive := h.exclusive
  calls := h.calls
  newest c hc := by
    rw [head_onNewest] at hc
    obtain ⟨c', hc', rfl⟩ := Option.mem_map.mp hc
    obtain ⟨hid, hwritten, hsent⟩ := hf c'
    rw [hid, hwritten, Conn.outgoing, hsent]
    exact h.newest c' hc'
  sound c hc := by
    obtain hc | ⟨c', hc', rfl⟩ := mem_onNewest hc
    · exact h.sound c hc
    obtain ⟨hid, hwritten, hsent⟩ := hf c'
    obtain ⟨hpre, hcont⟩ := h.sound c' (List.mem_of_mem_head? hc')
    constructor
    · rw [hwritten, Conn.outgoing, hsent]
      exact hpre
    · rw [hsent, hid]
      exact hcont

private theorem Waits.of_setSender {i j : Nat} {y : Sender} {call : Call}
    (h : Waits (m.setSender i y) j call)
    (hy : ∀ call notified, y ≠ .entering call ∧ y ≠ .parked call notified) : Waits m j call := by
  unfold Waits LinkMessaging.setSender at h
  dsimp only at h
  by_cases hji : j = i
  · subst hji
    rw [Function.update_self] at h
    obtain h | ⟨notified, h⟩ := h
    · exact absurd h (hy call false).1
    · exact absurd h (hy call notified).2
  · rw [Function.update_of_ne hji] at h
    exact h

private theorem Sending.start (h : x.Sending) {i : Nat} {e : Sent}
    (hidle : ∀ blocks waiting connectionId,
      x.messaging.senders i ≠ .sending blocks waiting connectionId) :
    Sending { x with
      messaging := x.messaging.setSender i (.entering e.wire)
      calls := Function.update x.calls i e } where
  exclusive j blocks waiting connectionId hs := by
    by_cases hji : j = i
    · subst hji
      simp [LinkMessaging.setSender] at hs
    · simp only [LinkMessaging.setSender, Function.update_of_ne hji] at hs
      exact h.exclusive j blocks waiting connectionId hs
  calls j call hw := by
    by_cases hji : j = i
    · subst hji
      simp only [Waits, LinkMessaging.setSender, Function.update_self] at hw ⊢
      simp_all
    · simp only [Waits, LinkMessaging.setSender, Function.update_of_ne hji] at hw ⊢
      exact h.calls j call hw
  newest c hc := by
    have hun : (x.messaging.setSender i (.entering e.wire)).unwritten = x.messaging.unwritten := by
      unfold LinkMessaging.unwritten LinkMessaging.setSender
      dsimp only
      split
      · rfl
      next j _ =>
      by_cases hji : j = i
      · subst hji
        rw [Function.update_self]
        cases hs : x.messaging.senders j with
        | sending blocks waiting connectionId => exact absurd hs (hidle _ _ _)
        | idle | entering | parked | returned => rfl
      · rw [Function.update_of_ne hji]
    dsimp only
    rw [hun]
    exact h.newest c hc
  sound := h.sound

private theorem Sending.lock (h : x.Sending) {i : Nat} {call : Call}
    (hfree : x.messaging.mutex = none) (hw : Waits x.messaging i call)
    (hcont : ∀ id header payload, call = .sendContinuation id header payload →
      x.messaging.link.myStreamId = id) (connectionId : Option UInt32) :
    Sending { x with
      messaging := x.messaging.startSending i call connectionId
      conns := onNewest (fun c ↦ { c with sent := c.sent ++ [x.calls i] }) x.conns } where
  exclusive j blocks waiting connectionId hs := by
    by_cases hji : j = i
    · rw [hji]
      rfl
    · simp only [LinkMessaging.startSending, LinkMessaging.setSender,
        Function.update_of_ne hji] at hs
      have hlock := h.exclusive j _ _ _ hs
      rw [hfree] at hlock
      cases hlock
  calls j call hw := h.calls j call (Waits.of_setSender hw (by simp))
  newest c hc := by
    rw [head_onNewest] at hc
    obtain ⟨c', hc', rfl⟩ := Option.mem_map.mp hc
    obtain ⟨hid, hout⟩ := h.newest c' hc'
    refine ⟨hid, fun hok ↦ ?_⟩
    have hbefore := hout hok
    have hnone : x.messaging.unwritten = [] := by rw [LinkMessaging.unwritten, hfree]
    have hblocks : (x.messaging.startSending i call connectionId).unwritten =
        joined [(x.calls i).piece] := by
      rw [← Sent.blocks_flatten, ← h.calls i call hw]
      simp [LinkMessaging.unwritten, LinkMessaging.startSending, LinkMessaging.setSender,
        Sender.unwritten]
    rw [hnone, List.append_nil] at hbefore
    rw [hblocks, hbefore]
    simp [Conn.outgoing]
  sound c hc := by
    obtain hc | ⟨c', hc', rfl⟩ := mem_onNewest hc
    · exact h.sound c hc
    obtain ⟨hpre, hold⟩ := h.sound c' (List.mem_of_mem_head? hc')
    constructor
    · have hmore : c'.outgoing <+: joined ((c'.sent ++ [x.calls i]).map Sent.piece) := by
        simp [Conn.outgoing]
      exact hpre.trans hmore
    · intro e he id header payload heq
      obtain he | he := List.mem_append.mp he
      · exact hold e he id header payload heq
      · obtain rfl := List.mem_singleton.mp he
        obtain ⟨header', hwire⟩ := Sent.wire_continuation heq
        have hthis := hcont id header' payload ((h.calls i call hw).trans hwire)
        exact hthis.symm.trans (h.newest c' hc').1

private theorem Sending.write (h : x.Sending) {i : Nat} {blocks blocks' : List (List UInt8)}
    {waiting : Bool} {connectionId : Option UInt32} {bytes : List UInt8} {status : Status}
    (hs : x.messaging.senders i = .sending blocks waiting connectionId)
    (hok : status = .ok → x.messaging.link.output.status = .ok ∧
      bytes ++ blocks'.flatten = blocks.flatten)
    (hbytes : x.messaging.link.output.status = .ok ∧ bytes <+: blocks.flatten ∨ bytes = [])
    (waiting' : Bool) :
    Sending { x with
      messaging := { x.messaging.setSender i (.sending blocks' waiting' connectionId) with
        link := { x.messaging.link with output := { x.messaging.link.output with status } } }
      conns := onNewest (fun c ↦ { c with written := c.written ++ bytes }) x.conns } := by
  have hlock := h.exclusive i _ _ _ hs
  have hleft : x.messaging.unwritten = blocks.flatten := by
    rw [LinkMessaging.unwritten, hlock]
    dsimp only
    rw [hs, Sender.unwritten]
  constructor
  case exclusive =>
    intro j blocks waiting connectionId hj
    by_cases hji : j = i
    · rw [hji]
      exact hlock
    · simp only [LinkMessaging.setSender, Function.update_of_ne hji] at hj
      exact h.exclusive j _ _ _ hj
  case calls =>
    intro j call hw
    exact h.calls j call (Waits.of_setSender hw (by simp))
  case newest =>
    intro c hc
    rw [head_onNewest] at hc
    obtain ⟨c', hc', rfl⟩ := Option.mem_map.mp hc
    obtain ⟨hid, hout⟩ := h.newest c' hc'
    refine ⟨hid, fun hstatus ↦ ?_⟩
    obtain ⟨hopen, hsplit⟩ := hok hstatus
    have hthen : LinkMessaging.unwritten
        { x.messaging.setSender i (.sending blocks' waiting' connectionId) with
          link := { x.messaging.link with output := { x.messaging.link.output with status } } } =
        blocks'.flatten := by
      simp [LinkMessaging.unwritten, LinkMessaging.setSender, hlock, Sender.unwritten]
    have hbefore := hout hopen
    rw [hleft, ← hsplit] at hbefore
    rw [hthen, List.append_assoc, hbefore]
    rfl
  case sound =>
    intro c hc
    obtain hc | ⟨c', hc', rfl⟩ := mem_onNewest hc
    · exact h.sound c hc
    obtain ⟨hpre, hcont⟩ := h.sound c' (List.mem_of_mem_head? hc')
    refine ⟨?_, hcont⟩
    obtain ⟨hopen, hfirst⟩ | rfl := hbytes
    · show c'.written ++ bytes <+: c'.outgoing
      rw [← (h.newest c' hc').2 hopen, hleft]
      exact (List.prefix_append_right_inj _).mpr hfirst
    · show c'.written ++ [] <+: c'.outgoing
      rw [List.append_nil]
      exact hpre

private theorem Sending.unlock (h : x.Sending) {i : Nat} {waiting : Bool}
    {connectionId : Option UInt32} {status : Status}
    (hs : x.messaging.senders i = .sending [] waiting connectionId)
    (hok : status = .ok → x.messaging.link.output.status = .ok) (result : Bool) :
    Sending { x with
      messaging := { x.messaging.setSender i (.returned result connectionId) with
        mutex := none
        link := { x.messaging.link with
          output := { x.messaging.link.output with status } } } } where
  exclusive j blocks waiting connectionId hj := by
    by_cases hji : j = i
    · subst hji
      simp [LinkMessaging.setSender] at hj
    · simp only [LinkMessaging.setSender, Function.update_of_ne hji] at hj
      have hmine := h.exclusive i _ _ _ hs
      rw [h.exclusive j _ _ _ hj] at hmine
      exact absurd (Option.some.inj hmine) hji
  calls j call hw := h.calls j call (Waits.of_setSender hw (by simp))
  newest c hc := by
    obtain ⟨hid, hout⟩ := h.newest c hc
    refine ⟨hid, fun hstatus ↦ ?_⟩
    have hnone : x.messaging.unwritten = [] := by
      rw [LinkMessaging.unwritten, h.exclusive i _ _ _ hs]
      dsimp only
      rw [hs]
      rfl
    have hbefore := hout (hok hstatus)
    rw [hnone] at hbefore
    exact hbefore
  sound := h.sound

private theorem Sending.connect (h : x.Sending) (hfree : x.messaging.mutex = none) (id : UInt32)
    (peer : Nat) :
    Sending { x with
      messaging := { x.messaging.notifyAll with link := .new id, loop := .entering id }
      conns := ⟨id, peer, .connecting, [], 0, [], []⟩ :: x.conns } where
  exclusive i blocks waiting connectionId hs :=
    h.exclusive i blocks waiting connectionId (((notifyAll_similar x.messaging).sending ..).mp hs)
  calls i call hw := h.calls i call ((notifyAll_similar x.messaging).waits i call hw)
  newest c hc := by
    obtain rfl : _ = c := Option.some.inj hc
    refine ⟨rfl, fun _ ↦ ?_⟩
    simp [LinkMessaging.unwritten, LinkMessaging.notifyAll, hfree, Conn.outgoing]
  sound c hc := by
    obtain rfl | hc := List.mem_cons.mp hc
    · exact ⟨List.nil_prefix, by simp⟩
    · exact h.sound c hc

/-- Every move keeps the writing half in order. -/
theorem Sending.move (h : x.Sending) (hm : Move others made x x') : x'.Sending := by
  cases hm with
  | quiet m hsame => exact h.quiet hsame
  | start i e _ hidle => exact h.start hidle
  | lock i call connectionId hfree hw hcont => exact h.lock hfree hw hcont connectionId
  | write i blocks blocks' waiting waiting' connectionId bytes status hs hok hbytes =>
    exact h.write hs hok hbytes waiting'
  | unlock i waiting result connectionId status hs hok => exact h.unlock hs hok result
  | connect id peer hfree => exact h.connect hfree id peer
  | enter id hloop => exact ⟨h.exclusive, h.calls, h.newest, h.sound⟩
  | take id size got bytes waiting waiting' status hloop hlen hbytes =>
    exact h.loop _ _ fun c ↦ ⟨rfl, rfl, rfl⟩
  | sized id got waiting hloop hlen hsize => exact ⟨h.exclusive, h.calls, h.newest, h.sound⟩
  | dispatch id n got waiting hloop hn => exact h.loop _ _ fun c ↦ ⟨rfl, rfl, rfl⟩
  | drift status => exact h.loop _ _ fun c ↦ ⟨rfl, rfl, rfl⟩

/-! ### What the calls carry -/

/-- Every call of the side, past or present, is of the kind. -/
structure AllSent (P : Sent → Prop) (x : Side) : Prop where
  calls : ∀ i, P (x.calls i)
  sent : ∀ c ∈ x.conns, ∀ e ∈ c.sent, P e

variable {P : Sent → Prop}

private theorem AllSent.onNewest (h : x.AllSent P) (m : LinkMessaging) {f : Conn → Conn}
    (hf : ∀ c, ∀ e ∈ (f c).sent, e ∈ c.sent ∨ ∃ i, e = x.calls i) :
    AllSent P { x with messaging := m, conns := Messaging.onNewest f x.conns } where
  calls := h.calls
  sent c hc e he := by
    obtain hc | ⟨c', hc', rfl⟩ := mem_onNewest hc
    · exact h.sent c hc e he
    obtain he | ⟨i, rfl⟩ := hf c' e he
    · exact h.sent c' (List.mem_of_mem_head? hc') e he
    · exact h.calls i

/-- Every move keeps what holds of all calls that were made. -/
theorem AllSent.move (h : x.AllSent P) (hm : Move others made x x') (hP : ∀ e ∈ made, P e) :
    x'.AllSent P := by
  cases hm with
  | quiet m hsame => exact ⟨h.calls, h.sent⟩
  | start i e hmade hidle =>
    refine ⟨fun j ↦ ?_, h.sent⟩
    dsimp only
    by_cases hji : j = i
    · subst hji
      rw [Function.update_self]
      exact hP e hmade
    · rw [Function.update_of_ne hji]
      exact h.calls j
  | lock i call connectionId hfree hw hcont =>
    refine h.onNewest _ fun c e he ↦ ?_
    obtain he | he := List.mem_append.mp he
    · exact .inl he
    · exact .inr ⟨i, List.mem_singleton.mp he⟩
  | unlock i waiting result connectionId status hs hok => exact ⟨h.calls, h.sent⟩
  | connect id peer hfree =>
    refine ⟨h.calls, fun c hc e he ↦ ?_⟩
    obtain rfl | hc := List.mem_cons.mp hc
    · cases he
    · exact h.sent c hc e he
  | enter id hloop => exact ⟨h.calls, h.sent⟩
  | sized id got waiting hloop hlen hsize => exact ⟨h.calls, h.sent⟩
  | write | take | dispatch | drift => exact h.onNewest _ fun c e he ↦ .inl he

end Side

end RooTransport.Messaging
